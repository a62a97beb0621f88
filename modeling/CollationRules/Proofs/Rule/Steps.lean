import CollationRules.Rule.Scanner

/-! What one character does to the token that is being scanned, said once for all that is shown of
tokens. -/

namespace CollationRules

/-- The character that a cause is about. -/
def SyntaxCause.character : SyntaxCause → Char
  | missingStrength c | specialCharacter c => c
  | strayQuote | unterminatedQuote => '\''
  | strayEscape => '\\'
  | misplacedExpansion => '/'
  | reservedCodePoint => expansionMark

/-- The character that brought a mode about and its byte offset, where the mode knows them. -/
def Mode.mark? : Mode → Option (Char × Nat)
  | .plain | .angled => none
  | .escaped start => some ('\\', start)
  | .opened start | .quoted start | .closed start => some ('\'', start)

/-- A character that begins no token and is not passed in front of one. -/
structure IsStray (c : Char) : Prop where
  skipped : isSkipped c = false
  operator : operator? c = none
  sign : c ≠ '[' ∧ c ≠ '@' ∧ c ≠ '!'

theorem isStray_expansionMark : IsStray expansionMark := ⟨by decide, by decide, by decide⟩

namespace Draft

/-- What a character at a byte offset can do to a draft. -/
inductive Outcome (first : Bool) (d : Draft) (offset : Nat) (c : Char) : Step → Prop
  | skipped (closed : d.unfinished? = none) (skip : isSkipped c) :
      Outcome first d offset c (.take { d with mode := .plain })
  /-- A relation comes first, and ends the reset that it implies. -/
  | implied (closed : d.unfinished? = none) (fresh : d.kind = none) (isFirst : first)
      {strength : Strength} (operator : operator? c = some (.relation strength)) :
      Outcome first d offset c (.stop { d with
        kind := some .reset, start := some (d.start.getD offset), mode := .plain,
        text := d.text ++ implicitReset.toArray })
  | begun (closed : d.unfinished? = none) (fresh : d.kind = none) {kind : TokenKind}
      (operator : operator? c = some kind) (written : first → kind.isRelation = false) :
      Outcome first d offset c (.take { d with
        kind, start := some (d.start.getD offset), mode := if c = '<' then .angled else .plain })
  | aside (closed : d.unfinished? = none) (fresh : d.kind = none) {kind : TokenKind}
      (sign : c = '[' ∧ kind = .setting ∨ c = '@' ∧ kind = .override) (depth : Nat)
      (text : Array Char) :
      Outcome first d offset c (.take { d with
        kind, start := some (d.start.getD offset), mode := .plain, depth, text })
  | exclamation (closed : d.unfinished? = none) (fresh : d.kind = none) (sign : c = '!') :
      Outcome first d offset c (.take { d with
        start := some (d.start.getD offset), mode := .plain })
  | ended (closed : d.unfinished? = none) (kind : d.kind.isSome) (operator : (operator? c).isSome) :
      Outcome first d offset c (.stop { d with
        start := some (d.start.getD offset), mode := .plain })
  | inside (closed : d.unfinished? = none) (kind : d.kind.isSome) (depth : Nat) (text : Array Char)
      {mode : Mode} (mark : mode = .plain ∨ mode.mark? = some (c, offset)) :
      Outcome first d offset c (.take { d with
        start := some (d.start.getD offset), mode, depth, text })
  | strengthened (angled : d.mode = .angled) (sign : c = '<') :
      Outcome first d offset c (.take d.strengthen)
  | quoted (marked : d.mode.mark?.isSome) (text : Array Char) {mode : Mode}
      (mark : mode = .plain ∨ mode.mark? = d.mode.mark?)
      (closes : ∀ start, mode = .closed start → c = '\'') :
      Outcome first d offset c (.take { d with mode, text })
  | failed {cause : SyntaxCause} (character : cause.character = c)
      (stray : (d.kind = none → d.depth = 0) → IsStray c) :
      Outcome first d offset c (.fail cause)

section

variable {first : Bool} {d : Draft} {offset : Nat} {c : Char}

theorem outcome_stepOutside (closed : d.unfinished? = none) (fresh : d.kind = none)
    (unskipped : d.depth = 0 → isSkipped c = false) :
    Outcome first d offset c
      ({ d with start := some (d.start.getD offset), mode := .plain }.stepOutside first c) := by
  unfold stepOutside
  split
  · rename_i kind hkind
    split
    · rename_i himplied
      rw [Bool.and_eq_true] at himplied
      cases kind with
      | relation strength => exact .implied closed fresh himplied.1 hkind
      | _ => cases himplied.2
    · rename_i hwritten
      exact .begun closed fresh hkind (by simpa using hwritten)
  · rename_i hoperator
    have hstray (hsign : c ≠ '[' ∧ c ≠ '@' ∧ c ≠ '!') (hdepth : d.kind = none → d.depth = 0) :
        IsStray c := ⟨unskipped (hdepth fresh), hoperator, hsign⟩
    repeat' split
    · exact .aside closed fresh (.inl ⟨‹_›, rfl⟩) _ _
    · exact .aside closed fresh (.inr ⟨‹_›, rfl⟩) _ _
    · exact .exclamation closed fresh ‹_›
    · exact .failed (‹c = '\\'›).symm (hstray ⟨‹_›, ‹_›, ‹_›⟩)
    · exact .failed (‹c = '\''›).symm (hstray ⟨‹_›, ‹_›, ‹_›⟩)
    · exact .failed (‹c = '/'›).symm (hstray ⟨‹_›, ‹_›, ‹_›⟩)
    · exact .failed (‹c = expansionMark›).symm (hstray ⟨‹_›, ‹_›, ‹_›⟩)
    · exact .failed rfl (hstray ⟨‹_›, ‹_›, ‹_›⟩)

/-- The mark of expansions is an error wherever it stands. -/
theorem Outcome.marked (h : c = expansionMark) :
    Outcome first d offset c (.fail .reservedCodePoint) :=
  .failed h.symm fun _ => h ▸ isStray_expansionMark

theorem outcome_stepInside (closed : d.unfinished? = none) (kind : d.kind.isSome)
    (unskipped : d.depth = 0 → isSkipped c = false) :
    Outcome first d offset c
      ({ d with start := some (d.start.getD offset), mode := .plain }.stepInside offset c) := by
  unfold stepInside
  repeat' split
  · exact .ended closed kind ‹_›
  · exact .inside closed kind _ _ (.inl rfl)
  · exact .inside closed kind _ _ (.inl rfl)
  · exact .inside closed kind _ _ (.inr (by rw [‹c = '\\'›]; rfl))
  · exact .inside closed kind _ _ (.inr (by rw [‹c = '\''›]; rfl))
  · exact .inside closed kind _ _ (.inl rfl)
  · exact .inside closed kind _ _ (.inl rfl)
  · exact .marked ‹_›
  · exact .inside closed kind _ _ (.inl rfl)
  · rename_i hoperator hopen _ _ _ hpassed _ _ hkept hspecial
    refine .failed rfl fun _ => ⟨unskipped ?_, by simpa using hoperator, hopen, ?_, hpassed⟩
    · exact of_decide_eq_true (Bool.and_eq_true_iff.1 hspecial).1
    · rintro rfl
      exact hkept rfl
  · exact .inside closed kind _ _ (.inl rfl)

theorem outcome_stepPlain (closed : d.unfinished? = none) :
    Outcome first d offset c (d.stepPlain first offset c) := by
  simp only [stepPlain]
  split
  · rename_i hskip
    rw [Bool.and_eq_true] at hskip
    exact .skipped closed hskip.2
  · rename_i hskip
    have unskipped (hdepth : d.depth = 0) : isSkipped c = false := by simpa [hdepth] using hskip
    split
    · rename_i hfresh
      exact outcome_stepOutside closed (Option.isNone_iff_eq_none.1 hfresh) unskipped
    · rename_i hkind
      exact outcome_stepInside closed (by simpa [Option.isSome_iff_ne_none] using hkind) unskipped

theorem outcome_stepQuoted {start : Nat} (mark : d.mode.mark? = some ('\'', start)) :
    Outcome first d offset c (d.stepQuoted start c) := by
  have hmarked : d.mode.mark?.isSome := by rw [mark]; rfl
  unfold stepQuoted
  split
  · exact .quoted hmarked d.text (.inr mark.symm) fun _ _ => ‹c = '\''›
  · split
    · exact .marked ‹_›
    · exact .quoted hmarked (d.text.push c) (.inr mark.symm) nofun

end

theorem outcome_step (first : Bool) (d : Draft) (offset : Nat) (c : Char) :
    Outcome first d offset c (d.step first offset c) := by
  unfold step
  split
  · rename_i hmode
    exact outcome_stepPlain (by rw [unfinished?, hmode])
  · rename_i hmode
    split
    · exact .strengthened hmode ‹_›
    · exact outcome_stepPlain (by rw [unfinished?, hmode])
  · rename_i start hmode
    split
    · exact .marked ‹_›
    · exact .quoted (by rw [hmode]; rfl) d.text (.inl rfl) nofun
  · rename_i start hmode
    split
    · exact .quoted (by rw [hmode]; rfl) (d.text.push c) (.inl rfl) nofun
    · exact outcome_stepQuoted (by rw [hmode]; rfl)
  · rename_i start hmode
    exact outcome_stepQuoted (by rw [hmode]; rfl)
  · rename_i start hmode
    split
    · exact .quoted (by rw [hmode]; rfl) (d.text.push c) (.inr (by rw [hmode]; rfl)) nofun
    · exact outcome_stepPlain (by rw [unfinished?, hmode])

end Draft
end CollationRules
