import CollationRules.Proofs.Rule.Division

/-! Where the syntax of a rule string is wrong. A scan fails at the character that it cannot take,
or, where the rule string ends too early, at the quote mark or the backslash that it has kept the
place of. Either way the error is about the character that stands there. -/

namespace CollationRules

open Text (byteLength)

namespace Draft

section

variable {first : Bool} {d next last : Draft} {offset : Nat} {c : Char} {text rest : List Char}

theorem strengthen_mark (d : Draft) (h : d.mode = .angled) : d.strengthen.mode.mark? = none := by
  unfold strengthen
  split
  · rw [h]
    rfl
  · rfl

/-- A mode knows the place of a character that has just been taken, or the place that it knew. -/
theorem step_take_mark (h : d.step first offset c = .take next) :
    ∀ mark ∈ next.mode.mark?, d.mode.mark? = some mark ∨ mark = (c, offset) := by
  intro mark hmark
  have houtcome := d.outcome_step first offset c
  rw [h] at houtcome
  cases houtcome with
  | skipped | aside | exclamation => cases hmark
  | begun =>
    simp only [apply_ite Mode.mark?] at hmark
    split at hmark <;> cases hmark
  | inside _ _ _ _ hmode =>
    rcases hmode with rfl | hmode
    · cases hmark
    · exact .inr (Option.some.inj (hmark.symm.trans hmode))
  | strengthened angled =>
    rw [strengthen_mark d angled] at hmark
    cases hmark
  | quoted _ _ hmode =>
    rcases hmode with rfl | hmode
    · cases hmark
    · exact .inl (hmode ▸ hmark)

theorem Takes.mark (h : Takes first d offset text last) :
    ∀ mark ∈ last.mode.mark?, d.mode.mark? = some mark ∨
      ∃ before after, text = before ++ mark.1 :: after ∧ mark.2 = offset + byteLength before := by
  intro mark hmark
  induction h with
  | nil => exact .inl hmark
  | cons step rest ih =>
    rcases ih hmark with hnext | ⟨before, after, rfl, hplace⟩
    · rcases step_take_mark step mark hnext with hsame | rfl
      · exact .inl hsame
      · exact .inr ⟨[], _, rfl, rfl⟩
    · refine .inr ⟨_ :: before, after, rfl, ?_⟩
      rw [hplace, Text.byteLength_cons, Nat.add_assoc]

theorem mark?_of_unfinished {cause : SyntaxCause} {place : Nat}
    (h : d.unfinished? = some (cause, place)) : d.mode.mark? = some (cause.character, place) := by
  unfold unfinished? at h
  split at h <;> cases h
  all_goals
    rename_i hmode
    rw [hmode]
    rfl

/-- A scan fails at a character of what it reads, and the cause is about that character. -/
theorem scan_error {input : List Char} {cause : SyntaxCause} {place : Nat}
    (h : (({} : Draft).scan first offset input).found = .error (cause, place)) :
    ∃ before after, input = before ++ cause.character :: after ∧
      place = offset + byteLength before := by
  obtain ⟨taken, rest, last, rfl, htakes, hends⟩ := scan_cases first {} offset input
  generalize ({} : Draft).scan first offset (taken ++ rest) = scan at h hends
  cases hends with
  | finished => cases h
  | stopped => cases h
  | unfinished unclosed =>
    cases h
    rcases htakes.mark _ (mark?_of_unfinished unclosed) with hfresh | ⟨before, after, rfl, hplace⟩
    · cases hfresh
    · exact ⟨before, after, by simp, hplace⟩
  | @failed cause c rest fail =>
    cases h
    have houtcome := last.outcome_step first (offset + byteLength taken) c
    rw [fail] at houtcome
    cases houtcome with
    | failed character => exact ⟨taken, rest, by rw [character], rfl⟩

end

end Draft

/-- An error about a character of a rule string, on the span of that character alone. -/
structure SyntaxError.IsAt (e : SyntaxError) (source before after : List Char) : Prop where
  character : source = before ++ e.cause.character :: after
  span : e.span =
    Span.ofOffsets (byteLength before) (byteLength before + e.cause.character.utf8Size)

theorem SyntaxError.isAt_locate (cause : SyntaxCause) (before after : List Char) :
    (locate cause (before ++ cause.character :: after) (byteLength before)).IsAt
      (before ++ cause.character :: after) before after := by
  unfold locate
  rw [Text.cut_byteLength]
  exact ⟨rfl, by simp⟩

namespace Scanner

theorem next_isAt {s : Scanner} {front : List Char} (hsource : s.source = front ++ s.rest)
    (hoffset : s.offset = byteLength front) {e : SyntaxError} (h : s.next.1 = .error e) :
    ∃ before after, e.IsAt s.source before after := by
  simp only [next] at h
  cases hfound : (({} : Draft).scan s.first s.offset s.rest).found with
  | ok token =>
    rw [hfound] at h
    cases h
  | error fault =>
    obtain ⟨cause, place⟩ := fault
    rw [hfound] at h
    cases h
    obtain ⟨before, after, hrest, rfl⟩ := Draft.scan_error hfound
    refine ⟨front ++ before, after, ?_⟩
    rw [hsource, hrest, hoffset, ← Text.byteLength_append, ← List.append_assoc]
    exact SyntaxError.isAt_locate cause (front ++ before) after

theorem exists_isAt {s : Scanner} {front : List Char} (hsource : s.source = front ++ s.rest)
    (hoffset : s.offset = byteLength front) {e : SyntaxError} (h : s.error? = some e) :
    ∃ before after, e.IsAt s.source before after := by
  induction s using Scanner.answers.induct generalizing front with
  | case1 s e' hnext =>
    rw [error?_of_error hnext] at h
    cases h
    exact next_isAt hsource hoffset hnext
  | case2 s token hnext hf =>
    rw [error?_of_finish hnext hf] at h
    cases h
  | case3 s token hnext hf ih =>
    obtain ⟨lead, piece, hrest, hnext', -⟩ := next_finds hnext hf
    rw [error?_of_token hnext hf] at h
    have hsource' : s.next.2.source = (front ++ lead ++ piece) ++ s.next.2.rest := by
      rw [List.append_assoc, List.append_assoc, ← List.append_assoc lead, ← hrest]
      exact hsource
    have hoffset' : s.next.2.offset = byteLength (front ++ lead ++ piece) := by
      rw [hnext', hoffset, Text.byteLength_append, Text.byteLength_append]
    exact ih hsource' hoffset' h

end Scanner

/-- An error in the syntax of a rule string is about the character that its cause names. -/
theorem syntaxError?_isAt {source : List Char} {e : SyntaxError}
    (h : syntaxError? source = some e) : ∃ before after, e.IsAt source before after := by
  have hstart : (Scanner.ofSource source).source = [] ++ (Scanner.ofSource source).rest := rfl
  exact Scanner.exists_isAt hstart rfl h

theorem SyntaxError.IsAt.covers {e : SyntaxError} {source before after : List Char}
    (h : e.IsAt source before after) (hsize : byteLength source < UInt32.size) :
    e.span.Covers source [e.cause.character] := by
  have hsource : source = before ++ [e.cause.character] ++ after := by simp [h.character]
  have hcharacter : byteLength (before ++ [e.cause.character]) < UInt32.size := by
    rw [hsource, Text.byteLength_append] at hsize
    omega
  rw [hsource, h.span]
  exact Span.covers_ofOffsets hcharacter

end CollationRules
