import CollationRules.Proofs.Rule.Calls

/-! Expansion marks. A rule string that holds one is wrong at the first of them or before it, and
every other mark in the text of a token stands for a slash that is neither quoted nor escaped. -/

namespace CollationRules

open Text (byteLength)

/-! ### Slashes -/

/-- How the next character of a rule string stands there. -/
inductive Quotation
  | outside
  /-- Directly after a backslash outside of quotes. -/
  | escaped
  /-- Between quote marks. -/
  | quoted
deriving DecidableEq, Repr

namespace Quotation

def next : Quotation → Char → Quotation
  | outside, c => if c = '\'' then quoted else if c = '\\' then escaped else outside
  | escaped, _ => outside
  | quoted, c => if c = '\'' then outside else quoted

/-- Whether a character is a slash that is neither quoted nor escaped, as a number. -/
def slash (q : Quotation) (c : Char) : Nat := if q = outside ∧ c = '/' then 1 else 0

/-- The number of slashes in a text that are neither quoted nor escaped. -/
def slashes (q : Quotation) : List Char → Nat
  | [] => 0
  | c :: rest => q.slash c + (q.next c).slashes rest

end Quotation

/-- The number of slashes in a text from its beginning on that are neither quoted nor escaped. -/
def slashes (text : List Char) : Nat := Quotation.outside.slashes text

/-- Whether a character is no slash and begins neither a quoted section nor an escape. -/
def IsBare (c : Char) : Prop := c ≠ '\'' ∧ c ≠ '\\' ∧ c ≠ '/'

instance (c : Char) : Decidable (IsBare c) := inferInstanceAs (Decidable (_ ∧ _ ∧ _))

theorem isBare_of_isSkipped {c : Char} (h : isSkipped c) : IsBare c := by
  refine ⟨?_, ?_, ?_⟩
  all_goals
    rintro rfl
    exact absurd h (by decide)

theorem isBare_of_operator {c : Char} (h : (operator? c).isSome) : IsBare c := by
  refine ⟨?_, ?_, ?_⟩
  all_goals
    rintro rfl
    exact absurd h (by decide)

theorem IsBare.next {c : Char} (h : IsBare c) : Quotation.outside.next c = .outside := by
  simp [Quotation.next, h.1, h.2.1]

theorem IsBare.slash {c : Char} (h : IsBare c) : Quotation.outside.slash c = 0 :=
  if_neg fun hslash => h.2.2 hslash.2

theorem slashes_of_isBare {text : List Char} (h : ∀ c ∈ text, IsBare c) : slashes text = 0 := by
  induction text with
  | nil => rfl
  | cons c text ih =>
    rw [List.forall_mem_cons] at h
    rw [slashes, Quotation.slashes, h.1.slash, h.1.next, ← slashes, ih h.2]

theorem slashes_of_passed {text : List Char} (h : ∀ c ∈ text, isSkipped c ∨ c = '!') :
    slashes text = 0 := by
  refine slashes_of_isBare fun c hc => ?_
  rcases h c hc with hskipped | rfl
  · exact isBare_of_isSkipped hskipped
  · decide

/-! ### Marks in drafts -/

def Mode.quotation : Mode → Quotation
  | .plain | .angled | .closed _ => .outside
  | .escaped _ => .escaped
  | .opened _ | .quoted _ => .quoted

namespace Draft

theorem count_implicitReset : implicitReset.count expansionMark = 0 := by decide

/-- An expansion mark is an error in every mode. -/
theorem step_expansionMark (first : Bool) (d : Draft) (offset : Nat) :
    d.step first offset expansionMark = .fail .reservedCodePoint := by
  have hskipped : isSkipped expansionMark = false := by decide
  have hplain : d.stepPlain first offset expansionMark = .fail .reservedCodePoint := by
    simp only [stepPlain, hskipped, Bool.and_false, Bool.false_eq_true, if_false]
    split
    · rfl
    · rfl
  unfold step
  split
  · exact hplain
  · exact hplain
  · rfl
  · rfl
  · rfl
  · exact hplain

/-- A draft after a text that ends in some quotation and has some number of slashes: it is read on
in that quotation, and its own text has a mark for each of the slashes. -/
structure Marked (d : Draft) (q : Quotation) (count : Nat) : Prop where
  quotation : d.mode.quotation = q
  fresh : d.kind = none → d.mode = .plain ∧ d.text = #[]
  count : d.text.toList.count expansionMark = count

def Step.Marked (q : Quotation) (count : Nat) : Step → Prop
  | take next => next.Marked q count
  | stop last => q = .outside ∧ last.kind.isSome ∧ last.text.toList.count expansionMark = count
  | fail _ => True

section

variable {first : Bool} {d : Draft} {offset count : Nat} {c : Char} {q : Quotation}

theorem Marked.of_kind (hkind : d.kind.isSome) (hmode : d.mode.quotation = q)
    (hcount : d.text.toList.count expansionMark = count) : d.Marked q count := by
  refine ⟨hmode, fun hnone => ?_, hcount⟩
  rw [hnone] at hkind
  cases hkind

theorem Marked.kind_isSome (h : d.Marked q count) {mode : Mode} (hmode : d.mode = mode)
    (hne : mode ≠ .plain) : d.kind.isSome := by
  rw [Option.isSome_iff_ne_none]
  exact fun hnone => hne (hmode.symm.trans (h.fresh hnone).1)

theorem count_push (hc : c ≠ expansionMark) :
    (d.push c).text.toList.count expansionMark = d.text.toList.count expansionMark := by
  simp [push, List.count_append, hc]

theorem Step.Marked.bare {step : Step} (h : step.Marked .outside count) (hc : IsBare c) :
    step.Marked (Quotation.outside.next c) (count + Quotation.outside.slash c) := by
  rwa [hc.next, hc.slash]

theorem marked_stepOutside (h : d.Marked .outside count) (hkind : d.kind = none) :
    (d.stepOutside first c).Marked (Quotation.outside.next c)
      (count + Quotation.outside.slash c) := by
  obtain ⟨hmode, htext⟩ := h.fresh hkind
  unfold stepOutside
  split
  · rename_i kind hoperator
    have hbare := isBare_of_operator (c := c) (by rw [hoperator]; rfl)
    split
    · refine Step.Marked.bare ⟨rfl, rfl, ?_⟩ hbare
      simp [count_implicitReset, h.count]
    · have hangled : (if c = '<' then Mode.angled else .plain).quotation = .outside := by
        split <;> rfl
      exact Step.Marked.bare (Marked.of_kind rfl hangled h.count) hbare
  · repeat' split
    · rename_i hc
      subst hc
      exact Marked.of_kind rfl h.quotation ((count_push (by decide)).trans h.count)
    · rename_i hc
      subst hc
      exact Marked.of_kind rfl h.quotation h.count
    · rename_i hc
      subst hc
      exact h
    all_goals trivial

theorem marked_stepInside (h : d.Marked .outside count) (hkind : d.kind.isSome) :
    (d.stepInside offset c).Marked (Quotation.outside.next c)
      (count + Quotation.outside.slash c) := by
  have hpush (hc : c ≠ expansionMark) (hbare : IsBare c) (depth : Nat) :
      Step.Marked (Quotation.outside.next c) (count + Quotation.outside.slash c)
        (.take (({ d with depth } : Draft).push c)) :=
    Step.Marked.bare (Marked.of_kind hkind h.quotation ((count_push hc).trans h.count)) hbare
  unfold stepInside
  repeat' split
  · exact Step.Marked.bare ⟨rfl, hkind, h.count⟩ (isBare_of_operator ‹_›)
  · exact hpush (by rw [‹c = '['›]; decide) (by rw [‹c = '['›]; decide) _
  · exact hpush (by rw [‹c = ']'›]; decide) (by rw [‹c = ']'›]; decide) _
  · rename_i hc
    subst hc
    exact Marked.of_kind hkind rfl h.count
  · rename_i hc
    subst hc
    exact Marked.of_kind hkind rfl h.count
  · exact Step.Marked.bare h (by rw [‹c = '!'›]; decide)
  · rename_i hc
    subst hc
    refine Marked.of_kind hkind h.quotation ?_
    simp [push, List.count_append, h.count, Quotation.slash]
  · trivial
  · exact hpush ‹_› ⟨‹_›, ‹_›, ‹_›⟩ d.depth
  · trivial
  · exact hpush ‹_› ⟨‹_›, ‹_›, ‹_›⟩ d.depth

theorem marked_stepPlain (h : d.Marked .outside count) :
    (d.stepPlain first offset c).Marked (Quotation.outside.next c)
      (count + Quotation.outside.slash c) := by
  have hplain (start : Option Nat) :
      ({ d with start, mode := .plain } : Draft).Marked .outside count :=
    ⟨rfl, fun hnone => ⟨rfl, (h.fresh hnone).2⟩, h.count⟩
  simp only [stepPlain]
  split
  · rename_i hskip
    rw [Bool.and_eq_true] at hskip
    exact Step.Marked.bare (hplain d.start) (isBare_of_isSkipped hskip.2)
  · split
    · rename_i hfresh
      exact marked_stepOutside (hplain _) (Option.isNone_iff_eq_none.1 hfresh)
    · rename_i hkind
      exact marked_stepInside (hplain _) (by simpa [Option.isSome_iff_ne_none] using hkind)

theorem marked_stepQuoted (h : d.Marked .quoted count) (hkind : d.kind.isSome) (start : Nat) :
    (d.stepQuoted start c).Marked (Quotation.quoted.next c)
      (count + Quotation.quoted.slash c) := by
  unfold stepQuoted
  split
  · rename_i hc
    subst hc
    exact Marked.of_kind hkind rfl h.count
  · rename_i hquote
    split
    · trivial
    · rename_i hc
      have hnext : Quotation.quoted.next c = .quoted := if_neg hquote
      rw [hnext]
      exact Marked.of_kind hkind rfl ((count_push hc).trans h.count)

theorem marked_strengthen (h : d.Marked .outside count) : d.strengthen.Marked .outside count := by
  unfold strengthen
  split
  · exact Marked.of_kind rfl h.quotation h.count
  · exact Marked.of_kind rfl rfl h.count

/-- A character leads a draft to the quotation that it leads a text to, and adds a mark if it is a
slash outside of quotes and escapes. -/
theorem marked_step (h : d.Marked q count) :
    (d.step first offset c).Marked (q.next c) (count + q.slash c) := by
  obtain rfl := h.quotation
  cases hmode : d.mode with
  | plain =>
    rw [hmode] at h
    simp only [step, hmode]
    exact marked_stepPlain h
  | angled =>
    rw [hmode] at h
    simp only [step, hmode]
    split
    · exact Step.Marked.bare (marked_strengthen h) (by rw [‹c = '<'›]; decide)
    · exact marked_stepPlain h
  | escaped start =>
    have hkind := h.kind_isSome hmode (by simp)
    simp only [step, hmode]
    split
    · trivial
    · exact Marked.of_kind hkind rfl h.count
  | opened start =>
    have hkind := h.kind_isSome hmode (by simp)
    rw [hmode] at h
    simp only [step, hmode]
    split
    · rename_i hc
      subst hc
      exact Marked.of_kind hkind rfl ((count_push (by decide)).trans h.count)
    · exact marked_stepQuoted h hkind start
  | quoted start =>
    have hkind := h.kind_isSome hmode (by simp)
    rw [hmode] at h
    simp only [step, hmode]
    exact marked_stepQuoted h hkind start
  | closed start =>
    have hkind := h.kind_isSome hmode (by simp)
    rw [hmode] at h
    simp only [step, hmode]
    split
    · rename_i hc
      subst hc
      exact Marked.of_kind hkind rfl ((count_push (by decide)).trans h.count)
    · exact marked_stepPlain h

end

/-- No expansion mark is taken. -/
theorem Takes.expansionMark_notMem {first : Bool} {d last : Draft} {offset : Nat}
    {text : List Char} (h : Takes first d offset text last) : expansionMark ∉ text := by
  induction h with
  | nil => exact List.not_mem_nil
  | cons step _ ih =>
    refine List.not_mem_cons_of_ne_of_not_mem ?_ ih
    rintro rfl
    rw [step_expansionMark] at step
    cases step

theorem marked_ofOperator (c : Char) : (ofOperator c).Marked .outside 0 := by
  have hmode (hnone : operator? c = none) : (ofOperator c).mode = .plain := by
    refine if_neg ?_
    rintro rfl
    cases hnone
  refine ⟨?_, fun hnone => ⟨hmode hnone, rfl⟩, rfl⟩
  unfold ofOperator
  split <;> rfl

theorem Step.Marked.unplaced {step : Step} {q : Quotation} {count : Nat}
    (h : step.Marked q count) : step.unplaced.Marked q count := by
  cases step with
  | take d =>
    obtain ⟨kind, start, mode, depth, text⟩ := d
    refine ⟨h.quotation ▸ ?_, fun hnone => ?_, h.count⟩
    · cases mode <;> rfl
    · obtain ⟨rfl, htext⟩ := h.fresh hnone
      exact ⟨rfl, htext⟩
  | stop last => exact h
  | fail cause => trivial

theorem flatMap_lexeme? {d : Draft} (hfresh : d.kind = none → d.text = #[]) :
    d.lexeme?.toList.flatMap Lexeme.text = d.text.toList := by
  unfold lexeme?
  cases hkind : d.kind with
  | none => simp [hfresh hkind]
  | some kind => simp

end Draft

/-! ### Marks in passes -/

namespace Pass

/-- A pass after a text that ends in some quotation and has some number of slashes. -/
def Marked (p : Pass) (q : Quotation) (count : Nat) : Prop :=
  ∃ own, p.draft.Marked q own ∧ (p.found.flatMap Lexeme.text).count expansionMark + own = count

variable {p : Pass} {q : Quotation} {count : Nat} {c : Char}

theorem Marked.step (h : p.Marked q count) (hok : (p.step c).fault = none) :
    (p.step c).Marked (q.next c) (count + q.slash c) := by
  obtain ⟨own, hdraft, rfl⟩ := h
  obtain ⟨first, found, draft, fault⟩ := p
  have hstep : (draft.step first 0 c).unplaced.Marked (q.next c) (own + q.slash c) :=
    (Draft.marked_step hdraft).unplaced
  cases fault with
  | some cause => cases hok
  | none =>
    simp only [Pass.step] at hok ⊢
    cases heq : (draft.step first 0 c).unplaced with
    | fail cause =>
      rw [heq] at hok
      cases hok
    | take next =>
      rw [heq] at hstep
      exact ⟨own + q.slash c, hstep, (Nat.add_assoc ..).symm⟩
    | stop last =>
      -- The operator that ends a token begins the next one, and that has no text yet.
      rw [heq] at hstep
      obtain ⟨hnext, hkind, hcount⟩ := hstep
      have htext : last.lexeme?.toList.flatMap Lexeme.text = last.text.toList :=
        Draft.flatMap_lexeme? fun hnone => by simp [hnone] at hkind
      refine ⟨0, hnext ▸ Draft.marked_ofOperator c, ?_⟩
      rw [List.flatMap_append, List.count_append, htext, hcount, Nat.add_zero, Nat.add_assoc]

theorem Marked.read (h : p.Marked q count) {text : List Char} (hok : (p.read text).fault = none) :
    ∃ q', (p.read text).Marked q' (count + q.slashes text) := by
  induction text generalizing p q count with
  | nil => exact ⟨q, h⟩
  | cons c text ih =>
    rw [read_cons] at hok ⊢
    have hstep : (p.step c).fault = none := by
      cases hfault : (p.step c).fault with
      | none => rfl
      | some cause => rw [← hok, read_of_fault hfault, hfault]
    obtain ⟨q', hread⟩ := ih (h.step hstep) hok
    exact ⟨q', by rwa [Quotation.slashes, ← Nat.add_assoc]⟩

theorem outcome_eq_none {found : List Lexeme} (h : p.outcome = (found, none)) :
    p.fault = none ∧ found = p.found ++ p.draft.lexeme?.toList := by
  unfold outcome at h
  split at h
  · cases h
  · rename_i hfault
    exact ⟨(Option.or_eq_none_iff.1 hfault).1, (congrArg Prod.fst h).symm⟩

theorem Marked.count_found (h : p.Marked q count) :
    ((p.found ++ p.draft.lexeme?.toList).flatMap Lexeme.text).count expansionMark = count := by
  obtain ⟨own, hdraft, rfl⟩ := h
  rw [List.flatMap_append, List.count_append,
    Draft.flatMap_lexeme? fun hnone => (hdraft.fresh hnone).2, hdraft.count]

end Pass

/-- The tokens of a rule string without an error have as many marks as it has slashes outside of
quotes and escapes. -/
theorem count_of_reading {source : List Char} {found : List Lexeme}
    (h : reading source = (found, none)) :
    (found.flatMap Lexeme.text).count expansionMark = slashes source := by
  rw [← outcome_source] at h
  obtain ⟨hok, rfl⟩ := Pass.outcome_eq_none h
  have hstart : ({} : Pass).Marked .outside 0 := ⟨0, ⟨rfl, fun _ => ⟨rfl, rfl⟩, rfl⟩, rfl⟩
  obtain ⟨q, hread⟩ := hstart.read hok
  rw [hread.count_found, Nat.zero_add, slashes]

/-! ### Marks in tokens -/

theorem IsPiece.count_eq {piece : List Char} {token : Token} (h : IsPiece piece token) :
    token.text.count expansionMark = slashes piece := by
  rw [← count_of_reading h.read, List.flatMap_append, List.count_append]
  have himplied : ((if token.kind.isRelation then
      [(⟨.reset, Draft.implicitReset⟩ : Lexeme)] else []).flatMap Lexeme.text).count
        expansionMark = 0 := by
    split
    · simp [Draft.count_implicitReset]
    · rfl
  rw [himplied, Nat.zero_add]
  simp [Token.lexeme]

theorem text_of_implied {rules : List Char} {front : List Token}
    (h : front.map Token.lexeme = impliedReset rules) :
    ∀ token ∈ front, token.text = Draft.implicitReset := by
  intro token htoken
  have hlexeme := List.mem_map_of_mem (f := Token.lexeme) htoken
  rw [h] at hlexeme
  rcases impliedReset_cases rules with hnone | ⟨hsome, -⟩
  · rw [hnone] at hlexeme
    cases hlexeme
  · rw [hsome, List.mem_singleton] at hlexeme
    exact congrArg Lexeme.text hlexeme

/-- Each token has a part of the rule string, and its text has a mark for each slash of that part
that is neither quoted nor escaped. -/
theorem exists_parts_count (source : List Char) :
    ∃ lead parts rest, source = lead ++ parts.flatten ++ rest ∧
      (tokens source).map Token.span = Span.consecutive (byteLength lead) parts ∧
      List.Forall₂ (fun token part => token.text.count expansionMark = slashes part)
        (tokens source) parts := by
  obtain ⟨implied, pieces, rest, hdivision⟩ := exists_division source
  obtain ⟨front, htokens, hfront⟩ := exists_impliedTokens source
  refine ⟨source.takeWhile isSkipped, implied ++ pieces, rest, hdivision.whole, hdivision.spans, ?_⟩
  rw [htokens]
  refine List.rel_append ?_ ?_
  · have hlength : front.length = implied.length := by
      rw [hdivision.length, ← hfront, List.length_map]
    refine List.forall₂_iff_zip.2 ⟨hlength, fun {token part} hmem => ?_⟩
    obtain ⟨htoken, hpart⟩ := List.of_mem_zip hmem
    rw [text_of_implied hfront token htoken, Draft.count_implicitReset,
      slashes_of_passed (hdivision.passed part hpart)]
  · exact hdivision.written.flip.imp fun _ _ h => h.count_eq

namespace Scanner

/-- No call takes an expansion mark. -/
theorem exists_unmarked_after (source : List Char) (count : Nat) :
    ∃ front, source = front ++ (after source count).rest ∧
      (after source count).offset = byteLength front ∧ expansionMark ∉ front := by
  induction count with
  | zero => exact ⟨[], rfl, rfl, List.not_mem_nil⟩
  | succ count ih =>
    obtain ⟨front, hfront, hoffset, hunmarked⟩ := ih
    obtain ⟨taken, last, hrest, hnext, htakes⟩ := (after source count).exists_taken
    refine ⟨front ++ taken, ?_, ?_, ?_⟩
    · exact hfront.trans (by rw [hrest, List.append_assoc]; rfl)
    · rw [after, hnext, hoffset, Text.byteLength_append]
    · rw [List.mem_append, not_or]
      exact ⟨hunmarked, htakes.expansionMark_notMem⟩

/-- An error in front of an expansion mark is there or before it: nothing can be left open at the
end. -/
theorem next_isAt_of_mem {s : Scanner} {front : List Char} (hsource : s.source = front ++ s.rest)
    (hoffset : s.offset = byteLength front) (hfront : expansionMark ∉ front)
    (hrest : expansionMark ∈ s.rest) {e : SyntaxError} (h : s.next.1 = .error e) :
    ∃ before after, e.IsAt s.source before after ∧ expansionMark ∉ before ∧
      (e.cause.character = expansionMark → e.cause = .reservedCodePoint) := by
  obtain ⟨cause, place, hfound, rfl⟩ := exists_found_of_error h
  obtain ⟨taken, rest, last, hinput, htakes, hends⟩ :=
    Draft.scan_cases s.first {} s.offset s.rest
  have hunmarked : expansionMark ∉ front ++ taken :=
    List.not_mem_append hfront htakes.expansionMark_notMem
  generalize ({} : Draft).scan s.first s.offset s.rest = scan at hfound hends
  cases hends with
  | finished => cases hfound
  | stopped => cases hfound
  | unfinished =>
    rw [hinput, List.append_nil] at hrest
    exact absurd hrest htakes.expansionMark_notMem
  | @failed cause' c rest fail =>
    cases hfound
    have houtcome := last.outcome_step s.first (s.offset + byteLength taken) c
    rw [fail] at houtcome
    cases houtcome with
    | failed character =>
      refine ⟨front ++ taken, rest, ?_, hunmarked, fun hmark => ?_⟩
      · rw [hsource, hinput, hoffset, ← Text.byteLength_append, ← List.append_assoc, ← character]
        exact SyntaxError.isAt_locate cause (front ++ taken) rest
      · obtain rfl : c = expansionMark := character.symm.trans hmark
        rw [Draft.step_expansionMark] at fail
        cases fail
        rfl

end Scanner

/-- A rule string with an expansion mark has an error that is at the first of them, or before it. -/
theorem syntaxError?_of_mem {source : List Char} (h : expansionMark ∈ source) :
    ∃ e before after, syntaxError? source = some e ∧ e.IsAt source before after ∧
      expansionMark ∉ before ∧
      (e.cause.character = expansionMark → e.cause = .reservedCodePoint) := by
  have hleft (count : Nat) : expansionMark ∈ (Scanner.after source count).rest := by
    obtain ⟨front, hfront, -, hunmarked⟩ := Scanner.exists_unmarked_after source count
    rw [hfront, List.mem_append] at h
    exact h.resolve_left hunmarked
  rcases Scanner.next_after_tokens source with ⟨e, herror, hnext⟩ | ⟨token, -, hf, hnext⟩
  · obtain ⟨front, hfront, hoffset, hunmarked⟩ :=
      Scanner.exists_unmarked_after source (tokens source).length
    have hsource := (Scanner.standsIn_after source (tokens source).length).whole
    obtain ⟨before, after, hat, hbefore, hcause⟩ := Scanner.next_isAt_of_mem
      (hsource.trans hfront) hoffset hunmarked (hleft _) hnext
    exact ⟨e, before, after, herror, hsource ▸ hat, hbefore, hcause⟩
  · have hend : (Scanner.after source ((tokens source).length + 1)).rest = [] :=
      (Scanner.halted_of_finish hnext hf).1
    exact absurd (hleft ((tokens source).length + 1)) (by rw [hend]; exact List.not_mem_nil)

end CollationRules
