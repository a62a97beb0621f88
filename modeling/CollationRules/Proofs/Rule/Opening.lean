import CollationRules.Proofs.Rule.Insertion
import CollationRules.Proofs.Rule.Quoting

/-! How a rule string begins. Its first token is never a relation, as a reset is implied in front of
one that comes first. What is skipped and exclamation marks do not count as coming first, and
settings and overrides do. -/

namespace CollationRules

namespace Draft

/-- Where no token came before, no character begins a relation. -/
theorem step_first_take {d next : Draft} {offset : Nat} {c : Char}
    (h : d.step true offset c = .take next) {strength : Strength}
    (hnext : next.kind = some (.relation strength)) :
    d.kind = some (.relation strength) ∨ d.mode = .angled := by
  have houtcome := d.outcome_step true offset c
  rw [h] at houtcome
  cases houtcome with
  | skipped | exclamation | inside | quoted => exact .inl hnext
  | begun _ _ _ written =>
    cases hnext
    cases written rfl
  | aside _ _ sign =>
    cases hnext
    rcases sign with ⟨-, hkind⟩ | ⟨-, hkind⟩
    · cases hkind
    · cases hkind
  | strengthened angled => exact .inr angled

end Draft

namespace Pass

/-! ### The first token -/

/-- A pass in which no relation is the first token, nor will the token that is being read be one if
it is the first. -/
structure OpensAside (p : Pass) : Prop where
  head : ∀ lexeme ∈ p.found.head?, lexeme.kind.isRelation = false
  draft : p.found = [] → p.first = true ∧ ∀ strength, p.draft.kind ≠ some (.relation strength)

theorem OpensAside.step {p : Pass} (h : p.OpensAside) (hregular : p.IsRegular) (c : Char) :
    (p.step c).OpensAside := by
  obtain ⟨first, found, d, fault⟩ := p
  cases fault with
  | some cause => exact h
  | none =>
    simp only [Pass.step]
    cases hstep : d.step first 0 c with
    | take next =>
      refine ⟨h.head, fun hnil => ?_⟩
      obtain ⟨hfirst, hdraft⟩ := h.draft hnil
      refine ⟨hfirst, fun strength hnext => ?_⟩
      obtain rfl : first = true := hfirst
      rcases Draft.step_first_take hstep hnext with hkind | hmode
      · exact hdraft strength hkind
      · obtain ⟨⟨strength', hkind⟩, -⟩ := hregular.angled hmode
        exact hdraft strength' hkind
    | stop last =>
      obtain ⟨-, kind, hlast, hsame⟩ := Draft.step_stop hstep
      have hlexeme : last.unplaced.lexeme?.toList = [⟨kind, last.text.toList⟩] := by
        rw [Draft.lexeme?_unplaced, Draft.lexeme?, hlast]
        rfl
      simp only [Draft.Step.unplaced, hlexeme]
      refine ⟨?_, fun hnil => ?_⟩
      · cases found with
        | cons lexeme rest => exact h.head
        | nil =>
          intro lexeme hhead
          obtain rfl : (⟨kind, last.text.toList⟩ : Lexeme) = lexeme := Option.some.inj hhead
          obtain ⟨-, hdraft⟩ := h.draft rfl
          rcases hsame with hkind | rfl
          · cases kind with
            | relation strength => exact absurd hkind (hdraft strength)
            | _ => rfl
          · rfl
      · have hne : found ++ [⟨kind, last.text.toList⟩] = [] := hnil
        simp at hne
    | fail cause => exact ⟨h.head, h.draft⟩

theorem opensAside_read (text : List Char) : (({} : Pass).read text).OpensAside := by
  have hread (p : Pass) (h : p.OpensAside) (hregular : p.IsRegular) :
      (p.read text).OpensAside := by
    induction text generalizing p with
    | nil => exact h
    | cons c text ih => exact ih (p.step c) (h.step hregular c) (hregular.step c)
  exact hread {} ⟨nofun, fun _ => ⟨rfl, nofun⟩⟩ (isRegular_read [])

theorem step_passed {c : Char} (h : isSkipped c ∨ c = '!') : ({} : Pass).step c = {} := by
  rcases h with hskipped | rfl
  · exact step_skipped true [] #[] (.inl rfl) none hskipped
  · rfl

theorem read_passed {text : List Char} (h : ∀ c ∈ text, isSkipped c ∨ c = '!') :
    ({} : Pass).read text = {} := by
  induction text with
  | nil => rfl
  | cons c text ih =>
    rw [List.forall_mem_cons] at h
    rw [read_cons, step_passed h.1, ih h.2]

end Pass

/-- The first token of a rule string is not a relation. -/
theorem isRelation_head_lexemes (source : List Char) :
    ∀ lexeme ∈ (lexemes source).head?, lexeme.kind.isRelation = false := by
  have hopens := Pass.opensAside_read source
  have hlexemes : (({} : Pass).read source).outcome.1 = lexemes source := by
    rw [outcome_source]
    rfl
  rw [← hlexemes]
  generalize ({} : Pass).read source = p at hopens
  obtain ⟨first, found, ⟨kind, start, mode, depth, text⟩, fault⟩ := p
  unfold Pass.outcome
  split
  · exact hopens.head
  · cases found with
    | cons lexeme rest => exact hopens.head
    | nil =>
      intro lexeme hhead
      obtain ⟨-, hdraft⟩ := hopens.draft rfl
      cases kind with
      | none => cases hhead
      | some kind =>
        obtain rfl : (⟨kind, text.toList⟩ : Lexeme) = lexeme := Option.some.inj hhead
        cases kind with
        | relation strength => exact absurd rfl (hdraft strength)
        | _ => rfl

/-- What is skipped and exclamation marks in front of the first rule have no influence on it. -/
theorem lexemes_passed {front rules : List Char} (hfront : ∀ c ∈ front, isSkipped c ∨ c = '!')
    (hrules : Draft.AtOperator rules) :
    lexemes (front ++ rules) = impliedReset rules ++ (Pass.laterOutcome rules).1 := by
  have houtcome := outcome_source (front ++ rules)
  rw [Pass.read_append, Pass.read_passed hfront, outcome_read_rules hrules] at houtcome
  exact (congrArg Prod.fst houtcome).symm

end CollationRules
