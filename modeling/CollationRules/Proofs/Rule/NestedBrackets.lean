import CollationRules.Proofs.Rule.LeadingGroup

/-! Brackets that are nested. The texts in which brackets are balanced, as they are counted, are
those of a grammar, and the text in a leading group is one of them. -/

namespace CollationRules

/-- The texts in which brackets are nested. -/
inductive IsNested : List Char → Prop
  | nil : IsNested []
  | char {c : Char} {rest : List Char} (hopen : c ≠ '[') (hclose : c ≠ ']')
      (hrest : IsNested rest) : IsNested (c :: rest)
  | group {inner rest : List Char} (hinner : IsNested inner) (hrest : IsNested rest) :
      IsNested ('[' :: inner ++ ']' :: rest)

theorem depthAfter_succ {depth : Nat} {c : Char} (h : ¬(c = ']' ∧ depth = 0)) :
    depthAfter (depth + 1) c = depthAfter depth c + 1 := by
  unfold depthAfter
  split_ifs with hopen hclose
  · rfl
  · have : depth ≠ 0 := fun hzero => h ⟨hclose, hzero⟩
    omega
  · rfl

/-- Of several brackets that a text closes, the first is closed by a bracket of its own. -/
theorem closesAll_succ_iff {depth : Nat} {text : List Char} :
    ClosesAll (depth + 1) text ↔
      ∃ inner rest, text = inner ++ ']' :: rest ∧ ClosesAll depth inner ∧ ClosesAll 0 rest := by
  induction text generalizing depth with
  | nil => simp [closesAll_nil_iff]
  | cons c text ih =>
    by_cases hend : c = ']' ∧ depth = 0
    · obtain ⟨rfl, rfl⟩ := hend
      have hdepth : depthAfter 1 ']' = 0 := rfl
      rw [closesAll_cons_iff, hdepth]
      constructor
      · rintro ⟨-, hrest⟩
        exact ⟨[], text, rfl, closesAll_nil_iff.2 rfl, hrest⟩
      · rintro ⟨inner, rest, htext, hinner, hrest⟩
        cases inner with
        | nil =>
          obtain ⟨-, rfl⟩ := List.cons.inj htext
          exact ⟨by simp, hrest⟩
        | cons d inner =>
          obtain ⟨rfl, -⟩ := List.cons.inj htext
          exact absurd ⟨rfl, rfl⟩ (closesAll_cons_iff.1 hinner).1
    · have hopen : ¬(c = ']' ∧ depth + 1 = 0) := by simp
      rw [closesAll_cons_iff, and_iff_right hopen, depthAfter_succ hend, ih]
      constructor
      · rintro ⟨inner, rest, rfl, hinner, hrest⟩
        exact ⟨c :: inner, rest, rfl, closesAll_cons_iff.2 ⟨hend, hinner⟩, hrest⟩
      · rintro ⟨inner, rest, htext, hinner, hrest⟩
        cases inner with
        | nil =>
          obtain ⟨rfl, -⟩ := List.cons.inj htext
          exact absurd ⟨rfl, closesAll_nil_iff.1 hinner⟩ hend
        | cons d inner =>
          obtain ⟨rfl, rfl⟩ := List.cons.inj htext
          exact ⟨inner, rest, rfl, (closesAll_cons_iff.1 hinner).2, hrest⟩

theorem closesAll_zero_cons_iff {c : Char} {text : List Char} (hopen : c ≠ '[') (hclose : c ≠ ']') :
    ClosesAll 0 (c :: text) ↔ ClosesAll 0 text := by
  simp [closesAll_cons_iff, depthAfter, hopen, hclose]

theorem closesAll_zero_open_iff {text : List Char} :
    ClosesAll 0 ('[' :: text) ↔
      ∃ inner rest, text = inner ++ ']' :: rest ∧ ClosesAll 0 inner ∧ ClosesAll 0 rest := by
  rw [closesAll_cons_iff, ← closesAll_succ_iff]
  simp [depthAfter]

theorem IsNested.closesAll {text : List Char} (h : IsNested text) : ClosesAll 0 text := by
  induction h with
  | nil => exact closesAll_nil_iff.2 rfl
  | char hopen hclose _ ih => exact (closesAll_zero_cons_iff hopen hclose).2 ih
  | group _ _ ihInner ihRest => exact closesAll_zero_open_iff.2 ⟨_, _, rfl, ihInner, ihRest⟩

theorem ClosesAll.isNested {text : List Char} (h : ClosesAll 0 text) : IsNested text := by
  match text with
  | [] => exact .nil
  | c :: text =>
    by_cases hopen : c = '['
    · subst hopen
      obtain ⟨inner, rest, htext, hinner, hrest⟩ := closesAll_zero_open_iff.1 h
      have hlength := congrArg List.length htext
      rw [htext]
      exact .group hinner.isNested hrest.isNested
    · have hclose : c ≠ ']' := fun hclose => (closesAll_cons_iff.1 h).1 ⟨hclose, rfl⟩
      exact .char hopen hclose ((closesAll_zero_cons_iff hopen hclose).1 h).isNested
termination_by text.length
decreasing_by
  all_goals
    simp only [List.length_append, List.length_cons] at *
    omega

/-- Brackets are nested if they are balanced. -/
theorem isBalanced_iff_isNested {text : List Char} : IsBalanced text ↔ IsNested text := by
  rw [← closesAll_zero_iff]
  exact ⟨ClosesAll.isNested, IsNested.closesAll⟩

theorem leadingGroup?_of_isNested {payload : List Char} (h : IsNested payload) (rest : List Char) :
    leadingGroup? ('[' :: payload ++ ']' :: rest) = some (payload, rest) :=
  leadingGroup?_eq_some_iff.2 ⟨rfl, isBalanced_iff_isNested.2 h⟩

end CollationRules
