import CollationRules.Rule.Reset
import Mathlib.Data.List.Infix

/-! The bracket group that a text begins with. A group ends with the bracket that closes it, not
with one that closes a group inside of it, so that the text in the group has balanced brackets. A
reset is literal exactly if it does not begin with a group. -/

namespace CollationRules

/-- Whether the brackets in a text are balanced: none is closed before it is opened, and all are
closed. -/
structure IsBalanced (text : List Char) : Prop where
  closed : ∀ before, before <+: text → before.count ']' ≤ before.count '['
  equal : text.count '[' = text.count ']'

/-- Whether `depth` brackets and those that a text opens are closed in the text, none too early. -/
structure ClosesAll (depth : Nat) (text : List Char) : Prop where
  closed : ∀ before, before <+: text → before.count ']' ≤ depth + before.count '['
  equal : text.count ']' = depth + text.count '['

theorem closesAll_zero_iff {text : List Char} : ClosesAll 0 text ↔ IsBalanced text := by
  constructor
  · rintro ⟨hclosed, hequal⟩
    exact ⟨by simpa using hclosed, by simpa using hequal.symm⟩
  · rintro ⟨hclosed, hequal⟩
    exact ⟨by simpa using hclosed, by simpa using hequal.symm⟩

theorem closesAll_nil_iff {depth : Nat} : ClosesAll depth [] ↔ depth = 0 := by
  constructor
  · rintro ⟨-, hequal⟩
    simpa using hequal.symm
  · rintro rfl
    exact closesAll_zero_iff.2 ⟨by simp, rfl⟩

/-- The number of brackets that are open after a character. -/
def depthAfter (depth : Nat) (c : Char) : Nat :=
  if c = '[' then depth + 1 else if c = ']' then depth - 1 else depth

theorem depthAfter_add_count {depth : Nat} {c : Char} (h : ¬(c = ']' ∧ depth = 0))
    (text : List Char) :
    depthAfter depth c + text.count '[' + (c :: text).count ']' =
      depth + (c :: text).count '[' + text.count ']' := by
  unfold depthAfter
  simp only [List.count_cons, beq_iff_eq]
  split_ifs with hopen hclose
  · rw [hopen] at hclose
    cases hclose
  · omega
  · have : depth ≠ 0 := fun hzero => h ⟨by assumption, hzero⟩
    omega
  · omega

theorem closesAll_cons_iff {depth : Nat} {c : Char} {text : List Char} :
    ClosesAll depth (c :: text) ↔
      ¬(c = ']' ∧ depth = 0) ∧ ClosesAll (depthAfter depth c) text := by
  constructor
  · rintro ⟨hclosed, hequal⟩
    have hopen : ¬(c = ']' ∧ depth = 0) := by
      rintro ⟨rfl, rfl⟩
      have := hclosed [']'] (by simp)
      simp at this
    refine ⟨hopen, fun before hbefore => ?_, ?_⟩
    · have hle := hclosed (c :: before) (by simpa using hbefore)
      have := depthAfter_add_count hopen before
      omega
    · have := depthAfter_add_count hopen text
      omega
  · rintro ⟨hopen, hclosed, hequal⟩
    refine ⟨fun before hbefore => ?_, ?_⟩
    · cases before with
      | nil => simp
      | cons d before =>
        obtain ⟨rfl, hfront⟩ := List.cons_prefix_cons.1 hbefore
        have hle := hclosed before hfront
        have := depthAfter_add_count hopen before
        omega
    · have := depthAfter_add_count hopen text
      omega

theorem closeGroup?_cons (depth : Nat) (c : Char) (rest : List Char) :
    closeGroup? depth (c :: rest) =
      if c = ']' ∧ depth = 0 then some ([], rest)
      else (closeGroup? (depthAfter depth c) rest).map fun (payload, tail) =>
        (c :: payload, tail) := by
  simp [closeGroup?, depthAfter]

theorem closeGroup?_eq_some_iff {depth : Nat} {text payload tail : List Char} :
    closeGroup? depth text = some (payload, tail) ↔
      text = payload ++ ']' :: tail ∧ ClosesAll depth payload := by
  induction text generalizing depth payload with
  | nil => simp [closeGroup?]
  | cons c rest ih =>
    rw [closeGroup?_cons]
    by_cases hend : c = ']' ∧ depth = 0
    · obtain ⟨rfl, rfl⟩ := hend
      rw [if_pos ⟨rfl, rfl⟩]
      cases payload with
      | nil => simp [closesAll_nil_iff]
      | cons d payload =>
        refine ⟨nofun, ?_⟩
        rintro ⟨htext, hcloses⟩
        obtain ⟨rfl, -⟩ := List.cons.inj htext
        exact absurd ⟨rfl, rfl⟩ (closesAll_cons_iff.1 hcloses).1
    · rw [if_neg hend]
      cases payload with
      | nil =>
        simp only [Option.map_eq_some_iff, Prod.mk.injEq, reduceCtorEq, false_and, and_false,
          exists_false, false_iff, not_and]
        rintro htext hcloses
        obtain ⟨rfl, -⟩ := List.cons.inj htext
        exact hend ⟨rfl, closesAll_nil_iff.1 hcloses⟩
      | cons d payload =>
        have hmap : (closeGroup? (depthAfter depth c) rest).map
            (fun (payload, tail) => (c :: payload, tail)) = some (d :: payload, tail) ↔
            c = d ∧ closeGroup? (depthAfter depth c) rest = some (payload, tail) := by
          cases closeGroup? (depthAfter depth c) rest <;> simp [Prod.ext_iff, and_assoc]
        rw [hmap, ih, closesAll_cons_iff]
        constructor
        · rintro ⟨rfl, rfl, hcloses⟩
          exact ⟨rfl, hend, hcloses⟩
        · rintro ⟨htext, -, hcloses⟩
          obtain ⟨rfl, rfl⟩ := List.cons.inj htext
          exact ⟨rfl, rfl, hcloses⟩

theorem leadingGroup?_eq_some_iff {text payload tail : List Char} :
    leadingGroup? text = some (payload, tail) ↔
      text = '[' :: payload ++ ']' :: tail ∧ IsBalanced payload := by
  unfold leadingGroup?
  split
  · rw [closeGroup?_eq_some_iff, closesAll_zero_iff]
    simp
  · rename_i hbracket
    refine ⟨nofun, ?_⟩
    rintro ⟨rfl, -⟩
    exact absurd rfl (hbracket _)

/-- A group ends where it is closed, and not where the one inside of it is. -/
example : leadingGroup? "[a[b]c]d]".toList = some ("a[b]c".toList, "d]".toList) := by decide

/-! ### Resets that are literal -/

/-- Whether a text begins with a bracket group. -/
def BeginsWithGroup (text : List Char) : Prop :=
  ∃ payload tail, IsBalanced payload ∧ text = '[' :: payload ++ ']' :: tail

theorem leadingGroup?_eq_none_iff {text : List Char} :
    leadingGroup? text = none ↔ ¬BeginsWithGroup text := by
  rw [Option.eq_none_iff_forall_ne_some]
  constructor
  · rintro hnone ⟨payload, tail, hbalanced, htext⟩
    exact hnone (payload, tail) (leadingGroup?_eq_some_iff.2 ⟨htext, hbalanced⟩)
  · rintro hnot ⟨payload, tail⟩ hsome
    obtain ⟨htext, hbalanced⟩ := leadingGroup?_eq_some_iff.1 hsome
    exact hnot ⟨payload, tail, hbalanced, htext⟩

theorem Reset.ofText_eq_ok_iff {text : List Char} {reset : Reset} :
    ofText text = .ok reset ↔
      ∃ rest, splitBefore text = .ok (reset.before, rest) ∧
        positionOf rest = .ok reset.position := by
  obtain ⟨before, position⟩ := reset
  unfold ofText
  cases splitBefore text with
  | error cause => simp [bind, Except.bind]
  | ok found =>
    obtain ⟨level, rest⟩ := found
    change ((positionOf rest).map fun place => (⟨level, place⟩ : Reset)) = _ ↔ _
    constructor
    · intro h
      cases hposition : positionOf rest with
      | error cause => rw [hposition] at h; cases h
      | ok place =>
        rw [hposition] at h
        cases h
        exact ⟨rest, rfl, hposition⟩
    · rintro ⟨rest', hfound, hposition⟩
      cases hfound
      rw [hposition]
      rfl

theorem Reset.ofText_of_not_beginsWithGroup {text : List Char} (h : ¬BeginsWithGroup text) :
    ofText text = .ok ⟨none, .literal text⟩ := by
  have hnone := leadingGroup?_eq_none_iff.2 h
  refine ofText_eq_ok_iff.2 ⟨text, ?_, ?_⟩
  · rw [splitBefore, hnone]
  · rw [positionOf, hnone]

theorem Reset.splitBefore_eq_none {text rest : List Char}
    (h : splitBefore text = .ok (none, rest)) : rest = text := by
  unfold splitBefore at h
  split at h
  · cases h
    rfl
  · split at h
    · cases h
      rfl
    · rename_i word others _
      split at h
      · cases hlevel : beforeLevel others <;> rw [hlevel] at h <;> cases h
      · cases h
        rfl

/-- A group at the beginning is the level that a reset is before, or the anchor that it is at. -/
theorem Reset.isSome_or_anchor {text : List Char} (h : BeginsWithGroup text) {reset : Reset}
    (hreset : ofText text = .ok reset) :
    reset.before.isSome ∨ ∃ place, reset.position = .anchor place := by
  obtain ⟨rest, hbefore, hposition⟩ := ofText_eq_ok_iff.1 hreset
  cases hlevel : reset.before with
  | some level => exact .inl rfl
  | none =>
    rw [hlevel] at hbefore
    rw [splitBefore_eq_none hbefore] at hposition
    obtain ⟨payload, tail, hbalanced, htext⟩ := h
    rw [positionOf, leadingGroup?_eq_some_iff.2 ⟨htext, hbalanced⟩] at hposition
    simp only at hposition
    split at hposition
    · cases hposition
    · rename_i place _
      split at hposition
      · exact .inr ⟨place, (Except.ok.inj hposition).symm⟩
      · cases hposition

end CollationRules
