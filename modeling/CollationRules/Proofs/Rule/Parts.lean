import CollationRules.Rule.Run
import Mathlib.Data.List.TakeWhile

/-! The parts of an operand, from where its marks stand in the whole of it. -/

namespace CollationRules

/-- The parts of an operand. What follows the first expansion mark is the extension, in which
further marks are left out. Where the operand has more than one character, what comes before the
first context mark is the context. -/
def Operand.split (text : List Char) : Operand :=
  let before := text.takeWhile (· != expansionMark)
  let after := (text.dropWhile (· != expansionMark)).drop 1
  let extension := if expansionMark ∈ text then some (after.filter (· != expansionMark)) else none
  if contextMark ∈ before ∧ 1 < text.length then
    ⟨some (before.takeWhile (· != contextMark)), (before.dropWhile (· != contextMark)).drop 1,
      extension⟩
  else ⟨none, before, extension⟩

theorem dropWhile_eq_nil_iff {mark : Char} {text : List Char} :
    text.dropWhile (· != mark) = [] ↔ mark ∉ text := by
  rw [List.dropWhile_eq_nil_iff]
  constructor
  · intro h hmem
    simpa using h mark hmem
  · intro h c hc
    exact bne_iff_ne.2 fun heq => h (heq ▸ hc)

theorem splitAtMark?_eq (mark : Char) (text : List Char) :
    splitAtMark? mark text =
      if mark ∈ text then
        some (text.takeWhile (· != mark), (text.dropWhile (· != mark)).drop 1)
      else none := by
  unfold splitAtMark?
  split
  · rename_i hdrop
    rw [if_neg (dropWhile_eq_nil_iff.1 hdrop)]
  · rename_i c rest hdrop
    have hmem : mark ∈ text := by
      by_contra hmem
      rw [dropWhile_eq_nil_iff.2 hmem] at hdrop
      cases hdrop
    rw [if_pos hmem, hdrop]
    rfl

theorem takeWhile_of_not_mem {mark : Char} {text : List Char} (h : mark ∉ text) :
    text.takeWhile (· != mark) = text := by
  rw [List.takeWhile_eq_self_iff]
  intro c hc
  exact bne_iff_ne.2 fun heq => h (heq ▸ hc)

theorem isContraction_iff (text : List Char) : isContraction text ↔ 1 < text.length := by
  unfold isContraction
  split
  · simp
  · rename_i hshort
    match text with
    | [] | [_] => simp
    | c :: d :: rest => exact absurd rfl (hshort c d rest)

theorem Operand.ofText_eq (text : List Char) : ofText text = split text := by
  have hbefore (h : expansionMark ∉ text) : text.takeWhile (· != expansionMark) = text :=
    takeWhile_of_not_mem h
  unfold ofText split
  simp only [splitAtMark?_eq, ← isContraction_iff]
  by_cases hmark : expansionMark ∈ text
  · simp only [if_pos hmark]
    split_ifs <;> simp_all
  · simp only [if_neg hmark, hbefore hmark]
    split_ifs <;> simp_all

theorem Operand.split_of_not_mem {text : List Char} (hexpansion : expansionMark ∉ text)
    (hcontext : contextMark ∉ text) : split text = ⟨none, text, none⟩ := by
  have hbefore : text.takeWhile (· != expansionMark) = text := takeWhile_of_not_mem hexpansion
  simp [split, hbefore, hexpansion, hcontext]

end CollationRules
