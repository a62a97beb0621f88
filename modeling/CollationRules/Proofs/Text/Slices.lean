import CollationRules.Text.Utf8

/-! Slices of a text by byte offsets. A slice is there only between offsets that do not divide a
character, the first of them no greater than the second. -/

namespace CollationRules.Text

/-- That a byte offset lies between two characters of a text or at one of its ends. -/
def IsBoundary (offset : Nat) (text : List Char) : Prop :=
  ∃ before after, before ++ after = text ∧ byteLength before = offset

theorem isSome_cutExactly?_iff {offset : Nat} {text : List Char} :
    (cutExactly? offset text).isSome ↔ IsBoundary offset text := by
  simp only [Option.isSome_iff_exists, Prod.exists, cutExactly?_eq_some, IsBoundary]

instance (offset : Nat) (text : List Char) : Decidable (IsBoundary offset text) :=
  decidable_of_iff _ isSome_cutExactly?_iff

theorem IsBoundary.le {offset : Nat} {text : List Char} (h : IsBoundary offset text) :
    offset ≤ byteLength text := by
  obtain ⟨before, after, rfl, rfl⟩ := h
  rw [byteLength_append]
  exact Nat.le_add_right ..

theorem length_le_byteLength (text : List Char) : text.length ≤ byteLength text := by
  induction text with
  | nil => exact Nat.le_refl _
  | cons c rest ih =>
    have hpos := c.utf8Size_pos
    rw [List.length_cons, byteLength_cons]
    omega

/-- Two boundaries divide a text in three. -/
theorem IsBoundary.exists_between {start stop : Nat} {text : List Char}
    (hstart : IsBoundary start text) (hstop : IsBoundary stop text) (hle : start ≤ stop) :
    ∃ before slice after, before ++ slice ++ after = text ∧ byteLength before = start ∧
      byteLength (before ++ slice) = stop := by
  obtain ⟨before, rest, htext, rfl⟩ := hstart
  obtain ⟨upTo, after, rfl, rfl⟩ := hstop
  rcases List.append_eq_append_iff.1 htext with ⟨slice, rfl, -⟩ | ⟨more, rfl, -⟩
  · exact ⟨before, slice, after, rfl, rfl, rfl⟩
  · -- each offset is at most the other, so nothing is between them
    have hmore := length_le_byteLength more
    rw [byteLength_append] at hle
    obtain rfl := List.length_eq_zero_iff.1 (show more.length = 0 by omega)
    exact ⟨upTo, [], after, by simp, by simp, by simp⟩

/-- The slice of a text between two byte offsets, if it is there. -/
def slice? (start stop : Nat) (text : List Char) : Option (List Char) := do
  let (upTo, _) ← cutExactly? stop text
  let (_, slice) ← cutExactly? start upTo
  return slice

theorem slice?_eq_some {start stop : Nat} {text slice : List Char} :
    slice? start stop text = some slice ↔ ∃ before after, before ++ slice ++ after = text ∧
      byteLength before = start ∧ byteLength (before ++ slice) = stop := by
  simp only [slice?, Option.bind_eq_bind, Option.bind_eq_some_iff, Prod.exists,
    cutExactly?_eq_some, Option.pure_def, Option.some.injEq]
  constructor
  · rintro ⟨upTo, after, ⟨rfl, rfl⟩, before, slice, ⟨rfl, rfl⟩, rfl⟩
    exact ⟨before, after, rfl, rfl, rfl⟩
  · rintro ⟨before, after, rfl, rfl, rfl⟩
    exact ⟨before ++ slice, after, ⟨rfl, rfl⟩, before, slice, ⟨rfl, rfl⟩, rfl⟩

/-- The byte offset of the first place where a text has a character. -/
def firstOffset? (c : Char) : List Char → Option Nat
  | [] => none
  | d :: rest => if d = c then some 0 else (firstOffset? c rest).map (d.utf8Size + ·)

/-- The byte offset of the last place where a text has a character. -/
def lastOffset? (c : Char) : List Char → Option Nat
  | [] => none
  | d :: rest =>
    match lastOffset? c rest with
    | some offset => some (d.utf8Size + offset)
    | none => if d = c then some 0 else none

section

variable {c : Char} {text : List Char}

theorem firstOffset?_eq_none (h : c ∉ text) : firstOffset? c text = none := by
  induction text with
  | nil => rfl
  | cons d rest ih =>
    rw [List.mem_cons, not_or] at h
    rw [firstOffset?, if_neg (Ne.symm h.1), ih h.2, Option.map_none]

theorem firstOffset?_append (h : c ∉ text) (after : List Char) :
    firstOffset? c (text ++ c :: after) = some (byteLength text) := by
  induction text with
  | nil => exact if_pos rfl
  | cons d rest ih =>
    rw [List.mem_cons, not_or] at h
    rw [List.cons_append, firstOffset?, if_neg (Ne.symm h.1), ih h.2, Option.map_some,
      byteLength_cons]

theorem lastOffset?_eq_none (h : c ∉ text) : lastOffset? c text = none := by
  induction text with
  | nil => rfl
  | cons d rest ih =>
    rw [List.mem_cons, not_or] at h
    simp only [lastOffset?, ih h.2, if_neg (Ne.symm h.1)]

theorem lastOffset?_append (before : List Char) (h : c ∉ text) :
    lastOffset? c (before ++ c :: text) = some (byteLength before) := by
  induction before with
  | nil => simp only [List.nil_append, lastOffset?, lastOffset?_eq_none h, if_pos, byteLength_nil]
  | cons d rest ih => simp only [List.cons_append, lastOffset?, ih, byteLength_cons]

end

end CollationRules.Text
