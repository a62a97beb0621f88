import CollationRules.Text.Printable

/-! Spacing between pieces of markup: texts of ASCII blanks. A text can be too long to be held in
memory, so spacing is kept as one text and the number of times that it is written. -/

namespace CollationRules.Markup

/-- The size in bytes of the largest text that memory can be asked for. -/
def maxTextSize : Nat := 0x7FFFFFFFFFFFFFFF

/-- A text of ASCII blanks, which is `unit` written `count` times. -/
structure Spacing where
  unit : List Char := []
  count : Nat := 1
  blank : unit.all Text.isAsciiBlank = true := by rfl
deriving DecidableEq, Repr

/-- The words for a text that is no spacing. -/
def notSpacingMessage (text : List Char) : String :=
  s!"string contains non-ASCII-whitespace: `{String.ofList text}`"

namespace Spacing

/-- Spacing as a text. -/
def text (s : Spacing) : List Char := (List.replicate s.count s.unit).flatten

/-- A text as spacing, if it has no other characters than ASCII blanks. -/
def ofText? (text : List Char) : Option Spacing :=
  if h : text.all Text.isAsciiBlank = true then some { unit := text, blank := h } else none

/-- The end of a line. -/
def newline : Spacing := { unit := ['\n'] }

/-- One tab. -/
def tab : Spacing := { unit := ['\t'] }

/-- Some number of spaces. -/
def spaces (count : Nat) : Spacing := { unit := [' '], count }

/-- Spacing written some number of times. -/
def times (s : Spacing) (count : Nat) : Spacing := { s with count := s.count * count }

/-- The number of bytes of spacing, each of its characters being one byte. -/
def size (s : Spacing) : Nat := s.unit.length * s.count

/-- Whether spacing can be held in memory. -/
def fits (s : Spacing) : Bool := s.size ≤ maxTextSize

/-- Whether there is no character in it. -/
def isEmpty (s : Spacing) : Bool := s.size == 0

theorem text_blank (s : Spacing) : s.text.all Text.isAsciiBlank = true := by
  have h := s.blank
  rw [List.all_eq_true] at h ⊢
  intro c hc
  obtain ⟨part, hpart, hmem⟩ := List.mem_flatten.1 hc
  rw [List.eq_of_mem_replicate hpart] at hmem
  exact h c hmem

theorem text_times (s : Spacing) (count : Nat) :
    (s.times count).text = (List.replicate count s.text).flatten := by
  induction count with
  | zero => rfl
  | succ count ih =>
    rw [List.replicate_succ', List.flatten_append, ← ih, List.flatten_singleton]
    show (List.replicate (s.count * (count + 1)) s.unit).flatten = _
    rw [Nat.mul_add_one, ← List.replicate_append_replicate, List.flatten_append]
    rfl

theorem length_text (s : Spacing) : s.text.length = s.size := by
  simp [text, size, Nat.mul_comm]

theorem isEmpty_iff {s : Spacing} : s.isEmpty = true ↔ s.text = [] := by
  rw [isEmpty, beq_iff_eq, ← length_text, List.length_eq_zero_iff]

@[simp] theorem size_times (s : Spacing) (count : Nat) : (s.times count).size = s.size * count :=
  (Nat.mul_assoc ..).symm

@[simp] theorem size_spaces (count : Nat) : (spaces count).size = count := Nat.one_mul count

theorem fits_iff {s : Spacing} : s.fits = true ↔ s.size ≤ maxTextSize := decide_eq_true_iff

/-- Spacing made visible. -/
protected def toString (s : Spacing) : String := String.ofList (Text.visible s.text)

instance : ToString Spacing := ⟨Spacing.toString⟩

end Spacing
end CollationRules.Markup
