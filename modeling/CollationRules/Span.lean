/-! Spans: intervals of bytes in a rule string, in 32-bit words that saturate. -/

namespace CollationRules

/-- An interval of `length` bytes that starts at byte `offset` of a rule string. -/
structure Span where
  offset : UInt32 := 0
  length : UInt32 := 0
deriving DecidableEq, Inhabited, Repr

namespace Span

/-- The empty span at the start, which stands for no place at all when spans are merged. -/
def nowhere : Span := {}

/-- The half-open interval from `start` to `stop`, empty where `stop` comes first. -/
def between (start stop : UInt32) : Span :=
  ⟨start, if start ≤ stop then stop - start else 0⟩

/-- The half-open interval between two byte offsets of any size, each cut down to the largest
word. -/
def ofOffsets (start stop : Nat) : Span :=
  between (UInt32.ofNatClamp start) (UInt32.ofNatClamp stop)

/-- Whether a span covers no byte. -/
def isEmpty (span : Span) : Bool := span.length == 0

/-- The offset after the last byte, at most the largest word. -/
def stop (span : Span) : UInt32 := UInt32.ofNatClamp (span.offset.toNat + span.length.toNat)

/-- The smallest span that contains both spans; `Span.nowhere` adds nothing. -/
def merge (a b : Span) : Span :=
  if a = nowhere then b
  else if b = nowhere then a
  else between (min a.offset b.offset) (max a.stop b.stop)

@[simp] theorem nowhere_merge (span : Span) : nowhere.merge span = span := by
  simp [merge]

@[simp] theorem merge_nowhere (span : Span) : span.merge nowhere = span := by
  unfold merge
  split
  · simp_all
  · simp

/-- Spans are ordered by offset and then by length. -/
instance : Ord Span where
  compare a b := (compare a.offset b.offset).then (compare a.length b.length)

/-- A span as text, by its two ends. -/
protected def toString (span : Span) : String :=
  s!"offset {span.offset}--{span.stop}"

instance : ToString Span := ⟨Span.toString⟩

end Span
end CollationRules
