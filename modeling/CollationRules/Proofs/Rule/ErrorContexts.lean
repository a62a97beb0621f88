import CollationRules.Proofs.Rule.Spans
import CollationRules.Proofs.Text.Slices
import CollationRules.Rule.SyntaxError

/-! The context that errors keep. An error about any byte offset is made by going down to the start
of a character and slicing the text from there to both sides, which neither fails nor fills the
room for the context. The error shows one part of the text, around the character at that place. -/

namespace CollationRules

open Text (byteLength IsBoundary slice?)

namespace Text

/-! ### Boundaries -/

/-- The last place up to an offset that does not divide a character of a text. -/
structure IsLastBoundary (place offset : Nat) (text : List Char) : Prop where
  boundary : IsBoundary place text
  le : place ≤ offset
  last : ∀ other, IsBoundary other text → other ≤ offset → other ≤ place

/-- A boundary, searched for from an offset down, one byte after the other. -/
def boundaryFrom? (text : List Char) : Nat → Option Nat
  | 0 => if IsBoundary 0 text then some 0 else none
  | offset + 1 =>
    if IsBoundary (offset + 1) text then some (offset + 1) else boundaryFrom? text offset

section

variable {place offset : Nat} {text : List Char}

theorem IsLastBoundary.boundaryFrom?_eq (h : IsLastBoundary place offset text) :
    boundaryFrom? text offset = some place := by
  obtain ⟨hboundary, hle, hlast⟩ := h
  induction offset with
  | zero =>
    obtain rfl : place = 0 := by omega
    exact if_pos hboundary
  | succ offset ih =>
    by_cases hnext : IsBoundary (offset + 1) text
    · have hplace := hlast (offset + 1) hnext (Nat.le_refl _)
      rw [boundaryFrom?, if_pos hnext, show place = offset + 1 by omega]
    · rw [boundaryFrom?, if_neg hnext]
      have hne : place ≠ offset + 1 := by
        rintro rfl
        exact hnext hboundary
      exact ih (by omega) fun other hother hother' => hlast other hother (by omega)

/-- No boundary is beyond the end. -/
theorem IsLastBoundary.min_byteLength (h : IsLastBoundary place offset text) :
    IsLastBoundary place (min offset (byteLength text)) text :=
  ⟨h.boundary, Nat.le_min.2 ⟨h.le, h.boundary.le⟩,
    fun other hother hle => h.last other hother (Nat.le_trans hle (Nat.min_le_left ..))⟩

/-- A text that takes few enough bytes is not cut. -/
theorem cut_append_of_le {limit : Nat} {start : List Char} (h : byteLength start ≤ limit)
    (rest : List Char) :
    (cut limit (start ++ rest)).1 = start ++ (cut (limit - byteLength start) rest).1 := by
  induction start generalizing limit with
  | nil => rfl
  | cons c start ih =>
    rw [byteLength_cons] at h
    simp only [List.cons_append, cut, if_pos (show c.utf8Size ≤ limit by omega), byteLength_cons,
      ih (show byteLength start ≤ limit - c.utf8Size by omega), Nat.sub_add_eq]

theorem isLastBoundary_cut (offset : Nat) (text : List Char) :
    IsLastBoundary (byteLength (cut offset text).1) offset text := by
  refine ⟨⟨_, _, cut_append offset text, rfl⟩, byteLength_cut_le offset text, ?_⟩
  rintro other ⟨before, after, rfl, rfl⟩ hle
  rw [cut_append_of_le hle, byteLength_append]
  exact Nat.le_add_right ..

end

/-! ### Characters and their places -/

/-- The characters of a text, each with the byte offset that it starts at. -/
def placed (start : Nat) : List Char → List (Nat × Char)
  | [] => []
  | c :: rest => (start, c) :: placed (start + c.utf8Size) rest

theorem length_placed (start : Nat) (text : List Char) :
    (placed start text).length = text.length := by
  induction text generalizing start with
  | nil => rfl
  | cons c rest ih => rw [placed, List.length_cons, List.length_cons, ih]

theorem drop_placed (count start : Nat) (text : List Char) :
    (placed start text).drop count =
      placed (start + byteLength (text.take count)) (text.drop count) := by
  induction text generalizing count start with
  | nil => simp [placed]
  | cons c rest ih =>
    cases count with
    | zero => rfl
    | succ count =>
      rw [placed, List.drop_succ_cons, ih, List.take_succ_cons, List.drop_succ_cons,
        byteLength_cons, Nat.add_assoc]

/-- Going back some characters from the end leads to what stands in front of them. -/
theorem getLast?_take_reverse_placed (count : Nat) (text : List Char) :
    ((placed 0 text).reverse.take count).getLast?.elim (byteLength text) Prod.fst =
      byteLength (text.take (text.length - count)) := by
  rw [List.take_reverse, List.getLast?_reverse, length_placed, drop_placed, Nat.zero_add]
  cases hback : text.drop (text.length - count) with
  | nil =>
    have hfront := List.take_append_drop (text.length - count) text
    rw [hback, List.append_nil] at hfront
    rw [hfront]
    rfl
  | cons c rest => rfl

theorem byteLength_le (text : List Char) : byteLength text ≤ text.length * 4 := by
  induction text with
  | nil => exact Nat.le_refl _
  | cons c rest ih =>
    have hsize := c.utf8Size_le_four
    rw [byteLength_cons, List.length_cons]
    omega

/-! ### Room for a text -/

/-- A text that takes no more bytes than there is room for. -/
structure Bounded (room : Nat) where
  text : List Char
  fits : byteLength text ≤ room

namespace Bounded

variable {room : Nat}

/-- Room with nothing in it. -/
def empty : Bounded room := ⟨[], Nat.zero_le _⟩

/-- A text with another one behind it, which is left out if there is no room for it. -/
def append (bounded : Bounded room) (more : List Char) : Bounded room :=
  if h : byteLength (bounded.text ++ more) ≤ room then ⟨bounded.text ++ more, h⟩ else bounded

/-- A text with characters behind it, each left out if there is no room for it. -/
def pushAll (bounded : Bounded room) (more : List Char) : Bounded room :=
  more.foldl (fun bounded c => bounded.append [c]) bounded

theorem text_append {bounded : Bounded room} {more : List Char}
    (h : byteLength (bounded.text ++ more) ≤ room) :
    (bounded.append more).text = bounded.text ++ more := by
  rw [append, dif_pos h]

theorem text_pushAll {bounded : Bounded room} {more : List Char}
    (h : byteLength (bounded.text ++ more) ≤ room) :
    (bounded.pushAll more).text = bounded.text ++ more := by
  induction more generalizing bounded with
  | nil => exact (List.append_nil _).symm
  | cons c more ih =>
    have hsplit : bounded.text ++ c :: more = bounded.text ++ [c] ++ more := by simp
    rw [hsplit] at h ⊢
    have hfirst : (bounded.append [c]).text = bounded.text ++ [c] := by
      apply text_append
      rw [byteLength_append] at h
      omega
    rw [← hfirst] at h ⊢
    exact ih h

end Bounded
end Text

namespace SyntaxError

/-- The bytes that the characters of a context can take. -/
def contextRoom : Nat := contextLength * 4

theorem byteLength_le_contextRoom {text : List Char} (h : text.length ≤ contextLength) :
    byteLength text ≤ contextRoom := by
  have hbytes := Text.byteLength_le text
  unfold contextRoom
  omega

/-- The error about the character of a text at a byte offset, found by byte offsets and slices:
`none` where there is no boundary or no slice. -/
def construct? (cause : SyntaxCause) (source : List Char) (offset : Nat) : Option SyntaxError := do
  let size := byteLength source
  let place ← Text.boundaryFrom? source (min offset size)
  let rest ← slice? place size source
  let front ← slice? 0 place source
  let start := ((Text.placed 0 front).reverse.take contextLength).getLast?.elim place Prod.fst
  let context ← slice? start place source
  let before : Text.Bounded contextRoom := Text.Bounded.empty.append context
  let after : Text.Bounded contextRoom :=
    Text.Bounded.empty.pushAll ((rest.drop 1).take contextLength)
  return {
    cause
    span := Span.ofOffsets place (place + rest.head?.elim 0 Char.utf8Size)
    before := before.text
    after := after.text }

theorem construct?_eq (cause : SyntaxCause) (source : List Char) (offset : Nat) :
    construct? cause source offset = some (locate cause source offset) := by
  have hsource := Text.cut_append offset source
  have hplace := (Text.isLastBoundary_cut offset source).min_byteLength.boundaryFrom?_eq
  unfold construct? locate
  generalize Text.cut offset source = parts at hsource hplace
  obtain ⟨front, rest⟩ := parts
  subst hsource
  -- the context is what is left of the text in front of the place without its lead
  have hfront := List.take_append_drop (front.length - contextLength) front
  have hrest : slice? (byteLength front) (byteLength (front ++ rest)) (front ++ rest) =
      some rest :=
    Text.slice?_eq_some.2 ⟨front, [], List.append_nil _, rfl, rfl⟩
  have hbefore : slice? 0 (byteLength front) (front ++ rest) = some front :=
    Text.slice?_eq_some.2 ⟨[], rest, rfl, rfl, rfl⟩
  have hcontext : slice? (byteLength (front.take (front.length - contextLength)))
      (byteLength front) (front ++ rest) =
      some (front.drop (front.length - contextLength)) :=
    Text.slice?_eq_some.2 ⟨_, rest, by rw [hfront], rfl, by rw [hfront]⟩
  have hlength : (front.drop (front.length - contextLength)).length ≤ contextLength := by
    rw [List.length_drop]
    omega
  have hfits : (Text.Bounded.empty.append (front.drop (front.length - contextLength)) :
      Text.Bounded contextRoom).text = front.drop (front.length - contextLength) :=
    Text.Bounded.text_append (byteLength_le_contextRoom hlength)
  have hfits' : (Text.Bounded.empty.pushAll ((rest.drop 1).take contextLength) :
      Text.Bounded contextRoom).text = (rest.drop 1).take contextLength :=
    Text.Bounded.text_pushAll (byteLength_le_contextRoom (List.length_take_le ..))
  have hcharacter : rest.head?.elim 0 Char.utf8Size = byteLength (rest.take 1) := by
    cases rest <;> rfl
  simp only [hplace, hrest, hbefore, Text.getLast?_take_reverse_placed, hcontext, hfits, hfits',
    hcharacter, Option.bind_eq_bind, Option.bind_some, Option.pure_def]

/-- An error shows a part of a text, with its character between the two sides of its context and
with `lead` and `tail` left over. -/
structure Shows (e : SyntaxError) (source lead character tail : List Char) : Prop where
  part : lead ++ (e.before ++ character ++ e.after) ++ tail = source
  /-- There is one character, or none at the end of the text. -/
  single : character.length ≤ 1
  atEnd : character = [] → e.after = [] ∧ tail = []
  before_le : e.before.length ≤ contextLength
  after_le : e.after.length ≤ contextLength
  /-- The context is short only where the text ends. -/
  lead_eq : e.before.length < contextLength → lead = []
  tail_eq : e.after.length < contextLength → tail = []

theorem exists_shows (cause : SyntaxCause) (source : List Char) (offset : Nat) :
    ∃ lead character tail, (locate cause source offset).Shows source lead character tail ∧
      byteLength (lead ++ (locate cause source offset).before) =
        byteLength (Text.cut offset source).1 ∧
      (locate cause source offset).span =
        Span.ofOffsets (byteLength (Text.cut offset source).1)
          (byteLength (Text.cut offset source).1 + byteLength character) := by
  have hsource := Text.cut_append offset source
  unfold locate
  generalize Text.cut offset source = parts at hsource
  obtain ⟨front, rest⟩ := parts
  subst hsource
  have hfront := List.take_append_drop (front.length - contextLength) front
  refine ⟨front.take (front.length - contextLength), rest.take 1,
    (rest.drop 1).drop contextLength, ?_, by rw [hfront], rfl⟩
  constructor
  · simp only [List.append_assoc, List.take_append_drop]
    rw [← List.append_assoc, hfront]
  · exact List.length_take_le ..
  · intro hnone
    obtain rfl : rest = [] := by simpa using hnone
    exact ⟨rfl, rfl⟩
  · simp only [List.length_drop]
    omega
  · exact List.length_take_le ..
  · simp only [List.length_drop]
    intro hshort
    rw [show front.length - contextLength = 0 by omega]
    rfl
  · simp only [List.length_take]
    intro hshort
    exact List.drop_eq_nil_of_le (by omega)

/-- An error about any byte offset is made, without a slice that is not there and with room for its
context. It is about the character at the last boundary up to the offset, or the end of the text,
and shows a part of the text around that place. -/
theorem construct_shows (cause : SyntaxCause) {source : List Char}
    (hsize : byteLength source < UInt32.size) (offset : Nat) :
    ∃ e, construct? cause source offset = some e ∧ e = locate cause source offset ∧
      e.cause = cause ∧
      ∃ place, Text.IsLastBoundary place (min offset (byteLength source)) source ∧
      ∃ lead character tail, e.Shows source lead character tail ∧
        byteLength (lead ++ e.before) = place ∧
        e.span.offset.toNat = place ∧ e.span.length.toNat = byteLength character := by
  refine ⟨_, construct?_eq cause source offset, rfl, rfl, _,
    (Text.isLastBoundary_cut offset source).min_byteLength, ?_⟩
  obtain ⟨lead, character, tail, hshows, hplace, hspan⟩ := exists_shows cause source offset
  refine ⟨lead, character, tail, hshows, hplace, ?_⟩
  have hpart := congrArg byteLength hshows.part
  simp only [Text.byteLength_append] at hpart hplace
  rw [hspan]
  constructor
  · exact Span.toNat_offset_ofOffsets (by omega)
  · rw [Span.toNat_length_ofOffsets (Nat.le_add_right ..) (by omega), Nat.add_sub_cancel_left]

/-- An offset inside of the third character, behind which the text goes on for longer than a
context. -/
theorem construct_shows_inside :
    let source := "&é世abcdefghijklmnopq".toList
    let e : SyntaxError :=
      ⟨.specialCharacter '世', ⟨3, 3⟩, ['&', 'é'], "abcdefghijklmno".toList⟩
    byteLength source < UInt32.size ∧
      construct? (.specialCharacter '世') source 5 = some e ∧
      Text.IsLastBoundary 3 5 source ∧
      ∃ lead character tail, e.Shows source lead character tail ∧
        byteLength (lead ++ e.before) = 3 := by
  intro source e
  have hsize : byteLength source < UInt32.size := by decide +kernel
  obtain ⟨_, hmade, rfl, -, place, hplace, lead, character, tail, hshows, hbefore, hoffset, -⟩ :=
    construct_shows (.specialCharacter '世') hsize 5
  have he : locate (.specialCharacter '世') source 5 = e := by decide +kernel
  rw [he] at hmade hshows hbefore hoffset
  obtain rfl : 3 = place := hoffset
  exact ⟨hsize, hmade, hplace, lead, character, tail, hshows, hbefore⟩

end SyntaxError
end CollationRules
