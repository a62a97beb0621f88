/-! Texts measured and written in UTF-8: the length of a text in bytes, its division at a byte
offset, its bytes, and the texts that given bytes hold. -/

namespace CollationRules.Text

/-- The number of bytes that a text takes. -/
def byteLength : List Char → Nat
  | [] => 0
  | c :: text => c.utf8Size + byteLength text

@[simp] theorem byteLength_nil : byteLength [] = 0 := rfl

@[simp] theorem byteLength_cons (c : Char) (text : List Char) :
    byteLength (c :: text) = c.utf8Size + byteLength text := rfl

@[simp] theorem byteLength_append (a b : List Char) :
    byteLength (a ++ b) = byteLength a + byteLength b := by
  induction a with
  | nil => simp
  | cons c a ih => simp [ih, Nat.add_assoc]

/-- The longest start of a text that takes at most `limit` bytes, and what follows it. -/
def cut (limit : Nat) : List Char → List Char × List Char
  | [] => ([], [])
  | c :: rest =>
    if c.utf8Size ≤ limit then
      let (before, after) := cut (limit - c.utf8Size) rest
      (c :: before, after)
    else ([], c :: rest)

theorem cut_append (limit : Nat) (text : List Char) :
    (cut limit text).1 ++ (cut limit text).2 = text := by
  induction text generalizing limit with
  | nil => rfl
  | cons c rest ih =>
    simp only [cut]
    split
    · simp [ih]
    · rfl

theorem byteLength_cut_le (limit : Nat) (text : List Char) :
    byteLength (cut limit text).1 ≤ limit := by
  induction text generalizing limit with
  | nil => simp [cut]
  | cons c rest ih =>
    simp only [cut]
    split
    · have := ih (limit - c.utf8Size)
      simp only [byteLength_cons]
      omega
    · simp

theorem cut_byteLength (a b : List Char) : cut (byteLength a) (a ++ b) = (a, b) := by
  induction a with
  | nil =>
    cases b with
    | nil => rfl
    | cons c rest =>
      have := c.utf8Size_pos
      simp only [List.nil_append, cut, byteLength_nil]
      rw [if_neg (by omega)]
  | cons c rest ih => simp [cut, ih]

/-- The two parts of a text at a byte offset, if the offset lies between two characters or at an
end of the text. -/
def cutExactly? (offset : Nat) (text : List Char) : Option (List Char × List Char) :=
  let parts := cut offset text
  if byteLength parts.1 = offset then some parts else none

theorem cutExactly?_eq_some {offset : Nat} {text a b : List Char} :
    cutExactly? offset text = some (a, b) ↔ a ++ b = text ∧ byteLength a = offset := by
  simp only [cutExactly?]
  constructor
  · intro h
    split at h
    · rename_i hlen
      have hcut := cut_append offset text
      rw [Option.some.inj h] at hcut hlen
      exact ⟨hcut, hlen⟩
    · simp at h
  · rintro ⟨rfl, rfl⟩
    simp [cut_byteLength]

/-- The bytes of a text. -/
def encode (text : List Char) : List UInt8 := text.flatMap String.utf8EncodeChar

@[simp] theorem encode_append (a b : List Char) : encode (a ++ b) = encode a ++ encode b := by
  simp [encode]

/-- Where a reader of bytes stands. -/
inductive ByteState
  /-- Between two characters. -/
  | start
  /-- Inside a character that needs `more + 1` bytes, of which the next one lies between `low` and
  `high`; `value` is the code point that the bytes so far stand for. -/
  | inside (more : Nat) (low high : UInt8) (value : Nat)
deriving Repr, DecidableEq

/-- The first byte of a character: a character of one byte, the state inside a longer one, or
`none` for a byte that starts no character. -/
def firstByte (b : UInt8) : Option (Option Char × ByteState) :=
  if b ≤ 0x7F then some (some (Char.ofNat b.toNat), .start)
  else if b < 0xC2 then none
  else if b ≤ 0xDF then some (none, .inside 0 0x80 0xBF (b.toNat % 0x20))
  else if b ≤ 0xEF then
    some (none, .inside 1 (if b = 0xE0 then 0xA0 else 0x80) (if b = 0xED then 0x9F else 0xBF)
      (b.toNat % 0x10))
  else if b ≤ 0xF4 then
    some (none, .inside 2 (if b = 0xF0 then 0x90 else 0x80) (if b = 0xF4 then 0x8F else 0xBF)
      (b.toNat % 0x8))
  else none

/-- The characters that end at the first byte of a character, with `none` for a byte that starts no
character, and the state after it. -/
def ByteState.begin (b : UInt8) : List (Option Char) × ByteState :=
  match firstByte b with
  | some (c, state) => (c.toList.map some, state)
  | none => ([none], .start)

/-- The characters that one byte completes, with `none` for each ill-formed sequence that it ends,
and the state after it. A byte that cannot continue a character ends it and is read anew. -/
def ByteState.step : ByteState → UInt8 → List (Option Char) × ByteState
  | .start, b => ByteState.begin b
  | .inside more low high value, b =>
    if low ≤ b && b ≤ high then
      let value := value * 0x40 + b.toNat % 0x40
      match more with
      | 0 => ([some (Char.ofNat value)], .start)
      | more + 1 => ([], .inside more 0x80 0xBF value)
    else
      let (found, state) := ByteState.begin b
      (none :: found, state)

/-- The characters that bytes hold, read from a state, with `none` for each ill-formed sequence. -/
def ByteState.read : ByteState → List UInt8 → List (Option Char)
  | .start, [] => []
  | .inside .., [] => [none]
  | state, b :: rest =>
    let (found, next) := state.step b
    found ++ next.read rest

/-- The text that bytes hold, if they are well-formed. -/
def decode? (bytes : List UInt8) : Option (List Char) :=
  (ByteState.start.read bytes).mapM id

end CollationRules.Text
