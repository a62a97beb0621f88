/-! Sets of characters, blank and control characters, and the ways in which blanks divide a text:
trimming, the words of a text, and its first word. -/

namespace CollationRules.Text

/-- A set of characters, as inclusive ranges of code points in ascending order. -/
structure CharSet where
  ranges : List (Nat × Nat)
deriving Repr

/-- Whether a character lies in one of the ranges. -/
def CharSet.has (set : CharSet) (c : Char) : Bool :=
  set.ranges.any fun range => range.1 ≤ c.toNat && c.toNat ≤ range.2

/-- The characters with the Unicode property `White_Space`. -/
def blanks : CharSet where
  ranges := [(0x9, 0xD), (0x20, 0x20), (0x85, 0x85), (0xA0, 0xA0), (0x1680, 0x1680),
    (0x2000, 0x200A), (0x2028, 0x2029), (0x202F, 0x202F), (0x205F, 0x205F), (0x3000, 0x3000)]

/-- The C0 and C1 control characters and the delete character. -/
def controls : CharSet where
  ranges := [(0x0, 0x1F), (0x7F, 0x9F)]

/-- Whether a character has the property `White_Space`. -/
def isBlank (c : Char) : Bool := blanks.has c

/-- Whether a character is a control character. -/
def isControl (c : Char) : Bool := controls.has c

/-- Whether a character is a space, tab, line feed, form feed or carriage return. -/
def isAsciiBlank (c : Char) : Bool :=
  c == ' ' || c == '\t' || c == '\n' || c == '\x0c' || c == '\r'

/-- A text without the blanks at its start. -/
def trimStart (text : List Char) : List Char := text.dropWhile isBlank

/-- A text without the blanks at its end. -/
def trimEnd (text : List Char) : List Char := (text.reverse.dropWhile isBlank).reverse

/-- A text without the blanks at both of its ends. -/
def trim (text : List Char) : List Char := trimEnd (trimStart text)

/-- The longest runs of characters that are not blank, in order. -/
def words : List Char → List (List Char)
  | [] => []
  | c :: rest =>
    if isBlank c then words rest
    else if (rest.head?.map isBlank).getD true then [c] :: words rest
    else match words rest with
      | [] => [[c]]
      | word :: others => (c :: word) :: others

/-- The text before the first blank and the text after it; the second is empty where the text has
no blank. -/
def cutAtBlank (text : List Char) : List Char × List Char :=
  (text.takeWhile (!isBlank ·), (text.dropWhile (!isBlank ·)).drop 1)

end CollationRules.Text
