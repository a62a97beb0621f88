import CollationRules.Rule.Strength
import CollationRules.Span
import CollationRules.Text.Printable

/-! The part that single characters play in a rule string, and rule tokens: an operator and its
operand, with quoting undone. Two marks in the operand divide it: a vertical bar stands between a
context and what follows it, and a reserved code point between a text and its expansion. -/

namespace CollationRules

/-! ### Characters -/

/-- The format characters: joiners, direction marks, soft hyphens and the like. -/
def formatCharacters : Text.CharSet where
  ranges := [(0xAD, 0xAD), (0x600, 0x605), (0x61C, 0x61C), (0x6DD, 0x6DD), (0x70F, 0x70F),
    (0x890, 0x891), (0x8E2, 0x8E2), (0x180E, 0x180E), (0x200B, 0x200F), (0x202A, 0x202E),
    (0x2060, 0x2064), (0x2066, 0x206F), (0xFEFF, 0xFEFF), (0xFFF9, 0xFFFB), (0x110BD, 0x110BD),
    (0x110CD, 0x110CD), (0x13430, 0x1343F), (0x1BCA0, 0x1BCA3), (0x1D173, 0x1D17A),
    (0xE0001, 0xE0001), (0xE0020, 0xE007F)]

/-- The ASCII punctuation that must be quoted where it has no meaning of its own. -/
def specialCharacters : Text.CharSet where
  ranges := [(0x21, 0x2F), (0x3A, 0x3F), (0x5C, 0x5C), (0x5E, 0x60), (0x7B, 0x7B), (0x7D, 0x7E)]

/-- Whether a character is skipped outside of quotes and brackets. -/
def isSkipped (c : Char) : Bool := Text.isBlank c || formatCharacters.has c

/-- Whether a character is special. -/
def isSpecial (c : Char) : Bool := specialCharacters.has c

/-- The kind of token that an operator begins. A `<` may be strengthened by those that follow
it. -/
def operator? : Char → Option TokenKind
  | '&' => some .reset
  | '<' => some (.relation .primary)
  | ';' => some (.relation .secondary)
  | ',' => some (.relation .tertiary)
  | '=' => some (.relation .identical)
  | _ => none

/-! ### Tokens -/

/-- The mark between a text and its expansion, a code point that no rule string may hold. -/
def expansionMark : Char := '\uFFFF'

/-- The mark between a context and the text that it precedes. -/
def contextMark : Char := '|'

/-- An operator and its operand, and the span of both. -/
structure Token where
  kind : TokenKind
  text : List Char
  span : Span
deriving DecidableEq, Repr

namespace Token

/-- The token at the end of the rules. -/
def finish (span : Span) : Token := ⟨.endOfRules, [], span⟩

/-- Whether a token marks the end of the rules. -/
def isFinish (token : Token) : Bool := token.kind == .endOfRules

/-- A token as text, its operand made visible. -/
protected def toString (token : Token) : String :=
  s!"{token.kind.name} `{String.ofList (Text.visible token.text)}`"

instance : ToString Token := ⟨Token.toString⟩

end Token

/-- Whether an operand has more than one character, marks included. -/
def isContraction (text : List Char) : Bool :=
  match text with
  | _ :: _ :: _ => true
  | _ => false

/-- Whether an operand has an expansion. -/
def hasExpansion (text : List Char) : Bool := text.contains expansionMark

/-- Whether an operand has a context. -/
def hasContext (text : List Char) : Bool := text.contains contextMark

end CollationRules
