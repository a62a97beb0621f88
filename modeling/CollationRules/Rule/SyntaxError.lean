import CollationRules.Report.Diagnostic
import CollationRules.Text.Printable
import CollationRules.Text.Utf8

/-! Errors in the syntax of a rule string: the cause, the character that it is about, and a little
of the text on both sides of it. -/

namespace CollationRules

/-- Why a rule string has no next token. -/
inductive SyntaxCause
  /-- Text stands before any operator. -/
  | missingStrength (c : Char)
  /-- A special character stands unquoted outside of brackets. -/
  | specialCharacter (c : Char)
  /-- A quote mark stands before any operator. -/
  | strayQuote
  /-- A quoted section is not closed. -/
  | unterminatedQuote
  /-- A backslash stands before any operator or at the end. -/
  | strayEscape
  /-- An expansion stands before any operator. -/
  | misplacedExpansion
  /-- The code point that marks expansions stands in the rule string. -/
  | reservedCodePoint
deriving DecidableEq, Repr

/-- The words for a cause. -/
def SyntaxCause.message : SyntaxCause → String
  | missingStrength c => s!"expected a strength operator before `{c}`"
  | specialCharacter c => s!"special character `{c}` must be quoted"
  | strayQuote => "quote before any strength operator"
  | unterminatedQuote => "unterminated quote"
  | strayEscape => "escape does not apply to any text"
  | misplacedExpansion => "expansion before any strength operator"
  | reservedCodePoint => "reserved code point U+FFFF in rule string"

/-- A cause, the span of the character that it is about, and the text before and after that
character. -/
structure SyntaxError where
  cause : SyntaxCause
  span : Span
  before : List Char
  after : List Char
deriving DecidableEq, Repr

namespace SyntaxError

/-- The number of characters of context kept on either side. -/
def contextLength : Nat := 15

/-- The error about the character of `source` at a byte offset. An offset inside a character stands
for the start of that character, and one past the end for the end. -/
def locate (cause : SyntaxCause) (source : List Char) (offset : Nat) : SyntaxError :=
  let (before, rest) := Text.cut offset source
  let start := Text.byteLength before
  { cause
    span := Span.ofOffsets start (start + Text.byteLength (rest.take 1))
    before := before.drop (before.length - contextLength)
    after := (rest.drop 1).take contextLength }

/-- The words for an error: its cause and its context. -/
def message (e : SyntaxError) : String :=
  let before := String.ofList (Text.quoted e.before)
  let after := String.ofList (Text.quoted e.after)
  s!"{e.cause.message} (after {before}, before {after})"

/-- The notes on an error. -/
def annotations (e : SyntaxError) : List Annotation :=
  match e.cause with
  | .missingStrength _ =>
    [e.span.error "not preceded by `&`, `<`, `;`, `,`, or `=`",
      e.span.help "begin the rule string with a reset such as `&a`"]
  | .specialCharacter c => [e.span.error "special character", e.span.help s!"write this as `'{c}'`"]
  | .strayQuote | .strayEscape | .misplacedExpansion =>
    [e.span.error "not part of any rule",
      e.span.note "rule text must follow `&`, `<`, `;`, `,`, or `=`"]
  | .unterminatedQuote =>
    [e.span.error "quote opened here",
      e.span.help "close the quote with `'`; write `''` for a literal quote"]
  | .reservedCodePoint =>
    [e.span.error "reserved code point",
      e.span.note "U+FFFF marks expansions and cannot be tailored"]

/-- An error as a diagnostic. -/
def diagnostic (e : SyntaxError) : Diagnostic := ⟨e.message, e.annotations, []⟩

end SyntaxError
end CollationRules
