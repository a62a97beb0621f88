import CollationRules.Markup.Spacing

/-! The pieces of markup. Texts and attribute values are held as they are meant, and are escaped
where they are written: characters that markup gives a meaning to or cannot hold are stood for by
references and elements. -/

namespace CollationRules.Markup

/-! ### Escaping -/

/-- A hexadecimal digit, in upper case. -/
def hexDigit (n : Nat) : Char :=
  if n < 10 then Char.ofNat (0x30 + n) else Char.ofNat (0x37 + n)

/-- The reference for a character that has a meaning in markup. -/
def entity? : Char → Option (List Char)
  | '<' => some ['&', 'l', 't', ';']
  | '>' => some ['&', 'g', 't', ';']
  | '&' => some ['&', 'a', 'm', 'p', ';']
  | '"' => some ['&', 'q', 'u', 'o', 't', ';']
  | _ => none

/-- The element that stands for a code point below 256 in character data. -/
def codePointElement (c : Char) : List Char :=
  "<cp hex=\"00".toList ++ [hexDigit (c.toNat / 16), hexDigit (c.toNat % 16)] ++ "\"/>".toList

/-- A character of character data. A C0 control apart from line feed and carriage return is written
as an element, as markup has no reference for it. -/
def escapeChar (c : Char) : List Char :=
  (entity? c).getD
    (if c.toNat < 0x20 && c != '\n' && c != '\r' then codePointElement c else [c])

/-- A character of an attribute value. Tabs and line ends are written as references and other C0
controls are replaced, as no element can stand in an attribute. -/
def escapeAttributeChar (c : Char) : List Char :=
  (entity? c).getD
    (if c = '\t' then ['&', '#', 'x', '9', ';']
    else if c = '\n' then ['&', '#', 'x', 'A', ';']
    else if c = '\r' then ['&', '#', 'x', 'D', ';']
    else if c.toNat < 0x20 then ['\uFFFD']
    else [c])

/-- A text as character data. -/
def escape (text : List Char) : List Char := text.flatMap escapeChar

/-- A text as an attribute value. -/
def escapeAttribute (text : List Char) : List Char := text.flatMap escapeAttributeChar

@[simp] theorem escape_append (a b : List Char) : escape (a ++ b) = escape a ++ escape b := by
  simp [escape]

/-! ### Pieces -/

/-- The name of an element or an attribute. -/
abbrev Name := String

/-- A piece of markup. -/
inductive Token
  /-- The start of a tag, which attributes may follow. -/
  | openTag (name : Name)
  /-- The closing tag of an element. -/
  | closeTag (name : Name)
  /-- The end of a tag whose element has no content. -/
  | closeEmpty
  | attributeName (name : Name)
  | attributeValue (value : List Char)
  | characters (text : List Char)
  | spacing (s : Spacing)
deriving DecidableEq, Repr

/-- Whether memory can hold a piece of markup. Spacing is the only piece whose text is not given but
made. -/
def Token.fits : Token → Bool
  | spacing s => s.fits
  | _ => true

/-- A piece of markup as messages name it. -/
protected def Token.toString : Token → String
  | openTag name => s!"`<{name}>`"
  | closeTag name => s!"`</{name}>`"
  | closeEmpty => "`/>`"
  | attributeName name => s!"`@{name}`"
  | attributeValue value => s!"attribute value `{String.ofList (escapeAttribute value)}`"
  | characters text => s!"text `{String.ofList (escape text)}`"
  | spacing s => s!"whitespace `{s}`"

instance : ToString Token := ⟨Token.toString⟩

end CollationRules.Markup
