import CollationRules.Markup.Token
import CollationRules.Text.Utf8

/-! Writing markup. A tag is left open until the piece after it shows whether its element is empty,
so the writer has a state between two pieces. -/

namespace CollationRules.Markup

/-- Where a writer stands between two pieces of markup. -/
inductive WriterState
  /-- Outside of tags. -/
  | outside
  /-- In a tag that is not ended. -/
  | inTag
  /-- In a tag, after the name of an attribute. -/
  | afterName
deriving DecidableEq, Repr

/-- The name of a state in messages. -/
def WriterState.name : WriterState → String
  | outside => "NodeExpected"
  | inTag => "NodeOpen"
  | afterName => "AttrNameAdjacent"

/-- Why markup was not written. -/
inductive WriteError
  /-- A piece cannot stand where the writer is. -/
  | unexpected (token : Token) (state : WriterState)
  /-- The place that is written to has no more room. -/
  | full
deriving DecidableEq, Repr

/-- The words for an error. -/
def WriteError.message : WriteError → String
  | unexpected token state => s!"invalid token {token} at XML writer state {state.name}"
  | full => "failed to write whole buffer"

/-- The messages of the errors behind an error. -/
def WriteError.causes : WriteError → List String
  | unexpected .. => []
  | full => ["failed to write whole buffer"]

/-- What is written for content outside of tags, which ends a tag that is open; content cannot
follow the name of an attribute. -/
def WriterState.content? (state : WriterState) (text : List Char) : Option (List Char) :=
  match state with
  | outside => some text
  | inTag => some ('>' :: text)
  | afterName => none

/-- What is written for a piece of markup, unless it cannot stand where the writer is. -/
def Token.write? (state : WriterState) : Token → Option (List Char)
  | openTag name => state.content? ('<' :: name.toList)
  | closeTag name => state.content? (['<', '/'] ++ name.toList ++ ['>'])
  | closeEmpty => if state = .inTag then some ['/', '>'] else none
  | attributeName name => if state = .inTag then some (' ' :: name.toList) else none
  | attributeValue value =>
    if state = .afterName then some (['=', '"'] ++ escapeAttribute value ++ ['"']) else none
  | characters text => state.content? (escape text)
  | spacing s => state.content? s.text

/-- The state of a writer after a piece of markup. -/
def Token.stateAfter : Token → WriterState
  | openTag _ | attributeValue _ => .inTag
  | attributeName _ => .afterName
  | _ => .outside

/-- What has been written, and the state of the writer or the error that stopped it. -/
structure Written where
  text : List Char
  result : Except WriteError WriterState

/-- Write pieces of markup one after the other. -/
def write (state : WriterState) : List Token → Written
  | [] => ⟨[], .ok state⟩
  | token :: rest =>
    match token.write? state with
    | none => ⟨[], .error (.unexpected token state)⟩
    | some text =>
      let after := write token.stateAfter rest
      ⟨text ++ after.text, after.result⟩

/-- Pieces written after others, from the state that these leave, if they can be written. -/
theorem write_append (state : WriterState) (a b : List Token) :
    write state (a ++ b) =
      match (write state a).result with
      | .ok next => ⟨(write state a).text ++ (write next b).text, (write next b).result⟩
      | .error e => ⟨(write state a).text, .error e⟩ := by
  induction a generalizing state with
  | nil => simp [write]
  | cons token rest ih =>
    simp only [List.cons_append, write]
    split
    · rfl
    · simp only [ih]
      split <;> simp_all

/-- A place with room for some number of bytes more, and the bytes written to it. -/
structure Sink where
  room : Nat
  bytes : Array UInt8 := #[]

/-- The sink with as many of a text's bytes as it has room for, and whether these are all. -/
def Sink.put (sink : Sink) (text : List Char) : Sink × Bool :=
  let bytes := Text.encode text
  (⟨sink.room - bytes.length, sink.bytes ++ bytes.take sink.room⟩, bytes.length ≤ sink.room)

/-- Write pieces of markup to a sink one after the other, until one does not fit. -/
def Sink.write (sink : Sink) (state : WriterState) :
    List Token → Sink × Except WriteError WriterState
  | [] => (sink, .ok state)
  | token :: rest =>
    match token.write? state with
    | none => (sink, .error (.unexpected token state))
    | some text =>
      match sink.put text with
      | (sink, true) => sink.write token.stateAfter rest
      | (sink, false) => (sink, .error .full)

end CollationRules.Markup
