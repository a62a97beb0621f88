import CollationRules.Rule.Token
import CollationRules.Rule.SyntaxError

/-! The token being scanned, and the way in which each further character changes it. No character
needs one after it to be read: where two or three belong together, as in `''` or `<<<`, the first
leaves a mode in which the next is read. -/

namespace CollationRules

/-- How the next character is read. Each mode that a quote mark or a backslash brings about knows
the byte offset of that character. -/
inductive Mode
  /-- As itself. -/
  | plain
  /-- Directly after a `<` that another `<` would strengthen. -/
  | angled
  /-- After a backslash, which takes the character out of the text. -/
  | escaped (start : Nat)
  /-- Directly after a quote mark that begins a quoted section or a literal quote mark. -/
  | opened (start : Nat)
  /-- Inside a quoted section. -/
  | quoted (start : Nat)
  /-- Directly after a quote mark that ends a quoted section or begins a literal quote mark. -/
  | closed (start : Nat)
deriving DecidableEq, Repr

/-- A token being scanned. -/
structure Draft where
  /-- What the token is, once its operator has been read. -/
  kind : Option TokenKind := none
  /-- The byte offset of the first character that is not skipped. -/
  start : Option Nat := none
  mode : Mode := .plain
  /-- The number of open brackets. -/
  depth : Nat := 0
  text : Array Char := #[]
deriving Repr

/-- What a character does to a draft. -/
inductive Draft.Step
  /-- The character is taken. -/
  | take (draft : Draft)
  /-- The token ends before the character. -/
  | stop (draft : Draft)
  /-- The character is an error. -/
  | fail (cause : SyntaxCause)

namespace Draft

/-- The position that rules begin from if no reset comes first. -/
def implicitReset : List Char := ['[', 't', 'o', 'p', ']']

/-- The draft with a character added to its text. -/
def push (d : Draft) (c : Char) : Draft := { d with text := d.text.push c }

/-- The draft after another `<`. -/
def strengthen (d : Draft) : Draft :=
  if d.kind = some (.relation .primary) then { d with kind := some (.relation .secondary) }
  else { d with kind := some (.relation .tertiary), mode := .plain }

/-- A character before any operator. Where `first` holds no token came before, and rules that begin
with a relation are preceded by a reset. -/
def stepOutside (first : Bool) (d : Draft) (c : Char) : Step :=
  match operator? c with
  | some kind =>
    if first && kind.isRelation then
      .stop { d with kind := some .reset, text := d.text ++ implicitReset.toArray }
    else .take { d with kind := some kind, mode := if c = '<' then .angled else .plain }
  | none =>
    if c = '[' then .take ({ d with kind := some .setting, depth := d.depth + 1 }.push c)
    else if c = '@' then .take { d with kind := some .override }
    else if c = '!' then .take d
    else if c = '\\' then .fail .strayEscape
    else if c = '\'' then .fail .strayQuote
    else if c = '/' then .fail .misplacedExpansion
    else if c = expansionMark then .fail .reservedCodePoint
    else .fail (.missingStrength c)

/-- A character after an operator. The next operator ends the token, also inside brackets. -/
def stepInside (d : Draft) (offset : Nat) (c : Char) : Step :=
  if (operator? c).isSome then .stop d
  else if c = '[' then .take ({ d with depth := d.depth + 1 }.push c)
  else if c = ']' then .take ({ d with depth := d.depth - 1 }.push c)
  else if c = '\\' then .take { d with mode := .escaped offset }
  else if c = '\'' then .take { d with mode := .opened offset }
  else if c = '!' then .take d
  else if c = '/' then .take (d.push expansionMark)
  else if c = expansionMark then .fail .reservedCodePoint
  else if c = contextMark || c = '@' || c = '-' then .take (d.push c)
  else if d.depth = 0 && isSpecial c then .fail (.specialCharacter c)
  else .take (d.push c)

/-- A character outside of quotes. -/
def stepPlain (first : Bool) (d : Draft) (offset : Nat) (c : Char) : Step :=
  let d := { d with mode := .plain }
  if d.depth = 0 && isSkipped c then .take d
  else
    let d := { d with start := some (d.start.getD offset) }
    if d.kind.isNone then d.stepOutside first c else d.stepInside offset c

/-- A character inside the quoted section that begins at `start`. -/
def stepQuoted (d : Draft) (start : Nat) (c : Char) : Step :=
  if c = '\'' then .take { d with mode := .closed start }
  else if c = expansionMark then .fail .reservedCodePoint
  else .take { d.push c with mode := .quoted start }

/-- The character at a byte offset. -/
def step (first : Bool) (d : Draft) (offset : Nat) (c : Char) : Step :=
  match d.mode with
  | .plain => d.stepPlain first offset c
  | .angled => if c = '<' then .take d.strengthen else d.stepPlain first offset c
  | .escaped _ =>
    if c = expansionMark then .fail .reservedCodePoint else .take { d with mode := .plain }
  | .opened start =>
    if c = '\'' then .take { d.push c with mode := .plain } else d.stepQuoted start c
  | .quoted start => d.stepQuoted start c
  | .closed start =>
    if c = '\'' then .take { d.push c with mode := .quoted start } else d.stepPlain first offset c

/-- What is wrong with a draft at the end of the rule string, and where: a quoted section or an
escape may still be open. -/
def unfinished? (d : Draft) : Option (SyntaxCause × Nat) :=
  match d.mode with
  | .escaped start => some (.strayEscape, start)
  | .opened start | .quoted start => some (.unterminatedQuote, start)
  | _ => none

/-- The token that a draft has become at a byte offset. -/
def finish (d : Draft) (offset : Nat) : Token :=
  let span := Span.ofOffsets (d.start.getD offset) offset
  match d.kind with
  | some kind => ⟨kind, d.text.toList, span⟩
  | none => Token.finish span

end Draft
end CollationRules
