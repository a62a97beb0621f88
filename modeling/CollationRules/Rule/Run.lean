import CollationRules.Rule.Token

/-! Runs of tokens, and what their operands say. Neighbouring tokens of one kind are gathered as
long as each is a single character, so that a run of rules can be written as one sequence of
characters. The operand of a rule is divided at its marks into a context, a text and an
extension. -/

namespace CollationRules

/-! ### Operands -/

/-- The parts of the operand of a rule. -/
structure Operand where
  context : Option (List Char)
  head : List Char
  extension : Option (List Char)
deriving DecidableEq, Repr

/-- The text before the first of some character and the text after it, if the text has that
character. -/
def splitAtMark? (mark : Char) (text : List Char) : Option (List Char × List Char) :=
  match text.dropWhile (· != mark) with
  | [] => none
  | _ :: rest => some (text.takeWhile (· != mark), rest)

/-- The parts of an operand. The first expansion mark begins the extension, in which further marks
are left out. What comes before the first context mark is the context, unless the mark is all of
the operand. -/
def Operand.ofText (text : List Char) : Operand :=
  let (head, extension) :=
    match splitAtMark? expansionMark text with
    | some (head, extension) => (head, some (extension.filter (· != expansionMark)))
    | none => (text, none)
  match splitAtMark? contextMark head with
  | some (context, rest) =>
    if isContraction text then ⟨some context, rest, extension⟩ else ⟨none, head, extension⟩
  | none => ⟨none, head, extension⟩

/-- Whether an operand needs an element around the elements of its parts. -/
def Operand.isCompound (operand : Operand) : Bool :=
  operand.context.isSome || operand.extension.isSome

/-! ### Runs -/

/-- Some tokens of one kind, one after the other: their operands joined, their number, whether the
last of them is a contraction, and the span of all. -/
structure Run where
  kind : TokenKind
  text : List Char
  count : Nat
  lastIsContraction : Bool
  span : Span
deriving DecidableEq, Repr

namespace Run

/-- The run of a single token. -/
def ofToken (token : Token) : Run :=
  ⟨token.kind, token.text, 1, isContraction token.text, token.span⟩

/-- Whether a token belongs to a run: it is of the same kind, neither it nor the last token of the
run is a contraction, and neither it nor the run has an expansion or a context. -/
def accepts (run : Run) (token : Token) : Bool :=
  run.kind == token.kind && !isContraction token.text && !run.lastIsContraction &&
    !hasExpansion token.text && !hasExpansion run.text &&
    !hasContext token.text && !hasContext run.text

/-- A run with one more token. -/
def add (run : Run) (token : Token) : Run where
  kind := token.kind
  text := run.text ++ token.text
  count := run.count + 1
  lastIsContraction := isContraction token.text
  span := run.span.merge token.span

/-- Whether a run is of more than one token. -/
def isSequence (run : Run) : Bool := 1 < run.count

/-- The runs of some tokens that follow a run, with that run first. -/
def gather (run : Run) : List Token → List Run
  | [] => [run]
  | token :: rest =>
    if run.accepts token then (run.add token).gather rest
    else run :: (ofToken token).gather rest

/-- The runs of some tokens. -/
def ofTokens : List Token → List Run
  | [] => []
  | token :: rest => (ofToken token).gather rest

end Run
end CollationRules
