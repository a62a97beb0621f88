import CollationRules.Span

/-! Diagnostics: what went wrong, in words, together with notes on the places of a rule string that
it concerns. -/

namespace CollationRules

/-- How grave a note is, from the gravest down. -/
inductive Severity
  | internalError
  | error
  | note
  | help
deriving DecidableEq, Repr

namespace Severity

/-- The place of a severity in the order, the gravest first. -/
def rank : Severity → Nat
  | internalError => 0
  | error => 1
  | note => 2
  | help => 3

/-- The graver of two severities. -/
def graver (a b : Severity) : Severity := if a.rank ≤ b.rank then a else b

/-- The word for a severity. -/
def name : Severity → String
  | internalError => "internal error"
  | error => "error"
  | note => "note"
  | help => "help"

end Severity

/-- A note on a span of the rule string, with or without a label. -/
structure Annotation where
  span : Span
  severity : Severity
  label : Option String
deriving DecidableEq, Repr

namespace Span

/-- A label for a fault of the program itself. -/
def internalError (span : Span) (label : String) : Annotation := ⟨span, .internalError, some label⟩

/-- A label for the place of an error. -/
def error (span : Span) (label : String) : Annotation := ⟨span, .error, some label⟩

/-- A label with background on an error. -/
def note (span : Span) (label : String) : Annotation := ⟨span, .note, some label⟩

/-- A label with advice on an error. -/
def help (span : Span) (label : String) : Annotation := ⟨span, .help, some label⟩

end Span

/-- An error ready to be reported: its message, its notes in order, and the messages of the errors
that caused it, the nearest first. -/
structure Diagnostic where
  message : String
  annotations : List Annotation
  causes : List String := []
deriving Repr

/-- The same error as the cause of one that adds nothing of its own. -/
def Diagnostic.wrapped (d : Diagnostic) : Diagnostic :=
  { d with causes := d.message :: d.causes }

end CollationRules
