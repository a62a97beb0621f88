/-! The options of the command line, and what a parser makes of the words that give them. -/

namespace CollationRules.CommandLine

/-- An option. -/
inductive Flag
  | output
  | type
  | base
  | baseType
  | spaces
  | fragment
  | help
deriving DecidableEq, Repr

namespace Flag

/-- Every option, in the order of the help text. -/
def all : List Flag := [output, type, base, baseType, spaces, fragment, help]

/-- The letter that gives an option. -/
def letter? : Flag → Option Char
  | output => some 'o'
  | type => some 't'
  | base => some 'b'
  | spaces => some 's'
  | help => some 'h'
  | baseType | fragment => none

/-- The word that gives an option. -/
def word : Flag → String
  | output => "output"
  | type => "type"
  | base => "base"
  | baseType => "base-type"
  | spaces => "spaces"
  | fragment => "fragment"
  | help => "help"

/-- What the value of an option stands for, if it takes one. -/
def hint? : Flag → Option String
  | output => some "NAME"
  | type | baseType => some "TYPE"
  | base => some "LOCALE"
  | spaces => some "N"
  | fragment | help => none

/-- What an option does. -/
def purpose : Flag → String
  | output => "set output file name"
  | type => "set collation type"
  | base => "derive from the collation of LOCALE"
  | baseType => "set collation type of base"
  | spaces => "indent using N spaces"
  | fragment => "emit only the rules fragment"
  | help => "print this help menu"

end Flag

/-- What is wrong with the arguments. -/
inductive UsageError
  | unrecognized (name : String)
  | missingValue (name : String)
  | unexpectedValue (name : String)
  | repeated (name : String)
  | required (name : String)
deriving DecidableEq, Repr

/-- The options and the other arguments of a command line, each in order. -/
structure Arguments where
  given : List (Flag × Option String) := []
  free : List String := []
deriving DecidableEq, Repr

namespace Arguments

/-- How often an option is given. -/
def count (args : Arguments) (flag : Flag) : Nat := (args.given.filter (·.1 == flag)).length

/-- Whether an option is given. -/
def has (args : Arguments) (flag : Flag) : Bool := args.given.any (·.1 == flag)

/-- The value that an option is given. -/
def value? (args : Arguments) (flag : Flag) : Option String :=
  (args.given.find? (·.1 == flag)).bind (·.2)

end Arguments

/-- A parser of options. -/
structure OptionParser where
  /-- The arguments that words give, or what is wrong with them. -/
  parse : (words : List String) → Except UsageError Arguments
  /-- The words for an error. -/
  message : UsageError → String
  /-- The help text below a heading. -/
  usage : (heading : String) → String

end CollationRules.CommandLine
