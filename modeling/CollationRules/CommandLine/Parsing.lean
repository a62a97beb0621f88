import CollationRules.CommandLine.Options

/-! A parser of options. Options and other arguments may stand in any order, and two dashes alone
end the options. -/

namespace CollationRules.CommandLine

namespace Flag

/-- The option with a letter. -/
def ofLetter? (c : Char) : Option Flag := all.find? (·.letter? == some c)

/-- The option with a word. A word of one letter gives the option with that letter. -/
def ofWord? (word : List Char) : Option Flag :=
  match word with
  | [c] => ofLetter? c
  | _ => all.find? (·.word.toList == word)

/-- The width of the column of option names in the help text. -/
def nameColumns : Nat := 24

/-- The line of an option in the help text. A name that fills its column has a line of its own. -/
def usageLine (flag : Flag) : String :=
  let letter :=
    match flag.letter? with
    | some c => s!"-{c}, "
    | none => "    "
  let hint :=
    match flag.hint? with
    | some hint => s!" {hint}"
    | none => ""
  let name := s!"    {letter}--{flag.word}{hint}"
  let gap :=
    if name.length < nameColumns then "".pushn ' ' (nameColumns - name.length)
    else "\n".pushn ' ' nameColumns
  s!"{name}{gap}{flag.purpose}\n"

end Flag

/-- The words for an error. -/
def UsageError.message : UsageError → String
  | unrecognized name => s!"Unrecognized option: '{name}'"
  | missingValue name => s!"Argument to option '{name}' missing"
  | unexpectedValue name => s!"Option '{name}' does not take an argument"
  | repeated name => s!"Option '{name}' given more than once"
  | required name => s!"Required option '{name}' missing"

/-- What one word asks for: options that it gives, and perhaps one whose value is the next word,
with the name by which it was called. -/
structure Request where
  given : List (Flag × Option String)
  pending : Option (Flag × String) := none

/-- The options in a cluster of letters. The first that takes a value takes the rest of the
cluster. -/
def Request.ofLetters : List Char → Except UsageError Request
  | [] => .ok { given := [] }
  | c :: rest =>
    match Flag.ofLetter? c with
    | none => .error (.unrecognized c.toString)
    | some flag =>
      if flag.hint?.isNone then
        (ofLetters rest).map fun request => { request with given := (flag, none) :: request.given }
      else if rest.isEmpty then .ok { given := [], pending := some (flag, c.toString) }
      else .ok { given := [(flag, some (String.ofList rest))] }

/-- The option given by a word, with its value after an equals sign if there is one. -/
def Request.ofWord (text : List Char) : Except UsageError Request :=
  let name := text.takeWhile (· != '=')
  let written := String.ofList name
  match Flag.ofWord? name, text.dropWhile (· != '=') with
  | none, _ => .error (.unrecognized written)
  | some flag, [] =>
    if flag.hint?.isNone then .ok { given := [(flag, none)] }
    else .ok { given := [], pending := some (flag, written) }
  | some flag, _ :: value =>
    if flag.hint?.isNone then .error (.unexpectedValue written)
    else .ok { given := [(flag, some (String.ofList value))] }

/-- The options that stand behind a dash. -/
def Request.ofOption : List Char → Except UsageError Request
  | '-' :: word => ofWord word
  | letters => ofLetters letters

/-- Arguments behind some options. -/
def Arguments.give (args : Arguments) (given : List (Flag × Option String)) : Arguments :=
  { args with given := given ++ args.given }

/-- Read words as arguments. A dash alone is no option. -/
def Arguments.read : List String → Except UsageError Arguments
  | [] => .ok {}
  | word :: rest =>
    match word.toList with
    | ['-', '-'] => .ok { free := rest }
    | '-' :: c :: letters =>
      match Request.ofOption (c :: letters) with
      | .error e => .error e
      | .ok ⟨given, none⟩ => (read rest).map (·.give given)
      | .ok ⟨given, some (flag, name)⟩ =>
        match rest with
        | [] => .error (.missingValue name)
        | value :: rest => (read rest).map (·.give (given ++ [(flag, some value)]))
    | _ => (read rest).map fun args => { args with free := word :: args.free }

/-- The arguments that words give. No option may be given twice. -/
def Arguments.parse (words : List String) : Except UsageError Arguments := do
  let args ← read words
  match Flag.all.find? (1 < args.count ·) with
  | some flag => .error (.repeated flag.word)
  | none => .ok args

/-- The parser of the command line. -/
def OptionParser.standard : OptionParser where
  parse := Arguments.parse
  message := UsageError.message
  usage heading := s!"{heading}\n\nOptions:\n" ++ String.join (Flag.all.map Flag.usageLine)

end CollationRules.CommandLine
