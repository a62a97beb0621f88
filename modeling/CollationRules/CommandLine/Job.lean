import CollationRules.Collation.Element
import CollationRules.CommandLine.Options
import CollationRules.Report.Sections

/-! What a command line asks for, and the compilation that it stands for. -/

namespace CollationRules.CommandLine

open Markup (Spacing)

/-- One file to compile. -/
structure Job where
  input : String
  /-- The file to write, in place of the standard output. -/
  output : Option String
  kind : List Char
  base : Option Base
  /-- Whether to leave out the element of the collation. -/
  fragment : Bool
  /-- The spaces of one indentation, in place of a tab. -/
  spaces : Option Nat
deriving DecidableEq, Repr

/-- What a command line asks for. -/
inductive Command
  | compile (job : Job)
  | usage
deriving DecidableEq, Repr

/-- The number that decimal digits stand for, after a plus sign or none, if it fits in 64 bits. -/
def readCount? (text : List Char) : Option Nat :=
  let digits :=
    match text with
    | '+' :: rest => rest
    | _ => text
  if digits.isEmpty || !digits.all Char.isDigit then none
  else
    let value := digits.foldl (fun n c => n * 10 + (c.toNat - '0'.toNat)) 0
    if value < UInt64.size then some value else none

/-- The base that options name. The type of a base needs a base. -/
def baseOf (args : Arguments) : Except UsageError (Option Base) :=
  match args.value? .base, args.value? .baseType with
  | some source, some kind => .ok (some ⟨source.toList, kind.toList⟩)
  | some source, none => .ok (some { source := source.toList })
  | none, some _ => .error (.required "--base")
  | none, none => .ok none

/-- The number of spaces that options ask for. -/
def spacesOf (args : Arguments) : Except UsageError (Option Nat) :=
  match args.value? .spaces with
  | none => .ok none
  | some text =>
    match readCount? text.toList with
    | some count => .ok (some count)
    | none => .error (.unrecognized s!"--spaces {text}")

/-- The one input file. -/
def inputOf (args : Arguments) : Except UsageError String :=
  match args.free with
  | [] => .error (.required "INPUT")
  | [input] => .ok input
  | _ :: extra :: _ => .error (.unrecognized extra)

/-- What the words of a command line ask for. Help is given whatever else is missing. -/
def Command.parse (parser : OptionParser) (words : List String) : Except UsageError Command := do
  let args ← parser.parse words
  if args.has .help then return .usage
  let input ← inputOf args
  let base ← baseOf args
  let spaces ← spacesOf args
  return .compile {
    input, base, spaces
    output := args.value? .output
    kind := ((args.value? .type).map String.toList).getD standardKind
    fragment := args.has .fragment }

namespace Job

/-- The layout of the output, unless its indentation is too long for memory. -/
def layout? (job : Job) : Option Layout :=
  match job.spaces with
  | none => some {}
  | some count =>
    let indent := Spacing.spaces count
    if indent.fits then some { indent } else none

/-- The markup for the text of the input file, unless it is too long for memory. -/
def markup? (job : Job) (source : List Char) : Option (Except Failure (List Char)) := do
  let layout ← job.layout?
  if job.fragment then
    let (result, _) ← ({ layout } : Compiler).compile? source
    return result
  else
    let collation : Collation := { kind := job.kind, base := job.base, compiler := { layout } }
    let (result, _) ← collation.render? [source]
    return result

/-- What is said about the text of an input file that does not compile. -/
def report (job : Job) (source : List Char) (failure : Failure) : String :=
  failure.diagnostic.report.render ⟨job.input, source⟩

/-- What is said about an input file that does not compile. -/
def complaint (job : Job) : String := s!"fatal: failed to compile `{job.input}`\n"

/-- What is said about a file that is not read or not written. -/
def fileComplaint (job : Job) (message : String) : String := s!"fatal: {job.input}: {message}\n"

end Job
end CollationRules.CommandLine
