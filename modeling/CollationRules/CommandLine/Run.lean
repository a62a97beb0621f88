import CollationRules.CommandLine.Job
import CollationRules.Text.Utf8

/-! A whole run of the command line, in any system that reads and writes files. -/

namespace CollationRules.CommandLine

/-- What a program calls on to read and write. Each call fails with the words for an error, or does
all that it is called for. -/
structure System (m : Type → Type) where
  /-- The bytes of a file. -/
  read : (name : String) → m (Except String (List UInt8))
  /-- Write a file, in place of the one that is there. -/
  write : (name : String) → (bytes : List UInt8) → m (Except String Unit)
  /-- Write to the standard output. -/
  print : (bytes : List UInt8) → m (Except String Unit)
  /-- Write to the standard error. -/
  report : (bytes : List UInt8) → m (Except String Unit)

/-- The bytes of a text. -/
def bytes (text : String) : List UInt8 := Text.encode text.toList

/-- The words for a file whose bytes are no UTF-8. -/
def notTextMessage : String := "stream did not contain valid UTF-8"

/-- The exit code of a run that fails. -/
def failureCode : UInt32 := 1

/-- The exit code for arguments that ask for nothing. -/
def usageCode : UInt32 := 64

/-- The exit code of a program that panics. -/
def panicCode : UInt32 := 101

section

variable {m : Type → Type} [Monad m] (sys : System m)

namespace System

/-- The text of a file. -/
def readText (name : String) : m (Except String (List Char)) := do
  match ← sys.read name with
  | .error message => return .error message
  | .ok found =>
    match Text.decode? found with
    | some text => return .ok text
    | none => return .error notTextMessage

/-- Write a text to the file that is named for it, or to the standard output. -/
def deliver (output : Option String) (text : List Char) : m (Except String Unit) :=
  match output with
  | some name => sys.write name (Text.encode text)
  | none => sys.print (Text.encode text)

/-- Say something on the standard error, and go on. A program panics that cannot. -/
def complain (text : String) (next : m UInt32) : m UInt32 := do
  match ← sys.report (bytes text) with
  | .ok () => next
  | .error _ => return panicCode

/-- Print a text at the end of a run. A program panics that cannot. -/
def showText (text : String) (code : UInt32) : m UInt32 := do
  match ← sys.print (bytes text) with
  | .ok () => return code
  | .error _ => return panicCode

end System

/-- The run of one job, for its exit code. The output is known before anything is written. -/
def Job.run (job : Job) : m UInt32 := do
  match ← sys.readText job.input with
  | .error message => sys.complain (job.fileComplaint message) (return failureCode)
  | .ok source =>
    match job.markup? source with
    | none => return panicCode
    | some (.error failure) =>
      sys.complain (job.report source failure) (sys.complain job.complaint (return failureCode))
    | some (.ok text) =>
      match ← sys.deliver job.output text with
      | .ok () => return 0
      | .error message => sys.complain (job.fileComplaint message) (return failureCode)

/-- The run of a program with some arguments, for its exit code. The first argument is the name of
the program. It panics without a name, and if an argument is no UTF-8. -/
def run (parser : OptionParser) (vector : List (List UInt8)) : m UInt32 :=
  match vector.mapM Text.decode? with
  | none | some [] => return panicCode
  | some (program :: words) =>
    let usage := parser.usage s!"Usage: {String.ofList program} [OPTIONS] INPUT" ++ "\n"
    match Command.parse parser (words.map String.ofList) with
    | .ok (.compile job) => job.run sys
    | .ok .usage => sys.showText usage 0
    | .error e => sys.complain (parser.message e ++ "\n") (sys.showText usage usageCode)

end
end CollationRules.CommandLine
