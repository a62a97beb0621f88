import CollationRules.CommandLine.Parsing
import CollationRules.CommandLine.Run

/-! The command line: it compiles the rule string in a file to markup. -/

namespace CollationRules.CommandLine

/-- The words for an error of the system on a file. -/
def systemMessage : IO.Error → String
  | .noFileOrDirectory .. => "No such file or directory (os error 2)"
  | .inappropriateType .. => "Is a directory (os error 21)"
  | e => toString e

/-- An action, or the words for the error in which it ends. -/
def attempt {α : Type} (action : IO α) : IO (Except String α) := do
  try return .ok (← action)
  catch e => return .error (systemMessage e)

/-- The system that the program runs in. -/
def System.io : System IO where
  read name := attempt do return (← IO.FS.readBinFile name).toList
  write name bytes := attempt (IO.FS.writeBinFile name ⟨bytes.toArray⟩)
  print bytes := attempt do (← IO.getStdout).write ⟨bytes.toArray⟩
  report bytes := attempt do (← IO.getStderr).write ⟨bytes.toArray⟩

end CollationRules.CommandLine

/-- Do what the arguments ask for, for an exit code. -/
def main (args : List String) : IO UInt32 :=
  let words := "tailorc" :: args
  CollationRules.CommandLine.run .io .standard (words.map CollationRules.CommandLine.bytes)
