import JaiFrontend.CommandLine
/-!
# The program

Reads the arguments and the file that they name, and prints the answer.
-/

namespace JaiFrontend

def readText? (file : String) : IO (Option String) := do
  try
    let bytes ← IO.FS.readBinFile file
    return String.fromUTF8? bytes
  catch _ => return none

def answerArguments (arguments : List String) : IO Outcome := do
  match Command.ofArgs? arguments with
  | none => return Command.usageFailure
  | some command =>
    let source? ← match command.file? with
      | some file => readText? file
      | none => pure none
    return command.execute source?

end JaiFrontend

def main (arguments : List String) : IO UInt32 := do
  let outcome ← JaiFrontend.answerArguments arguments
  let out ← IO.getStdout
  let err ← IO.getStderr
  out.putStr outcome.output
  out.flush
  err.putStr outcome.errors
  return UInt32.ofNat outcome.code
