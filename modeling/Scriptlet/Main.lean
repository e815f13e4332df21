import Scriptlet.Command.Run

/-!
# The command

Reads the file that the arguments name and does what they ask for. This is the only module that
touches files and outputs; what is printed and returned is decided by `Command.run`.
-/

namespace Scriptlet.Command

/-- The number of an error of the system, which reports it with either sign. -/
def errorNumber (code : UInt32) : UInt32 := min code (0 - code)

/-- What an error of the system means for the reader of a file. -/
def ReadError.ofSystem : IO.Error → ReadError
  | .noFileOrDirectory .. => missing
  | .inappropriateType file code details =>
    if errorNumber code = 20 then notDirectory
    else if errorNumber code = 21 then directory
    else other (toString (IO.Error.inappropriateType file code details))
  | .invalidArgument file code details =>
    if errorNumber code = 36 then nameTooLong
    else other (toString (IO.Error.invalidArgument file code details))
  | e => other (toString e)

/-- The contents of a file as a text. -/
def readSource (path : String) : IO (Except ReadError String) := do
  try
    match String.fromUTF8? (← IO.FS.readBinFile path) with
    | some text => return .ok text
    | none => return .error .notText
  catch e => return .error (.ofSystem e)

end Scriptlet.Command

open Scriptlet.Command in
/-- Runs the command. -/
def main (args : List String) : IO UInt32 := do
  let contents ←
    match Options.ofArgs? args with
    | some o => readSource o.file
    | none => pure (.error .missing)
  let outcome := run args fun _ => contents
  (← IO.getStdout).putStr outcome.output
  (← IO.getStderr).putStr outcome.errors
  return outcome.code
