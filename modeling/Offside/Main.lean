/-
The command line program.
-/
import Offside.Command.Run
import Offside.Text.IdentifierRanges

namespace Offside

/-- An error by the number that the machine has for it, which may come with a minus sign. -/
def FileError.ofNumber (code : UInt32) (words : String) : FileError :=
  let number := code.toInt32.toInt.natAbs
  if number = 20 then .notDirectory
  else if number = 21 then .isDirectory
  else if number = 36 then .nameTooLong
  else .other number words

/-- What an error of the machine means for a file. -/
def FileError.ofMachine : IO.Error → FileError
  | .noFileOrDirectory _ _ _ => .notFound
  | .permissionDenied _ _ _ => .denied
  | .inappropriateType _ code words => ofNumber code words
  | .invalidArgument _ code words => ofNumber code words
  | .otherError code words => ofNumber code words
  | error => .other 0 error.toString

/-- The machine that the program runs on. -/
def hostMachine : Machine IO where
  environment? name := IO.getEnv name
  holds path := do
    try
      let _ ← IO.FS.Handle.mk path .read
      pure true
    catch error =>
      match FileError.ofMachine error with
      | .notFound => pure false
      | .notDirectory => pure false
      | _ => pure true
  bytes path := do
    try
      let content ← IO.FS.readBinFile path
      pure (.ok content)
    catch error => pure (.error (FileError.ofMachine error))

end Offside

def main (arguments : List String) : IO UInt32 := do
  let started ← IO.monoNanosNow
  let report ← Offside.runProgram Offside.hostMachine arguments
  IO.print report.output
  let finished ← IO.monoNanosNow
  IO.eprint (report.errorText ((finished - started) / 1000))
  pure (UInt32.ofNat report.code)
