import Scriptlet.Command.Run

/-!
# The program

The command line on the files, the environment and the output streams of the system.
-/

namespace Scriptlet

/-- The file error that a code of the system stands for. The system gives its codes as they are or
negated. -/
def FileError.ofCode? (code : UInt32) : Option FileError :=
  if code = 2 ∨ code = -2 then some missing
  else if code = 20 ∨ code = -20 then some notDirectory
  else if code = 21 ∨ code = -21 then some isDirectory
  else if code = 36 ∨ code = -36 then some nameTooLong
  else none

/-- A failure of the system as a file error. -/
def FileError.ofSystem (error : IO.Error) : FileError :=
  let known :=
    match error with
    | .noFileOrDirectory _ code _ => ofCode? code
    | .inappropriateType _ code _ => ofCode? code
    | .invalidArgument _ code _ => ofCode? code
    | _ => none
  known.getD (other (toString error))

/-- Files of the system. -/
instance : FileAccess IO where
  read path := do
    match ← (IO.FS.readBinFile path).toBaseIO with
    | .ok content =>
      match String.fromUTF8? content with
      | some text => return .ok text
      | none => return .error .notText
    | .error error => return .error (.ofSystem error)
  write path content := do
    match ← (IO.FS.writeFile path content).toBaseIO with
    | .ok () => return .ok ()
    | .error error => return .error (.ofSystem error)

end Scriptlet

open Scriptlet in
/-- Runs the command line and gives its exit code. -/
def main (arguments : List String) : IO UInt32 := do
  let settings ← TraceSettings.ofEnvironment fun name => (IO.getEnv name : IO (Option String))
  let report : Report ← Command.runArguments settings arguments
  (← IO.getStdout).putStr report.out
  (← IO.getStderr).putStr report.err
  return if report.success then 0 else 1
