import Dataflow.CommandLine.Run

/-!
# The program

Reads the arguments, the pipeline file and the environment, and prints the outcome.
-/

namespace Dataflow.CommandLine

/-- The number of a failure. Some failures come with it negated. -/
def failureNumber (code : UInt32) : UInt32 :=
  min code (0 - code)

/-- The cause of a failure to read a file. -/
def FileFault.ofError : IO.Error → FileFault
  | .noFileOrDirectory .. => .missing
  | .permissionDenied .. => .other "Permission denied (os error 13)"
  | .inappropriateType _ code _ => if failureNumber code = 21 then .isADirectory else .notADirectory
  | e@(.invalidArgument _ code _) =>
    if failureNumber code = 36 then .nameTooLong else .other (toString e)
  | e => .other (toString e)

/-- Reads the text of a file. -/
def readContent (path : String) : IO (Except FileFault String) := do
  try
    return textOfBytes (← IO.FS.readBinFile path)
  catch e => return .error (.ofError e)

/-- Carries out a request. -/
def carryOut (r : Request) : IO Outcome := do
  let content ← match r.file? with
    | some path => readContent path
    | none => pure (.ok "")
  let maxIterations ← IO.getEnv Settings.maxIterationsVariable
  let disabledRules ← IO.getEnv Settings.disabledRulesVariable
  let environment (name : String) : Option String :=
    if name = Settings.maxIterationsVariable then maxIterations
    else if name = Settings.disabledRulesVariable then disabledRules
    else none
  return r.perform environment content

end Dataflow.CommandLine

open Dataflow.CommandLine in
/-- Runs the program. -/
def main (args : List String) : IO UInt32 := do
  let outcome ← match parse args with
    | some r => carryOut r
    | none => pure .usageError
  IO.print outcome.stdout
  IO.eprint outcome.stderr
  return outcome.exitCode
