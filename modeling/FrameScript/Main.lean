import FrameScript.Runner

/-!
# The command line

Runs the script that the settings or the first argument name, one frame a tick. This module reads
files, prints lines and waits between ticks; what to print and when to stop is decided by the
runner.
-/

namespace FrameScript.CommandLine

/-- The failure behind an error of the system. -/
def failureOf : IO.Error → ReadFailure
  | .noFileOrDirectory _ _ _ => .missing
  | .inappropriateType _ code _ => if code = 21 then .isDirectory else .notDirectory
  | .invalidArgument _ code _ => if code = 22 then .nameWithNul else .nameTooLong
  | .userError _ => .notText
  | error => .other (toString error)

/-- The text of a file. -/
def readText (path : String) : IO (Except ReadFailure String) := do
  try
    return .ok (← IO.FS.readFile path)
  catch error =>
    return .error (failureOf error)

/-- The settings file, if there is one. -/
def readSettings : IO (Option (Except ReadFailure String)) := do
  match ← readText "tickscript.txt" with
  | .error .missing => return none
  | file => return some file

/-- Prints lines and shows them at once. -/
def printLines (lines : List String) : IO Unit := do
  for line in lines do
    IO.println line
  (← IO.getStdout).flush

/-- Explains an ending and gives its exit code. -/
def endWith (ending : Runner.Ending) : IO UInt32 := do
  for line in ending.explanation do
    IO.eprintln line
  return UInt32.ofNat ending.code

/-- More steps than a tick can take. -/
def manySteps : Nat :=
  1 <<< 62

/-- Reports frames to the end of the run and waits after each for the next tick. -/
partial def playOn (ready : Runner.Ready) (played : Frame × Host) : IO UInt32 := do
  let (lines, ending?) := Runner.report ready played
  printLines lines
  match ending? with
  | some ending => endWith ending
  | none =>
    IO.sleep (UInt32.ofNat (ready.config.interval / 1000000))
    match played.2.tick manySteps with
    | none => return 1
    | some next => playOn ready next

/-- Runs a script with the arguments of the command line. -/
def run (arguments : List String) : IO UInt32 := do
  let settings ← readSettings
  let filter ← IO.getEnv "RUST_LOG"
  let invocation : Runner.Invocation := { settings, arguments, filter }
  let (lines, result) := Runner.begin invocation
  printLines lines
  match result with
  | .error ending => endWith ending
  | .ok config =>
    let script ← readText config.script
    let (lines, result) :=
      Runner.prepare config invocation.logFilter Registry.standard script
    printLines lines
    match result with
    | .error ending => endWith ending
    | .ok ready =>
      match Host.start { registry := Registry.standard } manySteps ready.function with
      | none => return 1
      | some first => playOn ready first

end FrameScript.CommandLine

/-- The program. -/
def main (arguments : List String) : IO UInt32 :=
  FrameScript.CommandLine.run arguments
