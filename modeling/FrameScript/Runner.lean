import FrameScript.Compiler
import FrameScript.Config
import FrameScript.Host
import FrameScript.Program.Loader
import FrameScript.Registry.Standard

/-!
# The runner

A run reads its settings and its script, compiles the script, and then plays one frame a tick until
the script ends, a fault aborts it, or the tick limit is reached. Console lines and log lines go to
the same place, in the order in which they come up.
-/

namespace FrameScript

namespace Runner

/-- What a run is started with. -/
structure Invocation where
  /-- The settings file: none at all, its text, or why it cannot be read. -/
  settings : Option (Except ReadFailure String)
  arguments : List String
  /-- A log filter that overrides the one of the settings. -/
  filter : Option String := none

/-- How a run ends. -/
inductive Ending where
  | success
  /-- A failure, with what it was about and its causes, outermost first. -/
  | failure (context : String) (causes : List String)
  /-- A tick rate so high that there is no time between two ticks. -/
  | noInterval
  deriving DecidableEq, Repr

/-- The exit code of an ending. -/
def Ending.code : Ending → Nat
  | .success => 0
  | .failure _ _ => 1
  | .noInterval => 101

/-- Causes with their numbers. -/
def numberedCauses : Nat → List String → List String
  | _, [] => []
  | index, cause :: rest =>
    ("    " ++ toString index ++ ": " ++ cause) :: numberedCauses (index + 1) rest

/-- The lines that explain an ending. -/
def Ending.explanation : Ending → List String
  | .success => []
  | .failure context [] => ["Error: " ++ context]
  | .failure context [cause] => ["Error: " ++ context, "", "Caused by:", "    " ++ cause]
  | .failure context causes =>
    ["Error: " ++ context, "", "Caused by:"] ++ numberedCauses 0 causes
  | .noInterval => ["panic"]

/-- The part of the program under which a run logs. -/
def target : String :=
  "tickscript"

/-- The part of the program under which programs are loaded. -/
def loaderTarget : String :=
  "tickscript_scripting::lang::program"

/-- The part of the program under which programs are compiled. -/
def compilerTarget : String :=
  "tickscript_scripting::lang::compiler"

/-- The part of the program under which programs run. -/
def machineTarget : String :=
  "tickscript_scripting::lang::vm"

/-- The remark that a `break` was forgotten. -/
def supersededEntry (index : Nat) : Log.Entry where
  level := .warn
  target := compilerTarget
  message := "break superseded before its loop ended; target stays unresolved index=" ++
    toString index

/-- The settings of an invocation. Without a file they have their defaults. -/
def Invocation.config (invocation : Invocation) : Except ConfigError Config :=
  match invocation.settings with
  | none => .ok {}
  | some file => (Config.ofFile file).2

/-- The log filter of an invocation: given from outside, or by the settings if there are any. -/
def Invocation.logFilter (invocation : Invocation) : Log.Filter :=
  .ofWord <| invocation.filter.getD <|
    match invocation.config with
    | .ok config => config.logLevel
    | .error _ => "info"

/-- The settings of an invocation, with the script that the first argument names. -/
def Invocation.effectiveConfig (invocation : Invocation) : Except ConfigError Config :=
  invocation.config.map fun config =>
    match invocation.arguments with
    | [] => config
    | script :: _ => { config with script }

/-- A script that is ready to be played. -/
structure Ready where
  config : Config
  filter : Log.Filter
  function : Function

/-- The end of a text that consists of whole lines, cut into lines. -/
def wholeLines (text : String) : List String :=
  (text.splitOn "\n").dropLast

/-- What the settings and log lines of a run begin with, and the effective settings. -/
def begin (invocation : Invocation) : List String × Except Ending Config :=
  match invocation.effectiveConfig with
  | .error error => ([], .error (.failure "failed to load tickscript.txt" error.chain))
  | .ok config => (invocation.logFilter.lines config.summary, .ok config)

/-- The wording of an error and of the errors inside it. -/
def scriptCauses (error : ScriptError) : List String :=
  error.message :: error.sources.map ScriptError.message

/-- The log lines about blocks that the text did not end. -/
def openBlockEntries (blocks : Nat) : List Log.Entry :=
  if blocks = 0 then []
  else [⟨.debug, loaderTarget,
    "closing blocks left open at end of input blocks=" ++ toString blocks⟩]

/-- The log lines about a compiled program. -/
def compiledEntries (result : Compilation) : List Log.Entry :=
  result.superseded.map supersededEntry ++
    [⟨.debug, compilerTarget, "compiled program instructions=" ++
      toString result.function.instructions.size ++ " locals=" ++
      toString result.function.localCount⟩] ++
    result.function.unresolvedJumps.map fun index => ⟨.warn, target,
      "jump at " ++ fourDigits index ++ " has no target and will fault if taken"⟩

/-- Compiles a program that is loaded and dumps what the settings ask for. -/
def compile (config : Config) (filter : Log.Filter) (registry : Registry) (program : Program) :
    List String × Except Ending Ready :=
  let tree := if config.dumpTree then program.toDocument.pretty.splitOn "\n" else []
  match program.compilation registry with
  | .error refusal =>
    (tree ++ filter.lines (refusal.superseded.map supersededEntry),
      .error (.failure ("failed to compile " ++ config.script) [refusal.error.message]))
  | .ok result =>
    let function := result.function
    let listing := if config.dumpCode then wholeLines (function.listing config.script) else []
    let start : Log.Entry := ⟨.info, target, "Running " ++ config.script ++ " (" ++
      toString function.instructions.size ++ " instructions)"⟩
    (tree ++ filter.lines (compiledEntries result) ++ listing ++ filter.lines [start],
      if config.interval = 0 then .error .noInterval else .ok { config, filter, function })

/-- Loads and compiles a script of which the text or the failure to read it is known. -/
def prepare (config : Config) (filter : Log.Filter) (registry : Registry)
    (script : Except ReadFailure String) : List String × Except Ending Ready :=
  match script with
  | .error failure =>
    ([], .error (.failure ("failed to read " ++ config.script) [failure.message]))
  | .ok source =>
    let builtins := filter.lines
      [⟨.debug, target, "Builtins: " ++ ", ".intercalate registry.names⟩]
    match Program.read source with
    | .error error =>
      (builtins, .error (.failure ("failed to load " ++ config.script) (scriptCauses error)))
    | .ok unfinished =>
      let (lines, result) := compile config filter registry unfinished.finish
      (builtins ++ filter.lines (openBlockEntries unfinished.blocks.length) ++ lines, result)

/-- The text of a point in diagnostics. -/
def pointText (point : Float × Float) : String :=
  "(" ++ Decimal.diagnostic.text point.1 ++ ", " ++ Decimal.diagnostic.text point.2 ++ ")"

/-- The log lines about a triangle. -/
def triangleEntries (tick : Nat) (triangle : Triangle) : List Log.Entry :=
  [⟨.info, target, "draw " ++ triangle.text ++ " tick=" ++ toString tick⟩,
   ⟨.debug, target, "triangle corners vertices=[" ++
      ", ".intercalate (triangle.corners.map pointText) ++ "]"⟩]

/-- The log line of the machine about a fault at an instruction. -/
def abortEntries (frame : Frame) (ip : Nat) : List Log.Entry :=
  match frame.fault with
  | none => []
  | some fault => [⟨.warn, machineTarget, "script aborted: " ++
      (ScriptError.fault fault).message ++ " ip=" ++ toString ip⟩]

/-- The lines of a frame. -/
def frameLines (filter : Log.Filter) (frame : Frame) (ip : Nat) : List String :=
  filter.lines (abortEntries frame ip) ++ frame.console ++
    filter.lines (frame.triangles.flatMap (triangleEntries frame.tick) ++
      [⟨.debug, target, "tick done tick=" ++ toString frame.tick ++ " status=" ++
        frame.status.name⟩])

/-- Whether and how the run ends with a frame, and the log line about that. A fault comes before the
end of the script, and that before the tick limit. -/
def endingOf? (config : Config) (frame : Frame) (ticks : Nat) : Option (Log.Entry × Ending) :=
  match frame.fault with
  | some fault => some (⟨.error, target, "Script aborted on tick " ++ toString frame.tick ++ ": " ++
      (ScriptError.fault fault).message⟩, .failure "script aborted" [])
  | none =>
    if frame.isLast then
      some (⟨.info, target, "Script finished after " ++ toString frame.tick ++ " ticks"⟩, .success)
    else if config.maxTicks ≠ 0 ∧ config.maxTicks ≤ ticks then
      some (⟨.info, target, "Tick limit reached (" ++ toString config.maxTicks ++ "), stopping"⟩,
        .success)
    else none

/-- The lines of a frame that was just played, and how the run ends if it does. -/
def report (ready : Ready) (played : Frame × Host) : List String × Option Ending :=
  let (frame, host) := played
  let lines := frameLines ready.filter frame host.machine.ip
  match endingOf? ready.config frame host.ticks with
  | none => (lines, none)
  | some (entry, ending) => (lines ++ ready.filter.lines [entry], some ending)

/-- Reports frames from one that was just played to the end of the run, with a bound on the number
of frames and on the steps of each. -/
def playFrom (ready : Ready) (fuel : Nat) : Nat → Frame × Host → Option (List String × Ending)
  | 0, _ => none
  | frames + 1, played =>
    match report ready played with
    | (lines, some ending) => some (lines, ending)
    | (lines, none) => do
      let next ← played.2.tick fuel
      let (more, ending) ← playFrom ready fuel frames next
      return (lines ++ more, ending)

/-- Plays a script from its first frame to the end of the run. -/
def play (ready : Ready) (registry : Registry) (fuel frames : Nat) :
    Option (List String × Ending) := do
  let first ← Host.start { registry } fuel ready.function
  playFrom ready fuel frames first

/-- A whole run: the lines it writes and how it ends. Scripts are read by their paths. -/
def run (invocation : Invocation) (readScript : String → Except ReadFailure String)
    (fuel frames : Nat) : Option (List String × Ending) :=
  match begin invocation with
  | (lines, .error ending) => some (lines, ending)
  | (lines, .ok config) =>
    match prepare config invocation.logFilter Registry.standard (readScript config.script) with
    | (more, .error ending) => some (lines ++ more, ending)
    | (more, .ok ready) => do
      let (rest, ending) ← play ready Registry.standard fuel frames
      return (lines ++ more ++ rest, ending)

end Runner

end FrameScript
