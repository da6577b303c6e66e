import FrameScript.Config.Interval
import FrameScript.Decimal.Reader
import FrameScript.Document
import FrameScript.FileTree
import FrameScript.Log
import FrameScript.Text.Lines
import FrameScript.Text.LowerCase

/-!
# Configuration

Settings of the runner, one `key = value` a line. Blank lines and lines that start with a hash sign
are skipped; a line without an equals sign or with an unknown key is remarked on and has no effect.
The first value that does not fit its key is an error; of several values for one key the last one
counts.
-/

namespace FrameScript

/-- The settings of the runner. -/
structure Config where
  /-- The path of the script. -/
  script : String := "main.tick"
  /-- Ticks per second. -/
  tickRate : Nat := 60
  /-- The number of ticks after which to stop, or zero for no limit. -/
  maxTicks : Nat := 0
  dumpTree : Bool := false
  dumpCode : Bool := false
  logLevel : String := "info"
  deriving DecidableEq, Repr

/-- Why settings cannot be had. -/
inductive ConfigError where
  | unreadable (failure : ReadFailure)
  | invalidValue (key value : String)
  deriving DecidableEq, Repr

namespace ConfigError

/-- The wording of an error. -/
def message : ConfigError → String
  | .unreadable failure => "IO error: " ++ failure.message
  | .invalidValue key value => "Invalid value for '" ++ key ++ "': " ++ value

/-- An error as the runner reports it. -/
def report (error : ConfigError) : String :=
  "Configuration error: " ++ error.message

/-- The wording of an error and of what caused it, outermost first. -/
def chain : ConfigError → List String
  | .unreadable failure => [message (.unreadable failure), failure.message]
  | error => [error.message]

end ConfigError

namespace Config

/-- The part of the program under which settings are logged. -/
def logTarget : String :=
  "tickscript_config"

/-- What a line means. -/
inductive Line where
  | skipped
  /-- A line without an equals sign. -/
  | stray (text : String)
  | option (key value : String)
  deriving DecidableEq, Repr

/-- The meaning of a line of text. Blanks do not count at either end of the line, the key and the
value. -/
def Line.ofText (line : String) : Line :=
  let cs := Text.trimChars line.toList
  match cs with
  | [] => .skipped
  | '#' :: _ => .skipped
  | cs =>
    match cs.dropWhile (· != '=') with
    | [] => .stray (String.ofList cs)
    | _ :: value =>
      .option (String.ofList (Text.trimChars (cs.takeWhile (· != '='))))
        (String.ofList (Text.trimChars value))

/-- A whole number in decimal below a bound. One plus sign may come first. -/
def readNatural? (bound : Nat) (text : String) : Option Nat :=
  let digits := match text.toList with
    | '+' :: rest => rest
    | cs => cs
  if digits.isEmpty || !digits.all Char.isDigit then none
  else
    let n := Decimal.digitsValue digits
    if n < bound then some n else none

/-- A truth value by its name. -/
def readTruth? (text : String) : Option Bool :=
  if text = "true" then some true else if text = "false" then some false else none

/-- A number of ticks per second: at least one, and no more than 32 bits hold. -/
def readRate? (text : String) : Option Nat :=
  (readNatural? (1 <<< 32) text).filter (· ≠ 0)

/-- Changes the setting of a key. The answer is `none` for an unknown key and `some none` for a
value that does not fit. -/
def set (c : Config) (key value : String) : Option (Option Config) :=
  if key = "script" then some (some { c with script := value })
  else if key = "tickrate" then some ((readRate? value).map fun n => { c with tickRate := n })
  else if key = "maxticks" then
    some ((readNatural? (1 <<< 64) value).map fun n => { c with maxTicks := n })
  else if key = "dumpast" then some ((readTruth? value).map fun b => { c with dumpTree := b })
  else if key = "dumpbytecode" then some ((readTruth? value).map fun b => { c with dumpCode := b })
  else if key = "loglevel" then some (some { c with logLevel := Text.lower value })
  else none

/-- The remark on a line, if it deserves one. -/
def Line.remark? (line : Line) : Option Log.Entry :=
  match line with
  | .skipped => none
  | .stray text => some ⟨.warn, logTarget, "Ignoring config line without '=': " ++ text⟩
  | .option key value =>
    if (set {} key value).isNone then
      some ⟨.warn, logTarget, "Unknown config option: " ++ key ++ " = " ++ value⟩
    else none

/-- Applies a line to the settings. -/
def apply (c : Config) (line : Line) : Except ConfigError Config :=
  match line with
  | .option key value =>
    match c.set key value with
    | none => .ok c
    | some none => .error (.invalidValue key value)
    | some (some c) => .ok c
  | _ => .ok c

/-- Applies lines in order up to the first error, with the remarks made on the way. -/
def applyAll (c : Config) : List Line → List Log.Entry × Except ConfigError Config
  | [] => ([], .ok c)
  | line :: lines =>
    match c.apply line with
    | .error error => ([], .error error)
    | .ok c =>
      let (remarks, result) := c.applyAll lines
      (line.remark?.toList ++ remarks, result)

/-- The settings that a text gives, with remarks on its lines. -/
def read (text : String) : List Log.Entry × Except ConfigError Config :=
  ({} : Config).applyAll ((Text.lines text).map Line.ofText)

/-- The settings that a text gives. -/
def parse (text : String) : Except ConfigError Config :=
  (read text).2

/-- The settings of a file, of which the text or the failure to read it is known. -/
def ofFile : Except ReadFailure String → List Log.Entry × Except ConfigError Config
  | .error failure => ([], .error (.unreadable failure))
  | .ok text => read text

/-- Nanoseconds between two ticks. -/
def interval (c : Config) : Nat :=
  Interval.nanoseconds c.tickRate

/-- A summary of the settings. -/
def summary (c : Config) : List Log.Entry :=
  [ "Runner configuration:",
    "  Script: " ++ c.script,
    "  Tick rate: " ++ toString c.tickRate ++ "/s (" ++ Interval.text c.interval ++ " per tick)",
    "  Max ticks: " ++ (if c.maxTicks = 0 then "unlimited" else toString c.maxTicks),
    "  Dump AST: " ++ Document.truthText c.dumpTree,
    "  Dump bytecode: " ++ Document.truthText c.dumpCode,
    "  Log level: " ++ c.logLevel ].map fun message => ⟨.info, logTarget, message⟩

/-- The parts of a path that tell where it leads: parts without a name do not count, and a dot
counts only at the beginning. -/
def pathParts (path : String) : List String :=
  match path.splitOn "/" with
  | [] => []
  | first :: rest =>
    (if path.isEmpty then [] else [if first.isEmpty then "/" else first]) ++
      rest.filter fun part => part ≠ "" ∧ part ≠ "."

/-- Whether two settings are equal, with scripts compared by the parts of their paths. -/
def same (a b : Config) : Bool :=
  { a with script := "" } == { b with script := "" } && pathParts a.script == pathParts b.script

end Config

end FrameScript
