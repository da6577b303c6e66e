import FrameScript.Text.Inert

/-!
# Logging

Events that a run reports: a level, the part of the program that reports, and a message. A filter
lets pass what is at least as urgent as its level.
-/

namespace FrameScript

namespace Log

/-- How urgent an event is. -/
inductive Level where
  | error
  | warn
  | info
  | debug
  deriving DecidableEq, Repr

/-- The name of a level. -/
def Level.name : Level → String
  | .error => "ERROR"
  | .warn => "WARN"
  | .info => "INFO"
  | .debug => "DEBUG"

/-- The position of a level, the most urgent one first. -/
def Level.rank : Level → Nat
  | .error => 0
  | .warn => 1
  | .info => 2
  | .debug => 3

/-- An event. -/
structure Entry where
  level : Level
  target : String
  message : String
  deriving DecidableEq, Repr

/-- An event with its level alone. -/
def Entry.brief (entry : Entry) : String :=
  entry.level.name ++ " " ++ entry.message

/-- An event with its level and target, as a terminal shows it. -/
def Entry.text (entry : Entry) : String :=
  entry.level.name ++ " " ++ entry.target ++ ": " ++ Text.inert entry.message

/-- The least urgent level that passes, or nothing passes. -/
structure Filter where
  level : Option Level
  deriving DecidableEq, Repr

/-- The filter that a word names, in any case. No word lets errors pass; a word that names no level
lets nothing pass. -/
def Filter.ofWord (word : String) : Filter where
  level :=
    match String.ofList (word.toList.map Char.toLower) with
    | "" => some .error
    | "error" => some .error
    | "warn" => some .warn
    | "info" => some .info
    | "debug" => some .debug
    | "trace" => some .debug
    | _ => none

/-- Whether an event passes. -/
def Filter.passes (filter : Filter) (entry : Entry) : Bool :=
  match filter.level with
  | none => false
  | some level => entry.level.rank ≤ level.rank

/-- The lines that a filter lets pass. -/
def Filter.lines (filter : Filter) (entries : List Entry) : List String :=
  (entries.filter filter.passes).map Entry.text

end Log

end FrameScript
