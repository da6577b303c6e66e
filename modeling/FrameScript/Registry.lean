import FrameScript.Output
import FrameScript.ScriptError
import FrameScript.Text.Shown

/-!
# Builtins

The functions that a host offers to scripts. Each has a fixed number of arguments and says whether
it returns a value, so that calls are checked before a program runs.
-/

namespace FrameScript

/-- What a builtin does: it sees and may change the pending output, takes its arguments, and returns
a value, nothing, or an error. -/
abbrev Action : Type :=
  Output → List Value → Output × Except ScriptError (Option Value)

/-- A function of the host. -/
structure Builtin where
  name : String
  arity : Nat
  returnsValue : Bool
  action : Action

/-- How diagnostics show a builtin. -/
def Builtin.diagnostic (b : Builtin) : String :=
  "Builtin \x7b name: " ++ Text.shown b.name ++ ", arity: " ++ toString b.arity ++
    ", returns_value: " ++ Document.truthText b.returnsValue ++ ", .. \x7d"

/-- The builtins that scripts may call, with at most one for a name. -/
structure Registry where
  builtins : List Builtin := []

namespace Registry

/-- The builtin of a name. -/
def find? (r : Registry) (name : String) : Option Builtin :=
  r.builtins.find? (·.name == name)

/-- Adds a builtin, which takes the place of one of the same name. -/
def register (r : Registry) (b : Builtin) : Registry where
  builtins := b :: r.builtins.filter (·.name != b.name)

/-- All names, in the order of their characters. -/
def names (r : Registry) : List String :=
  (r.builtins.map (·.name)).mergeSort fun a b => decide (a ≤ b)

/-- Checks a call and resolves it. -/
def resolve (r : Registry) (name : String) (argumentCount : Nat) (producesValue : Bool) :
    Except ScriptError CallSite :=
  match r.find? name with
  | none => .error (.unknownFunction name)
  | some b =>
    if b.arity ≠ argumentCount then .error (.arityMismatch name b.arity argumentCount)
    else if producesValue && !b.returnsValue then .error (.noReturnValue name)
    else .ok { name := b.name, arity := b.arity, producesValue }

/-- Calls the builtin of a name. -/
def call (r : Registry) (name : String) (output : Output) (args : List Value) :
    Output × Except ScriptError (Option Value) :=
  match r.find? name with
  | none => (output, .error (.unknownFunction name))
  | some b => b.action output args

end Registry

end FrameScript
