import FrameScript.Registry

/-!
# Standard builtins

Printing, drawing, and a little arithmetic. Arguments are checked from left to right, and nothing is
printed or drawn unless all of them are there and of the right kind.
-/

namespace FrameScript

namespace Builtin

/-- The number at a position of the arguments, counted from zero. -/
def numberArgument (name : String) (args : List Value) (position : Nat) :
    Except ScriptError Float :=
  match args[position]? with
  | none => .error (.fault (.missingArgument name (position + 1)))
  | some value =>
    match value.number? with
    | none => .error (.fault (.argumentKind name (position + 1) value))
    | some x => .ok x

/-- A builtin that computes a number from one number. -/
def unary (name : String) (f : Float → Float) : Builtin where
  name
  arity := 1
  returnsValue := true
  action output args := (output, do
    let x ← numberArgument name args 0
    return some (.number (f x)))

/-- A builtin that computes a number from two numbers. -/
def binary (name : String) (f : Float → Float → Float) : Builtin where
  name
  arity := 2
  returnsValue := true
  action output args := (output, do
    let x ← numberArgument name args 0
    let y ← numberArgument name args 1
    return some (.number (f x y)))

/-- The smaller number; of a number and something that is none, the number. -/
def smaller (x y : Float) : Float :=
  if x < y || y.isNaN then x else y

/-- The larger number; of a number and something that is none, the number. -/
def larger (x y : Float) : Float :=
  if x > y || y.isNaN then x else y

/-- Prints the text of its first argument. -/
def print : Builtin where
  name := "Print"
  arity := 1
  returnsValue := false
  action output
    | [] => (output, .error (.fault .nothingToPrint))
    | value :: _ => (output.print value.text, .ok none)

/-- The triangle that six arguments describe, with a displayable colour. -/
def triangleOf (args : List Value) : Except ScriptError Triangle := do
  let x ← numberArgument "DrawTriangle" args 0
  let y ← numberArgument "DrawTriangle" args 1
  let radius ← numberArgument "DrawTriangle" args 2
  let red ← numberArgument "DrawTriangle" args 3
  let green ← numberArgument "DrawTriangle" args 4
  let blue ← numberArgument "DrawTriangle" args 5
  return { x, y, radius, color := Color.clamped { red, green, blue } }

/-- Draws a triangle. -/
def drawTriangle : Builtin where
  name := "DrawTriangle"
  arity := 6
  returnsValue := false
  action output args :=
    match triangleOf args with
    | .error error => (output, .error error)
    | .ok triangle => (output.draw triangle, .ok none)

/-- The standard builtins. -/
def standard : List Builtin :=
  [print, drawTriangle, unary "Abs" Float.abs, unary "Sqrt" Float.sqrt, binary "Min" smaller,
   binary "Max" larger, binary "Pow" Float.pow]

end Builtin

/-- The registry of the standard builtins. -/
def Registry.standard : Registry :=
  Builtin.standard.foldl Registry.register {}

end FrameScript
