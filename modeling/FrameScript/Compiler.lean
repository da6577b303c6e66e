import FrameScript.Program
import FrameScript.Registry

/-!
# Compiling programs

A program becomes one function in a single walk over its tree. All variables share one scope, and
slots count declarations. A jump forward is emitted without a target and aimed once the target is
known. Of the `break` statements that wait for a loop to end only the last is remembered.
-/

namespace FrameScript

/-- A function under construction. -/
structure Draft where
  code : Array Instruction := #[]
  /-- The declared variables; the position of one is its slot. -/
  names : List String := []
  /-- The jump of the last `break` that waits for the end of a loop. -/
  pending : Option Nat := none
  /-- The jumps that were forgotten because another `break` came first. -/
  superseded : List Nat := []

/-- An error of compilation, with the jumps that were forgotten before. -/
structure Refusal where
  error : ScriptError
  superseded : List Nat

/-- The opcode of an operator. -/
def BinaryOp.opcode : BinaryOp → Opcode
  | .add => .add
  | .sub => .sub
  | .mul => .mul
  | .div => .div
  | .less => .less
  | .greater => .greater

namespace Draft

/-- The index of the next instruction. -/
def here (d : Draft) : Nat :=
  d.code.size

/-- Adds an instruction. -/
def emit (d : Draft) (op : Opcode) (operand : Operand := .absent) : Draft :=
  { d with code := d.code.push { op, operand } }

/-- Aims the jump at an index at a target. -/
def aim (d : Draft) (index target : Nat) : Draft :=
  { d with code := d.code.modify index (·.aimedAt target) }

/-- The slot of a variable. -/
def slot (d : Draft) (name : String) : Except ScriptError Nat :=
  match d.names.idxOf? name with
  | some index => .ok index
  | none => .error (.undefinedVariable name)

/-- Declares a variable and stores its initial value. -/
def declare (d : Draft) (name : String) : Except ScriptError Draft :=
  if d.names.contains name then .error (.duplicateVariable name)
  else .ok ({ d with names := d.names ++ [name] }.emit .setLocal (.slot d.names.length))

/-- Stores a value in a declared variable. -/
def store (d : Draft) (name : String) : Except ScriptError Draft := do
  let index ← d.slot name
  return d.emit .setLocal (.slot index)

/-- Adds the jump of a `break`, which takes the place of one that still waits. -/
def leave (d : Draft) : Draft :=
  { d.emit .goto with
    pending := some d.here
    superseded := d.superseded ++ d.pending.toList }

/-- Ends a loop here: the jump that waits leaves it. -/
def endLoop (d : Draft) : Draft :=
  match d.pending with
  | none => d
  | some index => { d.aim index d.here with pending := none }

mutual

/-- Compiles an expression, which leaves its value on the stack. -/
def expression (r : Registry) : Expr → Draft → Except ScriptError Draft
  | .number x, d => .ok (d.emit .constNumber (.number x))
  | .bool b, d => .ok (d.emit .constBool (.bool b))
  | .variable name, d => do
    let index ← d.slot name
    return d.emit .getLocal (.slot index)
  | .binary left op right, d => do
    let d ← expression r left d
    let d ← expression r right d
    return d.emit op.opcode
  | .call name args, d => do
    let site ← r.resolve name args.length true
    let d ← arguments r args d
    return d.emit .call (.callee site)

/-- Compiles arguments from left to right. -/
def arguments (r : Registry) : List Expr → Draft → Except ScriptError Draft
  | [], d => .ok d
  | arg :: args, d => do
    let d ← expression r arg d
    arguments r args d

end

/-- Compiles a call whose result is dropped. -/
def callStatement (r : Registry) (name : String) (args : List Expr) (d : Draft) :
    Except ScriptError Draft := do
  let site ← r.resolve name args.length false
  let d ← arguments r args d
  return d.emit .call (.callee site)

/-- Notes at an error which jumps were forgotten before it. -/
def refuse (d : Draft) (result : Except ScriptError Draft) : Except Refusal Draft :=
  result.mapError fun error => { error, superseded := d.superseded }

mutual

/-- Compiles a statement. -/
def statement (r : Registry) : Stmt → Draft → Except Refusal Draft
  | .call name args, d => d.refuse (callStatement r name args d)
  | .assign name value, d => d.refuse do (← expression r value d).store name
  | .declare name initializer, d => d.refuse do (← expression r initializer d).declare name
  | .cond condition body, d => do
    let d ← d.refuse (expression r condition d)
    let exit := d.here
    let d ← block r body (d.emit .branch)
    return d.aim exit d.here
  | .loop condition body, d => do
    let start := d.here
    let d ← d.refuse (expression r condition d)
    let exit := d.here
    let d ← block r body (d.emit .branch)
    let d := d.emit .goto (.jump start)
    return (d.aim exit d.here).endLoop
  | .leave, d => .ok d.leave
  | .suspend, d => .ok (d.emit .suspend)

/-- Compiles statements in order. -/
def block (r : Registry) : List Stmt → Draft → Except Refusal Draft
  | [], d => .ok d
  | s :: body, d => do
    let d ← statement r s d
    block r body d

end

end Draft

/-- A compiled program: the function, and what is known of its variables and `break` statements. -/
structure Compilation where
  function : Function
  /-- The variables in the order of their slots. -/
  names : List String
  /-- The jump of the last `break` that no loop end followed. -/
  pending : Option Nat
  /-- The jumps that were forgotten because another `break` came first. -/
  superseded : List Nat

/-- The function that a draft becomes at the end of a program. -/
def Draft.function (d : Draft) : Function where
  instructions := (d.emit .finish).code
  localCount := d.names.length

/-- Compiles a program from scratch. -/
def Program.compilation (p : Program) (r : Registry) : Except Refusal Compilation := do
  let d ← Draft.block r p.statements {}
  return {
    function := d.function
    names := d.names
    pending := d.pending
    superseded := d.superseded }

/-- Compiles a program. -/
def Program.compile (p : Program) (r : Registry) : Except ScriptError Function :=
  match p.compilation r with
  | .error refusal => .error refusal.error
  | .ok result => .ok result.function

/-- A compiler that answers questions about the last program. A failure leaves nothing to answer. -/
structure Compiler where
  registry : Registry
  names : List String := []
  pendingBreak : Option Nat := none

namespace Compiler

/-- The compiler without what it knows of the last program. -/
def reset (c : Compiler) : Compiler where
  registry := c.registry

/-- The draft that a walk goes on from, with all that the compiler knows. -/
def draft (c : Compiler) : Draft where
  names := c.names
  pending := c.pendingBreak

/-- Compiles a program. What was compiled before is forgotten first. -/
def compile (c : Compiler) (p : Program) : Except ScriptError Function × Compiler :=
  match Draft.block c.registry p.statements c.reset.draft with
  | .error refusal => (.error refusal.error, c.reset)
  | .ok d => (.ok d.function, { c.reset with names := d.names, pendingBreak := d.pending })

/-- The slot of a variable of the last program that compiled. -/
def slotOf? (c : Compiler) (name : String) : Option Nat :=
  c.names.idxOf? name

end Compiler

/-- The jumps that a compilation forgot, in the order in which it did. -/
def Program.superseded (p : Program) (r : Registry) : List Nat :=
  match p.compilation r with
  | .error refusal => refusal.superseded
  | .ok result => result.superseded

end FrameScript
