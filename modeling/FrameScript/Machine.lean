import FrameScript.Registry

/-!
# The machine

A stack machine runs one function. It stops where the function suspends and goes on from there when
it is resumed, so that a host can run a script one frame at a time. A fault ends the run and leaves
the machine as the failing instruction left it.
-/

namespace FrameScript

/-- Where a machine is in a run. -/
inductive Status where
  /-- Nothing was run yet. -/
  | idle
  /-- Inside a run. -/
  | running
  /-- Waiting to be resumed. -/
  | suspended
  /-- At the end of the program, or aborted. -/
  | finished
  deriving DecidableEq, Repr

/-- The name of a status. -/
def Status.name : Status → String
  | .idle => "Idle"
  | .running => "Running"
  | .suspended => "Suspended"
  | .finished => "Finished"

/-- A machine and its pending output. -/
structure Machine where
  function : Function := {}
  ip : Nat := 0
  /-- The stack, its top first. -/
  stack : List Value := []
  locals : Array Value := #[]
  status : Status := .idle
  output : Output := {}

namespace Machine

/-- What one instruction leads to. -/
inductive Step where
  /-- The run goes on. -/
  | next (m : Machine)
  /-- The run stops, at least for now. -/
  | stop (m : Machine)
  /-- The run aborts. -/
  | abort (m : Machine) (fault : Fault)

/-- Goes on to the next instruction. -/
def advance (m : Machine) : Step :=
  .next { m with ip := m.ip + 1 }

/-- Pushes a value and goes on. -/
def push (m : Machine) (value : Value) : Step :=
  { m with stack := value :: m.stack }.advance

/-- Pops a value and goes on with it. -/
def pop (m : Machine) (continuation : Value → Machine → Step) : Step :=
  match m.stack with
  | [] => .abort m .underflow
  | value :: rest => continuation value { m with stack := rest }

/-- Pops a number and goes on with it. -/
def popNumber (m : Machine) (continuation : Float → Machine → Step) : Step :=
  m.pop fun value m =>
    match value.number? with
    | none => .abort m (.notNumber value)
    | some x => continuation x m

/-- Combines two numbers. The right one is on top of the left one. -/
def combine (m : Machine) (f : Float → Float → Value) : Step :=
  m.popNumber fun right m => m.popNumber fun left m => m.push (f left right)

/-- The slot that an instruction names, if there is such a slot. -/
def slotOf (m : Machine) (i : Instruction) : Except Fault Nat :=
  match i.operand with
  | .slot index => if index < m.locals.size then .ok index else .error (.noSlot index m.locals.size)
  | _ => .error (.malformed i)

/-- Jumps to the target that an instruction names. -/
def jump (m : Machine) (i : Instruction) : Step :=
  match i.operand with
  | .jump target => .next { m with ip := target }
  | .absent => .abort m (.noTarget i.op)
  | _ => .abort m (.malformed i)

/-- The fault of a run that an error of a builtin becomes. -/
def faultOf : ScriptError → Fault
  | .fault cause => cause
  | error => .other error.message

/-- Calls a builtin with the topmost values, the last argument on top. -/
def call (m : Machine) (r : Registry) (site : CallSite) : Step :=
  if m.stack.length < site.arity then .abort m (.callUnderflow site.name)
  else
    let args := (m.stack.take site.arity).reverse
    let (output, result) := r.call site.name m.output args
    let m := { m with stack := m.stack.drop site.arity, output }
    match result with
    | .error error => .abort m (faultOf error)
    | .ok value? =>
      if site.producesValue then
        match value? with
        | none => .abort m (.noValue site.name)
        | some value => m.push value
      else m.advance

/-- Carries out one instruction. -/
def perform (m : Machine) (r : Registry) (i : Instruction) : Step :=
  match i.op with
  | .call =>
    match i.operand with
    | .callee site => m.call r site
    | _ => .abort m (.malformed i)
  | .add => m.combine fun x y => .number (x + y)
  | .sub => m.combine fun x y => .number (x - y)
  | .mul => m.combine fun x y => .number (x * y)
  | .div => m.combine fun x y => .number (x / y)
  | .less => m.combine fun x y => .bool (x < y)
  | .greater => m.combine fun x y => .bool (x > y)
  | .constNumber =>
    match i.operand with
    | .number x => m.push (.number x)
    | _ => .abort m (.malformed i)
  | .constBool =>
    match i.operand with
    | .bool b => m.push (.bool b)
    | _ => .abort m (.malformed i)
  | .setLocal =>
    match m.slotOf i with
    | .error fault => .abort m fault
    | .ok index => m.pop fun value m =>
      { m with locals := m.locals.setIfInBounds index value }.advance
  | .getLocal =>
    match m.slotOf i with
    | .error fault => .abort m fault
    | .ok index => m.push (m.locals.getD index .zero)
  | .branch => m.pop fun value m =>
    match value with
    | .bool true => m.advance
    | .bool false => m.jump i
    | .number _ => .abort m (.notBool value)
  | .goto => m.jump i
  | .suspend => .stop { m with ip := m.ip + 1, status := .suspended }
  | .finish => .stop { m with status := .finished }

/-- Carries out the instruction at the instruction pointer. -/
def step (m : Machine) (r : Registry) : Step :=
  match m.function.instructions[m.ip]? with
  | none => .abort m (.pastEnd m.ip)
  | some i => m.perform r i

/-- The end of a call: the new status or a fault, and the machine. -/
abbrev Stop : Type :=
  Except Fault Status × Machine

/-- Runs until the machine stops, for at most the given number of steps. -/
def execute (r : Registry) : Nat → Machine → Option Stop
  | 0, _ => none
  | fuel + 1, m =>
    match m.step r with
    | .next m => execute r fuel m
    | .stop m => some (.ok m.status, m)
    | .abort m fault => some (.error fault, { m with status := .finished })

/-- A machine at the beginning of a function. Output that is pending stays pending. -/
def load (m : Machine) (f : Function) : Machine where
  function := f
  locals := Array.replicate f.localCount .zero
  status := .running
  output := m.output

/-- Runs a function from its beginning, whatever the machine did before. -/
def run (m : Machine) (r : Registry) (fuel : Nat) (f : Function) : Option Stop :=
  execute r fuel (m.load f)

/-- Goes on with a suspended run. An idle or finished machine stays as it is. -/
def resume (m : Machine) (r : Registry) (fuel : Nat) : Option Stop :=
  match m.status with
  | .idle | .finished => some (.ok m.status, m)
  | .running | .suspended => execute r fuel { m with status := .running }

end Machine

end FrameScript
