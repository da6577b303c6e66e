import FrameScript.Proofs.Budgets
import FrameScript.Proofs.Machine.Instructions

/-!
# Running programs without a machine

A program is run on its tree. What is left to do is a list of tasks; a loop whose condition holds
leaves a task behind its body that tests it again. All variables live in one store and hold zero at
first. Stops and faults are those of the machine.
-/

namespace FrameScript

/-- What a calculation leaves behind: the output, and a result or a fault. -/
abbrev Attempt (α : Type) : Type :=
  Output × Except Fault α

/-- Goes on with the result, if there is one. -/
def Attempt.andThen {α β : Type} (first : Attempt α) (next : α → Output → Attempt β) : Attempt β :=
  match first with
  | (output, .error fault) => (output, .error fault)
  | (output, .ok a) => next a output

/-- Two calculations in turn succeed when both do. -/
theorem Attempt.andThen_eq_ok {α β : Type} {first : Attempt α} {next : α → Output → Attempt β}
    {output : Output} {b : β} : first.andThen next = (output, .ok b) ↔
      ∃ middle a, first = (middle, .ok a) ∧ next a middle = (output, .ok b) := by
  rcases first with ⟨middle, result⟩
  cases result with
  | error fault => simp [andThen]
  | ok a =>
    constructor
    · intro h
      exact ⟨middle, a, rfl, h⟩
    · rintro ⟨_, _, heq, h⟩
      cases heq
      exact h

/-- What an operator gives. The right operand is looked at first. -/
def BinaryOp.evaluate (op : BinaryOp) (left right : Value) : Except Fault Value :=
  match right.number?, left.number? with
  | none, _ => .error (.notNumber right)
  | some _, none => .error (.notNumber left)
  | some y, some x => .ok (op.apply x y)

/-- What a builtin answers. -/
def callResult (r : Registry) (name : String) (args : List Value) (output : Output) :
    Attempt (Option Value) :=
  match r.call name output args with
  | (output, .error error) => (output, .error (Machine.faultOf error))
  | (output, .ok value?) => (output, .ok value?)

/-- The value that a builtin returns. -/
def callValue (r : Registry) (name : String) (args : List Value) (output : Output) :
    Attempt Value :=
  (callResult r name args output).andThen fun value? output =>
    match value? with
    | none => (output, .error (.noValue name))
    | some value => (output, .ok value)

namespace Expr

mutual

/-- The value of an expression. Operands and arguments are evaluated from left to right. -/
def value (r : Registry) (store : String → Value) : Expr → Output → Attempt Value
  | .number x, output => (output, .ok (.number x))
  | .bool b, output => (output, .ok (.bool b))
  | .variable name, output => (output, .ok (store name))
  | .binary left op right, output =>
    (left.value r store output).andThen fun x output =>
      (right.value r store output).andThen fun y output => (output, op.evaluate x y)
  | .call name args, output =>
    (listValues r store args output).andThen (callValue r name)

/-- The values of several expressions, from left to right. -/
def listValues (r : Registry) (store : String → Value) :
    List Expr → Output → Attempt (List Value)
  | [], output => (output, .ok [])
  | e :: es, output =>
    (e.value r store output).andThen fun x output =>
      (listValues r store es output).andThen fun xs output => (output, .ok (x :: xs))

end

end Expr

/-- What is left to do in a program. -/
inductive Task where
  | statement (s : Stmt)
  /-- The body of a loop has ended. -/
  | again (condition : Expr) (body : List Stmt)

/-- The tasks behind the innermost loop. -/
def Task.leaveLoop : List Task → List Task
  | [] => []
  | .statement _ :: tasks => leaveLoop tasks
  | .again _ _ :: tasks => tasks

/-- A program that is run on its tree. -/
structure Interpreter where
  tasks : List Task
  store : String → Value := fun _ => .zero
  status : Status := .running
  output : Output

namespace Interpreter

/-- What one task leads to. -/
inductive Step where
  | next (s : Interpreter)
  | stop (s : Interpreter)
  | abort (s : Interpreter) (fault : Fault)

/-- Goes on with the result of a calculation, or aborts with its fault. -/
def after {α : Type} (s : Interpreter) (first : Attempt α)
    (continuation : α → Interpreter → Step) : Step :=
  match first with
  | (output, .error fault) => .abort { s with output } fault
  | (output, .ok a) => continuation a { s with output }

/-- Goes on with certain tasks if a condition holds, and with others if it does not. -/
def test (s : Interpreter) (r : Registry) (condition : Expr) (yes no : List Task) : Step :=
  s.after (condition.value r s.store s.output) fun value s =>
    match value with
    | .bool true => .next { s with tasks := yes }
    | .bool false => .next { s with tasks := no }
    | .number _ => .abort s (.notBool value)

/-- The state after a variable got a value. -/
def assign (s : Interpreter) (name : String) (value : Value) : Interpreter :=
  { s with store := fun other => if other = name then value else s.store other }

/-- Carries out the first task. -/
def step (s : Interpreter) (r : Registry) : Step :=
  match s.tasks with
  | [] => .stop { s with status := .finished }
  | .again condition body :: tasks | .statement (.loop condition body) :: tasks =>
    s.test r condition (body.map .statement ++ .again condition body :: tasks) tasks
  | .statement (.cond condition body) :: tasks =>
    s.test r condition (body.map .statement ++ tasks) tasks
  | .statement (.assign name e) :: tasks | .statement (.declare name e) :: tasks =>
    s.after (e.value r s.store s.output) fun value s =>
      .next { s.assign name value with tasks }
  | .statement (.call name args) :: tasks =>
    s.after ((Expr.listValues r s.store args s.output).andThen (callResult r name)) fun _ s =>
      .next { s with tasks }
  | .statement .leave :: tasks => .next { s with tasks := Task.leaveLoop tasks }
  | .statement .suspend :: tasks => .stop { s with tasks, status := .suspended }

/-- The end of a call: the new status or a fault, and the state. -/
abbrev Stop : Type :=
  Except Fault Status × Interpreter

/-- Carries out tasks until one stops or aborts, but at most a number of them. -/
def execute (r : Registry) : Nat → Interpreter → Option Stop
  | 0, _ => none
  | fuel + 1, s =>
    match s.step r with
    | .next s => execute r fuel s
    | .stop s => some (.ok s.status, s)
    | .abort s fault => some (.error fault, { s with status := .finished })

/-- Goes on with a suspended program. A finished one stays as it is. -/
def resume (s : Interpreter) (r : Registry) (fuel : Nat) : Option Stop :=
  match s.status with
  | .idle | .finished => some (.ok s.status, s)
  | .running | .suspended => execute r fuel { s with status := .running }

/-- The end of a call of a run: the first call starts a program, every later one resumes it. -/
def nthStop? (r : Registry) (fuel : Nat) (p : Program) (output : Output) : Nat → Option Stop
  | 0 => execute r fuel { tasks := p.statements.map .statement, output }
  | n + 1 => (nthStop? r fuel p output n).bind fun stop => stop.2.resume r fuel

variable {r : Registry} {p : Program} {output : Output} {s : Interpreter} {n fuel : Nat}

/-- What a task leads to as a part of a call: the next state, or the end of the call. -/
def Step.outcome : Step → Interpreter ⊕ Stop
  | .next s => .inl s
  | .stop s => .inr (.ok s.status, s)
  | .abort s fault => .inr (.error fault, { s with status := .finished })

/-- A call carries out tasks until one ends it. -/
theorem execute_eq_iterate : execute r fuel s = iterate (fun s => (s.step r).outcome) fuel s := by
  induction fuel generalizing s with
  | zero => rfl
  | succ fuel ih =>
    rw [execute, iterate]
    cases s.step r with
    | next s' => exact ih
    | stop s' | abort s' fault => rfl

/-- A call that returns does not need its whole budget. -/
theorem execute_mono : Lasting fun fuel => execute r fuel s := by
  simp only [execute_eq_iterate]
  exact lasting_iterate _ s

/-- A program at rest stays as it is with any budget; every other one carries out tasks. -/
theorem resume_mono : Lasting fun fuel => s.resume r fuel := by
  unfold resume
  cases s.status with
  | idle | finished => exact .const _
  | running | suspended => exact execute_mono

/-- A run whose calls have a larger budget comes to the same ends. -/
theorem nthStop?_mono : Lasting fun fuel => nthStop? r fuel p output n := by
  induction n with
  | zero => exact execute_mono
  | succ n ih => exact ih.bind fun _ => resume_mono

end Interpreter

end FrameScript
