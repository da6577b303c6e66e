import FrameScript.Proofs.Compiler.Tidy
import FrameScript.Proofs.Simulation.Expressions

/-!
# Compiled statements

While a program is run on its tree, the machine is always at the code of the first task, with an
empty stack and the same variables and output. Each task takes the machine at least one step. A
`break` is matched because its jump leads to the tasks behind its loop.
-/

namespace FrameScript

/-- The code of a statement lies at an index, its `break` statements lead to an exit or out of their
own loops, and its variables have slots. -/
structure Stmt.LiesAt (f : Function) (names : List String) (exit : Option Nat) (start : Nat)
    (s : Stmt) : Prop where
  codeAt : CodeAt f.instructions start (s.code names (operandAt f.instructions) start)
  aimed : s.Aimed (operandAt f.instructions) exit start
  declared : ∀ v ∈ s.mentioned, v ∈ names

/-- The same for several statements. -/
structure Stmt.BodyLiesAt (f : Function) (names : List String) (exit : Option Nat) (start : Nat)
    (body : List Stmt) : Prop where
  codeAt : CodeAt f.instructions start (bodyCode names (operandAt f.instructions) start body)
  aimed : BodyAimed (operandAt f.instructions) exit start body
  declared : ∀ v ∈ bodyMentioned body, v ∈ names

/-- The code from an index on does what is left of a program. The exit is where the innermost loop
among the tasks ends. -/
inductive Follows (f : Function) (names : List String) : Option Nat → List Task → Nat → Prop where
  | finish {ip : Nat} (h : f.instructions[ip]? = some { op := .finish }) :
    Follows f names none [] ip
  | statement {exit : Option Nat} {s : Stmt} {tasks : List Task} {ip : Nat}
    (lies : s.LiesAt f names exit ip) (rest : Follows f names exit tasks (ip + s.size)) :
    Follows f names exit (.statement s :: tasks) ip
  | again {exit : Option Nat} {condition : Expr} {body : List Stmt} {tasks : List Task}
    {start ip : Nat} (back : f.instructions[ip]? = some { op := .goto, operand := .jump start })
    (lies : (Stmt.loop condition body).LiesAt f names exit start)
    (rest : Follows f names exit tasks (start + (Stmt.loop condition body).size)) :
    Follows f names (some (start + (Stmt.loop condition body).size))
      (.again condition body :: tasks) ip

section

variable {f : Function} {names : List String} {exit : Option Nat} {s : Stmt} {body : List Stmt}
  {tasks : List Task} {condition : Expr} {start ip target : Nat}

/-- The first statement lies at the start, and the others behind its code. -/
theorem Stmt.BodyLiesAt.cons (h : BodyLiesAt f names exit start (s :: body)) :
    s.LiesAt f names exit start ∧ BodyLiesAt f names exit (start + s.size) body := by
  obtain ⟨hcode, haimed, hnames⟩ := h
  rw [bodyCode, codeAt_append, length_code] at hcode
  exact ⟨⟨hcode.1, haimed.1, fun v hv => hnames v (List.mem_append_left _ hv)⟩,
    hcode.2, haimed.2, fun v hv => hnames v (List.mem_append_right _ hv)⟩

/-- Statements are done before the tasks behind them. -/
theorem Follows.block (hbody : Stmt.BodyLiesAt f names exit start body)
    (h : Follows f names exit tasks (start + Stmt.bodySize body)) :
    Follows f names exit (body.map .statement ++ tasks) start := by
  induction body generalizing start with
  | nil => exact h
  | cons s body ih =>
    obtain ⟨hfirst, hrest⟩ := hbody.cons
    rw [Stmt.bodySize, ← Nat.add_assoc] at h
    exact .statement hfirst (ih hrest h)

/-- The tasks behind the innermost loop follow at the exit. -/
theorem Follows.leaveLoop (h : Follows f names (some target) tasks ip) :
    ∃ exit, Follows f names exit (Task.leaveLoop tasks) target := by
  generalize hexit : some target = exit at h
  induction h with
  | finish => cases hexit
  | statement _ _ ih => exact ih hexit
  | again _ _ rest =>
    cases hexit
    exact ⟨_, rest⟩

/-- The body of an `if` statement lies behind the condition and its branch. -/
theorem Stmt.LiesAt.cond (h : (Stmt.cond condition body).LiesAt f names exit start) :
    BodyLiesAt f names exit (start + condition.size + 1) body := by
  obtain ⟨hcode, haimed, hnames⟩ := h
  rw [code, codeAt_append, codeAt_cons, Expr.length_code] at hcode
  exact ⟨hcode.2.2, haimed, fun v hv => hnames v (List.mem_append_right _ hv)⟩

/-- The body of a loop lies behind the condition, with the end of the loop as its exit, and then the
jump back. -/
theorem Stmt.LiesAt.loop (h : (Stmt.loop condition body).LiesAt f names exit start) :
    BodyLiesAt f names (some (start + (Stmt.loop condition body).size))
        (start + condition.size + 1) body ∧
      f.instructions[start + condition.size + 1 + bodySize body]? =
        some { op := .goto, operand := .jump start } := by
  obtain ⟨hcode, haimed, hnames⟩ := h
  rw [code, codeAt_append, codeAt_cons, codeAt_append, codeAt_cons, Expr.length_code,
    length_bodyCode] at hcode
  obtain ⟨-, -, hinner, hback, -⟩ := hcode
  have hend : start + (Stmt.loop condition body).size =
      start + condition.size + 1 + bodySize body + 1 := by
    rw [size]
    omega
  rw [hend]
  exact ⟨⟨hinner, haimed, fun v hv => hnames v (List.mem_append_right _ hv)⟩, hback⟩

end

/-- A program that is run on its tree and a machine agree on all that can be seen of them. -/
structure Agrees (names : List String) (s : Interpreter) (m : Machine) : Prop where
  status_eq : m.status = s.status
  output_eq : m.output = s.output
  slots : Slots names s.store m.locals

/-- The machine is between two statements of a function. -/
structure Between (f : Function) (names : List String) (s : Interpreter) (m : Machine) : Prop
    extends Agrees names s m where
  function_eq : m.function = f
  stack_eq : m.stack = []

/-- The machine is about to do what is left to do in the tree. -/
structure Matches (f : Function) (names : List String) (s : Interpreter) (m : Machine) : Prop
    extends Between f names s m where
  follows : ∃ exit, Follows f names exit s.tasks m.ip

/-- The machine does what a task leads to, in at least one step. -/
inductive Machine.Answers (r : Registry) (f : Function) (names : List String) (m : Machine) :
    Interpreter.Step → Prop where
  | next {s : Interpreter} {n : Nat} {m' : Machine} (pos : 0 < n) (steps : Steps r n m m')
    (matched : Matches f names s m') : Answers r f names m (.next s)
  | stop {s : Interpreter} {n : Nat} {m' m'' : Machine} (steps : Steps r n m m')
    (last : m'.step r = .stop m'') (matched : Matches f names s m'') :
    Answers r f names m (.stop s)
  | abort {s : Interpreter} {fault : Fault} {n : Nat} {m' m'' : Machine} (steps : Steps r n m m')
    (last : m'.step r = .abort m'' fault) (output_eq : m''.output = s.output)
    (slots : Slots names s.store m''.locals) : Answers r f names m (.abort s fault)

namespace Machine.Answers

variable {r : Registry} {f : Function} {names : List String} {m m' : Machine} {s : Interpreter}
  {n : Nat}

/-- Some steps of the machine may come before those that answer a task. -/
theorem of_steps {step : Interpreter.Step} (h : m'.Answers r f names step)
    (hsteps : Steps r n m m') : m.Answers r f names step := by
  cases h with
  | next pos steps matched => exact .next (Nat.add_pos_left pos n) (hsteps.trans steps) matched
  | stop steps last matched => exact .stop (hsteps.trans steps) last matched
  | abort steps last output_eq slots => exact .abort (hsteps.trans steps) last output_eq slots

/-- A task that only moves on is answered by one step. -/
theorem of_step (hstep : m.step r = .next m') (h : Matches f names s m') :
    m.Answers r f names (.next s) :=
  .next Nat.one_pos (.single hstep) h

/-- A task that aborts is answered by an instruction that comes to the same fault. -/
theorem of_faults {output : Output} {fault : Fault} (hslots : Slots names s.store m.locals)
    (h : Faults r m output fault) : m.Answers r f names (.abort { s with output } fault) := by
  obtain ⟨n, m', m'', hsteps, hlast, hlocals, houtput⟩ := h
  refine .abort hsteps hlast houtput ?_
  rw [hlocals]
  exact hslots

/-- A calculation and what is done with its result are answered by code for one behind code for the
other. -/
theorem after {α : Type} {first : Attempt α} {size : Nat} {stack : α → List Value}
    {continuation : α → Interpreter → Interpreter.Step} (hslots : Slots names s.store m.locals)
    (h : m.Computes r size stack first)
    (hnext : ∀ a output, first = (output, .ok a) →
      Answers r f names { m with ip := m.ip + size, stack := stack a, output }
        (continuation a { s with output })) :
    m.Answers r f names (s.after first continuation) := by
  cases h with
  | error faults => exact of_faults hslots faults
  | ok steps => exact (hnext _ _ rfl).of_steps steps

/-- A condition and the jump behind it lead to the tasks that the condition chooses. -/
theorem test {condition : Expr} {target : Nat} {yes no : List Task} {part : List Instruction}
    (h : Between f names s m) (hnames : ∀ v ∈ condition.mentioned, v ∈ names)
    (hcode : CodeAt f.instructions m.ip
      (condition.code names ++ { op := .branch, operand := .jump target } :: part))
    (hyes : ∃ exit, Follows f names exit yes (m.ip + condition.size + 1))
    (hno : ∃ exit, Follows f names exit no target) :
    m.Answers r f names (s.test r condition yes no) := by
  obtain ⟨⟨hstatus, houtput, hslots⟩, hfunction, hstack⟩ := h
  rw [codeAt_append, codeAt_cons, Expr.length_code] at hcode
  obtain ⟨hcondition, hbranch, -⟩ := hcode
  rw [← hfunction] at hcondition hbranch
  have hcomputes := condition.computes (r := r) hcondition hslots hnames
  rw [houtput, hstack] at hcomputes
  refine after hslots hcomputes fun value output _ => ?_
  have hstep :
      Machine.step { m with ip := m.ip + condition.size, stack := [value], output } r = _ :=
    (step_eq hbranch).trans (perform_branch rfl)
  cases value with
  | number x => exact .abort .refl hstep rfl hslots
  | bool b =>
    cases b with
    | true => exact of_step hstep ⟨⟨⟨hstatus, rfl, hslots⟩, hfunction, rfl⟩, hyes⟩
    | false => exact of_step hstep ⟨⟨⟨hstatus, rfl, hslots⟩, hfunction, rfl⟩, hno⟩

/-- An assignment or a declaration stores the value of its expression. -/
theorem store {e : Expr} {name : String} {tasks : List Task} (h : Between f names s m)
    (hname : name ∈ names) (hnames : ∀ v ∈ e.mentioned, v ∈ names)
    (hcode : CodeAt f.instructions m.ip
      (e.code names ++ [{ op := .setLocal, operand := .slot (names.idxOf name) }]))
    (htasks : ∃ exit, Follows f names exit tasks (m.ip + (e.size + 1))) :
    m.Answers r f names (s.after (e.value r s.store s.output) fun value s =>
      .next { s.assign name value with tasks }) := by
  obtain ⟨⟨hstatus, houtput, hslots⟩, hfunction, hstack⟩ := h
  rw [codeAt_append, codeAt_cons, Expr.length_code] at hcode
  obtain ⟨hvalue, hset, -⟩ := hcode
  rw [← hfunction] at hvalue hset
  have hcomputes := e.computes (r := r) hvalue hslots hnames
  rw [houtput, hstack] at hcomputes
  refine after hslots hcomputes fun value output _ => ?_
  have hslot : names.idxOf name < m.locals.size := by
    rw [hslots.size_eq]
    exact List.idxOf_lt_length_of_mem hname
  have hstep : Machine.step { m with ip := m.ip + e.size, stack := [value], output } r = _ :=
    (step_eq hset).trans (perform_setLocal hslot rfl)
  exact of_step hstep ⟨⟨⟨hstatus, rfl, hslots.set hname value⟩, hfunction, rfl⟩, htasks⟩

/-- A call statement has the effect of the call. -/
theorem call {name : String} {args : List Expr} {tasks : List Task} (h : Between f names s m)
    (hnames : ∀ v ∈ Expr.listMentioned args, v ∈ names)
    (hcode : CodeAt f.instructions m.ip (Expr.listCode names args ++
      [⟨.call, .callee { name, arity := args.length, producesValue := false }⟩]))
    (htasks : ∃ exit, Follows f names exit tasks (m.ip + (Expr.listSize args + 1))) :
    m.Answers r f names (s.after
      ((Expr.listValues r s.store args s.output).andThen (callResult r name)) fun _ s =>
        .next { s with tasks }) := by
  obtain ⟨⟨hstatus, houtput, hslots⟩, hfunction, hstack⟩ := h
  rw [codeAt_append, codeAt_cons, Expr.length_listCode] at hcode
  obtain ⟨hargs, hcall, -⟩ := hcode
  rw [← hfunction] at hargs hcall
  have hvalues := Expr.listComputes (r := r) args hargs hslots hnames
  rw [houtput] at hvalues
  have hcomputes : m.Computes r (Expr.listSize args + 1) (fun _ => m.stack)
      ((Expr.listValues r s.store args s.output).andThen (callResult r name)) := by
    refine hvalues.andThen fun values output hresult => ?_
    rw [← Expr.length_of_listValues args hresult] at hcall
    exact computes_dropped hcall rfl
  generalize (Expr.listValues r s.store args s.output).andThen (callResult r name) = result
    at hcomputes
  cases hcomputes with
  | error faults => exact of_faults hslots faults
  | ok steps =>
    exact .next (Nat.succ_pos _) steps ⟨⟨⟨hstatus, rfl, hslots⟩, hfunction, hstack⟩, htasks⟩

/-- A loop tests its condition and goes on with its body and a task to test it again, or behind the
loop. -/
theorem loop {condition : Expr} {body : List Stmt} {tasks : List Task} {exit : Option Nat}
    (h : Between f names s m) (hlies : (Stmt.loop condition body).LiesAt f names exit m.ip)
    (hrest : Follows f names exit tasks (m.ip + (Stmt.loop condition body).size)) :
    m.Answers r f names
      (s.test r condition (body.map .statement ++ .again condition body :: tasks) tasks) := by
  obtain ⟨hbody, hback⟩ := hlies.loop
  have hend : m.ip + condition.size + 1 + Stmt.bodySize body + 1 =
      m.ip + (Stmt.loop condition body).size := by
    rw [Stmt.size]
    omega
  have hcode := hlies.codeAt
  rw [Stmt.code, hend] at hcode
  exact test h (fun v hv => hlies.declared v (List.mem_append_left _ hv)) hcode
    ⟨_, .block hbody (.again hback hlies hrest)⟩ ⟨exit, hrest⟩

/-- An `if` tests its condition and goes on with its body or behind it. -/
theorem cond {condition : Expr} {body : List Stmt} {tasks : List Task} {exit : Option Nat}
    (h : Between f names s m) (hlies : (Stmt.cond condition body).LiesAt f names exit m.ip)
    (hrest : Follows f names exit tasks (m.ip + (Stmt.cond condition body).size)) :
    m.Answers r f names (s.test r condition (body.map .statement ++ tasks) tasks) := by
  have hbody := hlies.cond
  have hend : m.ip + condition.size + 1 + Stmt.bodySize body =
      m.ip + (Stmt.cond condition body).size := by
    rw [Stmt.size]
    omega
  have hcode := hlies.codeAt
  rw [Stmt.code, hend] at hcode
  rw [← hend] at hrest
  have hno := hrest
  rw [hend] at hno
  exact test h (fun v hv => hlies.declared v (List.mem_append_left _ hv)) hcode
    ⟨exit, .block hbody hrest⟩ ⟨exit, hno⟩

end Machine.Answers

/-- The machine answers every task of a tidy program. -/
theorem Matches.answers {r : Registry} {f : Function} {names : List String} {s : Interpreter}
    {m : Machine} (h : Matches f names s m) : m.Answers r f names (s.step r) := by
  obtain ⟨hbetween, exit, hfollows⟩ := h
  obtain ⟨⟨hstatus, houtput, hslots⟩, hfunction, hstack⟩ := id hbetween
  rcases s with ⟨tasks, store, status, output⟩
  cases hfollows with
  | @finish ip hcode =>
    have hmatches : Matches f names ⟨[], store, .finished, output⟩ { m with status := .finished } :=
      ⟨⟨⟨rfl, houtput, hslots⟩, hfunction, hstack⟩, none, .finish hcode⟩
    rw [← hfunction] at hcode
    have hstep : m.step r = .stop { m with status := .finished } := Machine.step_eq hcode
    exact .stop .refl hstep hmatches
  | @again exit condition body tasks start ip hback hlies hrest =>
    rw [← hfunction] at hback
    have hstep : m.step r = .next { m with ip := start } := Machine.step_eq hback
    have hstart : Between f names ⟨.again condition body :: tasks, store, status, output⟩
        { m with ip := start } := ⟨⟨hstatus, houtput, hslots⟩, hfunction, hstack⟩
    exact (Machine.Answers.loop hstart hlies hrest).of_steps (.single hstep)
  | @statement exit statement tasks ip hlies hrest =>
    cases statement with
    | call name args => exact .call hbetween hlies.declared hlies.codeAt ⟨exit, hrest⟩
    | assign name e | declare name e =>
      exact .store hbetween (hlies.declared name List.mem_cons_self)
        (fun v hv => hlies.declared v (List.mem_cons_of_mem _ hv)) hlies.codeAt ⟨exit, hrest⟩
    | cond condition body => exact .cond hbetween hlies hrest
    | loop condition body => exact .loop hbetween hlies hrest
    | leave =>
      obtain ⟨target, rfl, haim⟩ := hlies.aimed
      have hcode := (codeAt_cons.mp hlies.codeAt).1
      rw [haim, ← hfunction] at hcode
      have hstep : m.step r = .next { m with ip := target } := Machine.step_eq hcode
      exact .of_step hstep
        ⟨⟨⟨hstatus, houtput, hslots⟩, hfunction, hstack⟩, hrest.leaveLoop⟩
    | suspend =>
      have hcode := (codeAt_cons.mp hlies.codeAt).1
      rw [← hfunction] at hcode
      have hstep : m.step r = .stop { m with ip := m.ip + 1, status := .suspended } :=
        Machine.step_eq hcode
      exact .stop .refl hstep ⟨⟨⟨rfl, houtput, hslots⟩, hfunction, hstack⟩, exit, hrest⟩

end FrameScript
