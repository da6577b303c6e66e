import FrameScript.Proofs.Machine.Relocation

/-!
# Earlier output

A machine never looks at the output that was pending before. If builtins only append, then it does
the same with earlier output in front of its own as without, for whatever code. A run therefore
depends on nothing that came before it, and neither does what it adds to the output.
-/

namespace FrameScript.Machine

/-- The machine with earlier output in front of its own. -/
def behind (m : Machine) (earlier : Output) : Machine :=
  { m with output := earlier ++ m.output }

/-- The same end of a call with earlier output in front. -/
def Stop.behind (stop : Stop) (earlier : Output) : Stop :=
  (stop.1, stop.2.behind earlier)

section

variable {m : Machine} {earlier : Output} {r : Registry}

/-- Earlier output stays in front when a value is popped, if it stays there in what follows. -/
theorem pop_behind {continuation continuation' : Value → Machine → Step}
    (h : ∀ value rest, continuation' value (behind { m with stack := rest } earlier) =
      (continuation value { m with stack := rest }).map (·.behind earlier)) :
    (m.behind earlier).pop continuation' = (m.pop continuation).map (·.behind earlier) :=
  @pop_relocate m id (fun _ ip => ip) earlier _ _ h

/-- Earlier output stays in front when numbers are combined. -/
theorem combine_behind (f : Float → Float → Value) :
    (m.behind earlier).combine f = (m.combine f).map (·.behind earlier) :=
  @combine_relocate m id (fun _ ip => ip) earlier rfl f

/-- Earlier output stays in front when a builtin is called. -/
theorem call_behind (happends : r.OnlyAppends) (site : CallSite) :
    (m.behind earlier).call r site = (m.call r site).map (·.behind earlier) :=
  @call_relocate m id (fun _ ip => ip) earlier rfl r happends site

/-- Earlier output stays in front when a jump is taken. -/
theorem jump_behind (i : Instruction) :
    (m.behind earlier).jump i = (m.jump i).map (·.behind earlier) := by
  unfold jump
  cases i.operand <;> rfl

/-- Earlier output stays in front whatever the instruction is. -/
theorem perform_behind (happends : r.OnlyAppends) (i : Instruction) :
    (m.behind earlier).perform r i = (m.perform r i).map (·.behind earlier) := by
  have hslot : (m.behind earlier).slotOf i = m.slotOf i := rfl
  unfold perform
  rw [hslot]
  cases i.op with
  | add | sub | mul | div | less | greater => exact combine_behind _
  | goto => exact jump_behind i
  | suspend | finish => rfl
  | call =>
    cases i.operand with
    | callee site => exact call_behind happends site
    | _ => rfl
  | constNumber | constBool => cases i.operand <;> rfl
  | getLocal => cases m.slotOf i <;> rfl
  | setLocal =>
    cases m.slotOf i with
    | error fault => rfl
    | ok index => exact pop_behind fun value rest => rfl
  | branch =>
    refine pop_behind fun value rest => ?_
    match value with
    | .number x => rfl
    | .bool true => rfl
    | .bool false => exact jump_behind i

/-- Earlier output stays in front in every step. -/
theorem step_behind (happends : r.OnlyAppends) :
    (m.behind earlier).step r = (m.step r).map (·.behind earlier) := by
  have hsame : (m.behind earlier).function.instructions[(m.behind earlier).ip]? =
      m.function.instructions[m.ip]? := rfl
  unfold step
  rw [hsame]
  cases m.function.instructions[m.ip]? with
  | none => rfl
  | some i => exact perform_behind happends i

/-- A call does the same with earlier output in front. -/
theorem execute_behind (happends : r.OnlyAppends) (fuel : Nat) :
    execute r fuel (m.behind earlier) = (execute r fuel m).map (·.behind earlier) := by
  induction fuel generalizing m with
  | zero => rfl
  | succ fuel ih =>
    rw [execute, execute, step_behind happends]
    cases m.step r with
    | next m' => exact ih
    | stop m' => rfl
    | abort m' fault => rfl

/-- Earlier output stays in front when a machine is resumed, and the call returns if it did. -/
theorem resume_behind (happends : r.OnlyAppends) (fuel : Nat) :
    (m.behind earlier).resume r fuel = (m.resume r fuel).map (·.behind earlier) := by
  have hstatus : (m.behind earlier).status = m.status := rfl
  have hexecute : execute r fuel (behind { m with status := .running } earlier) =
      (execute r fuel { m with status := .running }).map (·.behind earlier) :=
    execute_behind happends fuel
  unfold resume
  rw [hstatus]
  cases m.status with
  | idle | finished => rfl
  | running | suspended => exact hexecute

/-- Whatever a machine did before, it runs a function as a new machine does and adds the same
output to what is pending. -/
theorem run_eq_new (happends : r.OnlyAppends) (m : Machine) (fuel : Nat) (f : Function) :
    m.run r fuel f = (({} : Machine).run r fuel f).map (·.behind m.output) := by
  have hload : m.load f = (({} : Machine).load f).behind m.output :=
    congrArg (fun output => { load {} f with output }) (Output.append_empty m.output).symm
  rw [run, run, hload, execute_behind happends]

end

end FrameScript.Machine
