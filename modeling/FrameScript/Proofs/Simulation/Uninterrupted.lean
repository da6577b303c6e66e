import FrameScript.Proofs.Compiler.Deletion
import FrameScript.Proofs.Machine.Relocation
import FrameScript.Proofs.Machine.Safety

/-!
# Machines without suspensions

A machine that runs code from which the suspensions are taken out stands at the same instruction
with the same stack and the same variables. Its output also holds what the host has taken from the
other one in the meantime. Every step of one is a step of the other, and where one suspends the
other stands still.
-/

namespace FrameScript

namespace Machine

/-- The machine at the same place of code without suspensions. Its output begins with what was
taken from this one. -/
def uninterrupted (m : Machine) (taken : Output) : Machine :=
  { m with
    function := m.function.uninterrupted
    ip := keptBefore m.function.instructions m.ip
    output := taken ++ m.output }

/-- The same step of a machine without suspensions. -/
def Step.uninterrupted (step : Step) (taken : Output) : Step :=
  match step with
  | .next m => .next (m.uninterrupted taken)
  | .stop m => .stop (m.uninterrupted taken)
  | .abort m fault => .abort (m.uninterrupted taken) fault

/-- Leaving out the suspensions relocates the machine of a step. -/
theorem Step.uninterrupted_eq_map (step : Step) (taken : Output) :
    step.uninterrupted taken =
      step.map (relocate Function.uninterrupted (fun f => keptBefore f.instructions) taken) := by
  cases step <;> rfl

section

variable {m : Machine} {taken : Output}
  (hnext : keptBefore m.function.instructions (m.ip + 1) =
    keptBefore m.function.instructions m.ip + 1)

include hnext

/-- The machine without suspensions pushes the same value. -/
theorem push_uninterrupted (value : Value) :
    (m.uninterrupted taken).push value = (m.push value).uninterrupted taken := by
  rw [Step.uninterrupted_eq_map]
  exact @push_relocate m _ (fun f => keptBefore f.instructions) taken hnext value

/-- The machine without suspensions combines the same two numbers. -/
theorem combine_uninterrupted (f : Float → Float → Value) :
    (m.uninterrupted taken).combine f = (m.combine f).uninterrupted taken := by
  rw [Step.uninterrupted_eq_map]
  exact @combine_relocate m _ (fun f => keptBefore f.instructions) taken hnext f

/-- The machine without suspensions calls the same builtins. -/
theorem call_uninterrupted {r : Registry} (happends : r.OnlyAppends) (site : CallSite) :
    (m.uninterrupted taken).call r site = (m.call r site).uninterrupted taken := by
  rw [Step.uninterrupted_eq_map]
  exact @call_relocate m _ (fun f => keptBefore f.instructions) taken hnext r happends site

end

/-- An instruction that stays does the same. -/
theorem Within.perform_uninterrupted {r : Registry} (happends : r.OnlyAppends) {f : Function}
    {m : Machine} (h : m.Within f) (taken : Output) {i : Instruction} {stray : Nat → Prop}
    (hi : f.instructions[m.ip]? = some i) (hkept : i.kept = true) (hfits : Fits f stray m.ip i) :
    (m.uninterrupted taken).perform r (i.moved (keptBefore f.instructions)) =
      (m.perform r i).uninterrupted taken := by
  obtain ⟨rfl, -, hheight, hslots⟩ := h
  have hnext := keptBefore_succ hi
  rw [if_pos hkept] at hnext
  cases hfits with
  | number x => exact push_uninterrupted hnext (.number x)
  | bool b => exact push_uninterrupted hnext (.bool b)
  | @get slot hslot =>
    have hsize : slot < m.locals.size := by rwa [hslots]
    have hsize' : slot < (m.uninterrupted taken).locals.size := hsize
    refine (perform_getLocal hsize').trans ?_
    rw [perform_getLocal hsize]
    simp only [Step.uninterrupted, uninterrupted, hnext]
  | @set slot hslot high =>
    rw [← hheight] at high
    obtain ⟨value, rest, hstack⟩ := List.exists_cons_of_length_pos high
    have hsize : slot < m.locals.size := by rwa [hslots]
    have hsize' : slot < (m.uninterrupted taken).locals.size := hsize
    have hstack' : (m.uninterrupted taken).stack = value :: rest := hstack
    refine (perform_setLocal hsize' hstack').trans ?_
    rw [perform_setLocal hsize hstack]
    simp only [Step.uninterrupted, uninterrupted, hnext]
  | binary op high =>
    rw [perform_opcode]
    exact (perform_opcode op).trans (combine_uninterrupted hnext op.apply)
  | call high => exact call_uninterrupted hnext happends _
  | branch high inside level =>
    rw [← hheight] at high
    obtain ⟨value, rest, hstack⟩ := List.exists_cons_of_length_pos high
    have hstack' : (m.uninterrupted taken).stack = value :: rest := hstack
    refine (perform_branch hstack').trans ?_
    rw [perform_branch hstack]
    cases value with
    | number x => rfl
    | bool b =>
      cases b with
      | true => simp only [Step.uninterrupted, uninterrupted, hnext]
      | false => rfl
  | goto inside level => rfl
  | stray h => rfl
  | suspend low => simp [Instruction.kept] at hkept
  | finish low => rfl

/-! ### Steps -/

section

variable {p : Program} {names : List String} {f : Function} {r : Registry} {m m' : Machine}

/-- An instruction that stays is a step of both machines. -/
theorem Within.step_uninterrupted (happends : r.OnlyAppends) (hcompiled : Compiled p names f)
    (h : m.Within f) {i : Instruction} (hi : f.instructions[m.ip]? = some i)
    (hkept : i.kept = true) (taken : Output) :
    (m.uninterrupted taken).step r = (m.step r).uninterrupted taken := by
  have hperform := h.perform_uninterrupted happends taken hi hkept (hcompiled.fits hi)
  obtain ⟨rfl, -, -, -⟩ := h
  have hi' : (m.uninterrupted taken).function.instructions[(m.uninterrupted taken).ip]? =
      some (i.moved (keptBefore m.function.instructions)) := getElem?_uninterruptedCode hi hkept
  rw [step_eq hi, step_eq hi', hperform]

/-- The machine that is resumed once its output is taken. -/
def resumed (m : Machine) : Machine :=
  { m with status := .running, output := {} }

/-- What a step is to the machine without suspensions: the same step, or none at all. -/
inductive Step.Mirrored (r : Registry) (f : Function) (m : Machine) : Step → Prop where
  | next {m' : Machine} (within : m'.Within f) (running : m'.status = .running)
    (step : ∀ taken, (m.uninterrupted taken).step r = .next (m'.uninterrupted taken)) :
    Mirrored r f m (.next m')
  | finish {m' : Machine} (status_eq : m'.status = .finished)
    (step : ∀ taken, (m.uninterrupted taken).step r = .stop (m'.uninterrupted taken)) :
    Mirrored r f m (.stop m')
  | abort {m' : Machine} {fault : Fault}
    (step : ∀ taken, (m.uninterrupted taken).step r = .abort (m'.uninterrupted taken) fault) :
    Mirrored r f m (.abort m' fault)
  | suspend {m' : Machine} (status_eq : m'.status = .suspended) (ip_eq : m'.ip = m.ip + 1)
    (within : m'.resumed.Within f)
    (still : ∀ taken, m'.resumed.uninterrupted (taken ++ m'.output) = m.uninterrupted taken) :
    Mirrored r f m (.stop m')

/-- Where a machine suspends, the other one stands still. -/
theorem Within.mirrored_of_suspend (hcompiled : Compiled p names f) (h : m.Within f)
    (hrunning : m.status = .running) {i : Instruction} (hi : f.instructions[m.ip]? = some i)
    (hop : i.op = .suspend) :
    Step.Mirrored r f m (.stop { m with ip := m.ip + 1, status := .suspended }) := by
  have hgone : keptBefore f.instructions (m.ip + 1) = keptBefore f.instructions m.ip := by
    rw [keptBefore_succ hi, if_neg (by simp [Instruction.kept, hop]), Nat.add_zero]
  have hsafe := h.step hcompiled (r := r)
  obtain ⟨rfl, -, -, -⟩ := h
  rw [step_eq hi, perform, hop] at hsafe
  cases hsafe with
  | suspend within empty status_eq =>
    refine .suspend rfl rfl ⟨rfl, within.ip_lt, within.height, within.slots⟩ fun taken => ?_
    simp only [resumed, uninterrupted, hgone, hrunning, Output.append_empty]
  | finish empty status_eq => cases status_eq

/-- Every step of a machine within compiled code is a step without suspensions, or a suspension. -/
theorem Within.mirrored (happends : r.OnlyAppends) (hcompiled : Compiled p names f)
    (h : m.Within f) (hrunning : m.status = .running) : Step.Mirrored r f m (m.step r) := by
  obtain ⟨i, hi⟩ : ∃ i, f.instructions[m.ip]? = some i := ⟨_, Array.getElem?_eq_getElem h.ip_lt⟩
  have hperform : m.step r = m.perform r i := step_eq (by rwa [h.function_eq])
  have hsafe := h.step hcompiled (r := r)
  have hstep := fun hkept => h.step_uninterrupted happends hcompiled hi hkept
  rcases m.perform_cases r i with hgoesOn | ⟨hop, hstop⟩ | ⟨hop, hstop⟩
  · have hkept : i.kept = true := by
      by_contra hgone
      have hop : i.op = .suspend := by simpa [Instruction.kept] using hgone
      simp only [perform, hop] at hgoesOn
      cases hgoesOn
    rw [← hperform] at hgoesOn
    cases hgoesOn' : m.step r with
    | next m' =>
      rw [hgoesOn'] at hgoesOn hsafe hstep
      cases hgoesOn with
      | next hstatus =>
        cases hsafe with
        | next within => exact .next within (hstatus.trans hrunning) (hstep hkept)
    | stop m' =>
      rw [hgoesOn'] at hgoesOn
      cases hgoesOn
    | abort m' fault =>
      rw [hgoesOn'] at hstep
      exact .abort (hstep hkept)
  · rw [hperform, hstop]
    exact h.mirrored_of_suspend hcompiled hrunning hi hop
  · rw [hperform, hstop] at hstep ⊢
    exact .finish rfl (hstep (by simp [Instruction.kept, hop]))

/-! ### Calls -/

/-- What the end of a call is to the machine without suspensions: the same end, or a place on the
way. -/
inductive Stop.Mirrored (r : Registry) (f : Function) (m : Machine) : Stop → Prop where
  | last {result : Except Fault Status} {m' : Machine} (status_eq : m'.status = .finished)
    (execute : ∀ taken, ∃ fuel,
      Machine.execute r fuel (m.uninterrupted taken) = some (result, m'.uninterrupted taken)) :
    Mirrored r f m (result, m')
  | suspend {m' : Machine} (status_eq : m'.status = .suspended) (within : m'.resumed.Within f)
    (steps : ∀ taken, ∃ n, Steps r n (m.uninterrupted taken)
      (m'.resumed.uninterrupted (taken ++ m'.output))) :
    Mirrored r f m (.ok .suspended, m')

/-- A call ends in the same way without suspensions, or it is a part of one that goes on. -/
theorem Within.mirrored_of_execute (happends : r.OnlyAppends) (hcompiled : Compiled p names f)
    (h : m.Within f) (hrunning : m.status = .running) {fuel : Nat} {stop : Stop}
    (hstop : execute r fuel m = some stop) : Stop.Mirrored r f m stop := by
  induction fuel generalizing m with
  | zero => cases hstop
  | succ fuel ih =>
    have hmirrored := h.mirrored happends hcompiled hrunning
    rw [execute] at hstop
    cases hstep : m.step r with
    | next m' =>
      rw [hstep] at hmirrored hstop
      cases hmirrored with
      | next within running step =>
        cases ih within running hstop with
        | last status_eq hexecute =>
          refine .last status_eq fun taken => ?_
          obtain ⟨fuel', hfuel'⟩ := hexecute taken
          exact ⟨fuel' + 1, ((Steps.single (step taken)).execute_add fuel').trans hfuel'⟩
        | suspend status_eq within' steps =>
          refine .suspend status_eq within' fun taken => ?_
          obtain ⟨n, hn⟩ := steps taken
          exact ⟨n + 1, .step (step taken) hn⟩
    | stop m' =>
      rw [hstep] at hmirrored hstop
      cases hstop
      cases hmirrored with
      | finish status_eq step =>
        exact .last status_eq fun taken => ⟨1, (Ends.stop (step taken)).execute⟩
      | suspend status_eq ip_eq within still =>
        rw [status_eq]
        exact .suspend status_eq within fun taken => ⟨0, by rw [still]; exact .refl⟩
    | abort m' fault =>
      rw [hstep] at hmirrored hstop
      cases hstop
      cases hmirrored with
      | abort step => exact .last rfl fun taken => ⟨1, (Ends.abort (step taken)).execute⟩

/-! ### Runs that come to their end -/

/-- A run that is resumed whenever it suspends comes to its end. -/
inductive Completes (r : Registry) : Machine → Prop where
  | last {m : Machine} {stop : Stop} (ends : Ends r m stop) (finished : stop.2.status = .finished) :
    Completes r m
  | next {m m' : Machine} (step : m.step r = .next m') (rest : Completes r m') : Completes r m
  | resume {m m' : Machine} (step : m.step r = .stop m') (suspended : m'.status = .suspended)
    (rest : Completes r m'.resumed) : Completes r m

/-- If the run without suspensions ends, so does the other one. Between two steps that both do, it
suspends only as often as there are instructions left. -/
theorem Within.completes (happends : r.OnlyAppends) (hcompiled : Compiled p names f)
    (h : m.Within f) (hrunning : m.status = .running) {taken : Output} {fuel : Nat} {stop : Stop}
    (hstop : execute r fuel (m.uninterrupted taken) = some stop) : Completes r m := by
  induction fuel generalizing m taken with
  | zero => cases hstop
  | succ fuel ih =>
    induction hleft : f.instructions.size - m.ip using Nat.strongRecOn generalizing m taken with
    | ind left ihLeft =>
      have hmirrored := h.mirrored happends hcompiled hrunning
      cases hstep : m.step r with
      | next m' =>
        rw [hstep] at hmirrored
        cases hmirrored with
        | next within running step =>
          rw [execute, step] at hstop
          exact .next hstep (ih within running hstop)
      | stop m' =>
        rw [hstep] at hmirrored
        cases hmirrored with
        | finish status_eq step => exact .last (.stop hstep) status_eq
        | suspend status_eq ip_eq within still =>
          have hlt := h.ip_lt
          have hip : m'.resumed.ip = m.ip + 1 := ip_eq
          rw [← still] at hstop
          exact .resume hstep status_eq (ihLeft _ (by omega) within rfl hstop rfl)
      | abort m' fault => exact .last (.abort hstep) rfl

end

end Machine

end FrameScript
