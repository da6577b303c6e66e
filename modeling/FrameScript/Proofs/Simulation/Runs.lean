import FrameScript.Proofs.Simulation.Statements

/-!
# Compiled programs run like their trees

Task by task, the machine does what the tree says. So a call of the machine returns exactly if the
same call on the tree does, and shows the same status or fault, the same output and the same
variables. This goes on from call to call.
-/

namespace FrameScript

/-- A call has ended in the same way on the tree and on the machine, and if the run is not over,
both can go on. -/
structure StopMatches (f : Function) (names : List String) (stop : Interpreter.Stop)
    (stop' : Machine.Stop) : Prop where
  result_eq : stop'.1 = stop.1
  agrees : Agrees names stop.2 stop'.2
  resumable : stop.2.status ≠ .finished → Matches f names stop.2 stop'.2

variable {r : Registry} {f : Function} {names : List String} {s : Interpreter} {m : Machine}
  {fuel : Nat}

/-- What a task leads to when it ends the call. -/
theorem Machine.Answers.execute_stop {s' : Interpreter}
    (h : m.Answers r f names (.stop s')) :
    ∃ fuel stop, Machine.execute r fuel m = some stop ∧
      StopMatches f names (.ok s'.status, s') stop := by
  cases h with
  | @stop _ n m' m'' steps last matched =>
    refine ⟨1 + n, _, (steps.execute_add 1).trans (Ends.stop last).execute, ?_⟩
    refine ⟨?_, matched.toAgrees, fun _ => matched⟩
    rw [matched.status_eq]

/-- What a task leads to when it aborts the call. -/
theorem Machine.Answers.execute_abort {s' : Interpreter} {fault : Fault}
    (h : m.Answers r f names (.abort s' fault)) :
    ∃ fuel stop, Machine.execute r fuel m = some stop ∧
      StopMatches f names (.error fault, { s' with status := .finished }) stop := by
  cases h with
  | @abort _ _ n m' m'' steps last output_eq slots =>
    refine ⟨1 + n, _, (steps.execute_add 1).trans (Ends.abort last).execute, ?_⟩
    exact ⟨rfl, ⟨rfl, output_eq, slots⟩, fun hstatus => absurd rfl hstatus⟩

/-- A call that returns on the tree returns on the machine. -/
theorem Matches.execute {stop : Interpreter.Stop} (h : Matches f names s m)
    (hstop : Interpreter.execute r fuel s = some stop) :
    ∃ fuel' stop', Machine.execute r fuel' m = some stop' ∧ StopMatches f names stop stop' := by
  induction fuel generalizing s m with
  | zero => cases hstop
  | succ fuel ih =>
    have hanswers := h.answers (r := r)
    rw [Interpreter.execute] at hstop
    cases hstep : s.step r with
    | next s' =>
      rw [hstep] at hanswers hstop
      cases hanswers with
      | @next _ n m' _ steps matched =>
        obtain ⟨fuel', stop', hexecute, hmatches⟩ := ih matched hstop
        exact ⟨fuel' + n, stop', (steps.execute_add fuel').trans hexecute, hmatches⟩
    | stop s' =>
      rw [hstep] at hanswers hstop
      cases hstop
      exact hanswers.execute_stop
    | abort s' fault =>
      rw [hstep] at hanswers hstop
      cases hstop
      exact hanswers.execute_abort

/-- A call that returns on the machine returns on the tree, because each task takes the machine at
least one step. -/
theorem Matches.execute_tree {stop' : Machine.Stop} (h : Matches f names s m)
    (hstop : Machine.execute r fuel m = some stop') :
    ∃ fuel' stop, Interpreter.execute r fuel' s = some stop ∧ StopMatches f names stop stop' := by
  induction fuel using Nat.strongRecOn generalizing s m with
  | ind fuel ih =>
    have hanswers := h.answers (r := r)
    cases hstep : s.step r with
    | next s' =>
      rw [hstep] at hanswers
      cases hanswers with
      | @next _ n m' pos steps matched =>
        have hlt : n < fuel := by
          by_contra hle
          rw [steps.execute_eq_none (by omega)] at hstop
          cases hstop
        obtain ⟨rest, rfl⟩ : ∃ rest, fuel = rest + n := ⟨fuel - n, by omega⟩
        rw [steps.execute_add] at hstop
        obtain ⟨fuel', stop, hexecute, hmatches⟩ := ih rest (by omega) matched hstop
        refine ⟨fuel' + 1, stop, ?_, hmatches⟩
        rw [Interpreter.execute, hstep]
        exact hexecute
    | stop s' =>
      rw [hstep] at hanswers
      obtain ⟨_, last, hlast, hmatches⟩ := hanswers.execute_stop
      rw [Machine.execute_mono.unique hlast hstop] at hmatches
      refine ⟨1, _, ?_, hmatches⟩
      rw [Interpreter.execute, hstep]
    | abort s' fault =>
      rw [hstep] at hanswers
      obtain ⟨_, last, hlast, hmatches⟩ := hanswers.execute_abort
      rw [Machine.execute_mono.unique hlast hstop] at hmatches
      refine ⟨1, _, ?_, hmatches⟩
      rw [Interpreter.execute, hstep]

/-- Both sides are set running when they are resumed. -/
theorem Matches.running (h : Matches f names s m) :
    Matches f names { s with status := .running } { m with status := .running } :=
  ⟨⟨⟨rfl, h.output_eq, h.slots⟩, h.function_eq, h.stack_eq⟩, h.follows⟩

/-- Resuming goes on in the same way. -/
theorem StopMatches.resume {last stop : Interpreter.Stop} {last' : Machine.Stop}
    (h : StopMatches f names last last') (hstop : last.2.resume r fuel = some stop) :
    ∃ fuel' stop', last'.2.resume r fuel' = some stop' ∧ StopMatches f names stop stop' := by
  have hstatus := h.agrees.status_eq
  unfold Interpreter.resume at hstop
  unfold Machine.resume
  rw [hstatus]
  cases hcase : last.2.status with
  | idle | finished =>
    rw [hcase] at hstop
    cases hstop
    exact ⟨0, _, rfl, rfl, h.agrees, h.resumable⟩
  | running | suspended =>
    rw [hcase] at hstop
    exact (h.resumable (by simp [hcase])).running.execute hstop

/-- What returns on the machine when it is resumed returns on the tree. -/
theorem StopMatches.resume_tree {last : Interpreter.Stop} {last' stop' : Machine.Stop}
    (h : StopMatches f names last last') (hstop : last'.2.resume r fuel = some stop') :
    ∃ fuel' stop, last.2.resume r fuel' = some stop ∧ StopMatches f names stop stop' := by
  have hstatus := h.agrees.status_eq
  unfold Machine.resume at hstop
  unfold Interpreter.resume
  rw [hstatus] at hstop
  cases hcase : last.2.status with
  | idle | finished =>
    rw [hcase] at hstop
    cases hstop
    exact ⟨0, _, rfl, rfl, h.agrees, h.resumable⟩
  | running | suspended =>
    rw [hcase] at hstop
    exact (h.resumable (by simp [hcase])).running.execute_tree hstop

section

variable {p : Program} {m₀ : Machine} {n : Nat}

/-- A machine that starts a compiled program is where the tree starts. -/
theorem Compiled.matches_load (h : Compiled p names f) (htidy : p.tidy = true) (m₀ : Machine) :
    Matches f names { tasks := p.statements.map .statement, output := m₀.output } (m₀.load f) where
  status_eq := rfl
  output_eq := rfl
  slots := {
    size_eq := by rw [Machine.load, Array.size_replicate, h.localCount_eq]
    holds := fun name hname => by
      have hlt := List.idxOf_lt_length_of_mem hname
      rw [← h.localCount_eq] at hlt
      simp [Machine.load, hlt] }
  function_eq := rfl
  stack_eq := rfl
  follows := by
    have hfinish : Follows f names none [] (0 + Stmt.bodySize p.statements) := by
      rw [Nat.zero_add]
      exact .finish h.finish_at
    have hfollows := hfinish.block ⟨h.codeAt, h.aimed htidy, h.declared⟩
    rw [List.append_nil] at hfollows
    exact ⟨none, hfollows⟩

/-- Call by call, what returns on the tree returns on the machine. -/
theorem Compiled.nthStop? (h : Compiled p names f) (htidy : p.tidy = true)
    {stop : Interpreter.Stop} (hstop : Interpreter.nthStop? r fuel p m₀.output n = some stop) :
    ∃ fuel' stop', m₀.nthStop? r fuel' f n = some stop' ∧ StopMatches f names stop stop' := by
  induction n generalizing stop with
  | zero => exact (h.matches_load htidy m₀).execute hstop
  | succ n ih =>
    obtain ⟨last, hlast, hresume⟩ := Option.bind_eq_some_iff.mp hstop
    obtain ⟨fuel₁, last', hlast', hmatches⟩ := ih hlast
    obtain ⟨fuel₂, stop', hresume', hstops⟩ := hmatches.resume hresume
    refine ⟨max fuel₁ fuel₂, stop', Option.bind_eq_some_iff.mpr ⟨last', ?_, ?_⟩, hstops⟩
    · exact Machine.nthStop?_mono hlast' (Nat.le_max_left _ _)
    · exact Machine.resume_mono hresume' (Nat.le_max_right _ _)

/-- Call by call, what returns on the machine returns on the tree. -/
theorem Compiled.nthStop?_tree (h : Compiled p names f) (htidy : p.tidy = true)
    {stop' : Machine.Stop} (hstop : m₀.nthStop? r fuel f n = some stop') :
    ∃ fuel' stop, Interpreter.nthStop? r fuel' p m₀.output n = some stop ∧
      StopMatches f names stop stop' := by
  induction n generalizing stop' with
  | zero => exact (h.matches_load htidy m₀).execute_tree hstop
  | succ n ih =>
    obtain ⟨last', hlast', hresume'⟩ := Option.bind_eq_some_iff.mp hstop
    obtain ⟨fuel₁, last, hlast, hmatches⟩ := ih hlast'
    obtain ⟨fuel₂, stop, hresume, hstops⟩ := hmatches.resume_tree hresume'
    refine ⟨max fuel₁ fuel₂, stop, Option.bind_eq_some_iff.mpr ⟨last, ?_, ?_⟩, hstops⟩
    · exact Interpreter.nthStop?_mono hlast (Nat.le_max_left _ _)
    · exact Interpreter.resume_mono hresume (Nat.le_max_right _ _)

end

/-- The end of a call shows the same on the machine and on the tree: the status or the fault, the
output, and the variables in the slots that the compiler names. -/
structure ShowsSame (c : Compiler) (stop : Interpreter.Stop) (stop' : Machine.Stop) : Prop where
  result_eq : stop'.1 = stop.1
  status_eq : stop'.2.status = stop.2.status
  output_eq : stop'.2.output = stop.2.output
  slots : ∀ name slot, c.slotOf? name = some slot →
    stop'.2.locals[slot]? = some (stop.2.store name)

/-- Ends that match show the same. -/
theorem StopMatches.showsSame {c : Compiler} {stop : Interpreter.Stop} {stop' : Machine.Stop}
    (h : StopMatches f c.names stop stop') : ShowsSame c stop stop' where
  result_eq := h.result_eq
  status_eq := h.agrees.status_eq
  output_eq := h.agrees.output_eq
  slots name slot hslot := by
    obtain ⟨hmem, rfl⟩ := idxOf?_eq_some.mp hslot
    exact h.agrees.slots.holds name hmem

/-- The code that a compiler returns is compiled with the names that it lists. -/
theorem Compiler.compiled_of_compile {c c' : Compiler} {p : Program} {f : Function}
    (h : c.compile p = (.ok f, c')) : Compiled p c'.names f := by
  obtain ⟨d, hblock, rfl, hnames, -⟩ := block_of_compile h
  rw [hnames]
  exact Program.compiled_of_block hblock

/-- Running compiled code and running the tree of a tidy program is the same. For every number of
calls, the last of them returns on the machine exactly if it returns on the tree, and then both show
the same. Every variable of the program has a slot. -/
theorem Compiler.simulation {c c' : Compiler} {p : Program} {f : Function}
    (h : c.compile p = (.ok f, c')) (htidy : p.tidy = true) (m₀ : Machine) (n : Nat) :
    (∀ v ∈ Stmt.bodyMentioned p.statements, ∃ slot, c'.slotOf? v = some slot) ∧
    (∀ fuel stop', m₀.nthStop? c.registry fuel f n = some stop' →
      ∃ fuel' stop, Interpreter.nthStop? c.registry fuel' p m₀.output n = some stop ∧
        ShowsSame c' stop stop') ∧
    (∀ fuel stop, Interpreter.nthStop? c.registry fuel p m₀.output n = some stop →
      ∃ fuel' stop', m₀.nthStop? c.registry fuel' f n = some stop' ∧ ShowsSame c' stop stop') := by
  have hcompiled := compiled_of_compile h
  refine ⟨fun v hv => ?_, fun fuel stop' hstop => ?_, fun fuel stop hstop => ?_⟩
  · exact ⟨_, idxOf?_eq_some.mpr ⟨hcompiled.declared v hv, rfl⟩⟩
  · obtain ⟨fuel', stop, hstop', hmatches⟩ := hcompiled.nthStop?_tree htidy hstop
    exact ⟨fuel', stop, hstop', hmatches.showsSame⟩
  · obtain ⟨fuel', stop', hstop', hmatches⟩ := hcompiled.nthStop? htidy hstop
    exact ⟨fuel', stop', hstop', hmatches.showsSame⟩

/-- A loop that stops for one frame and then leaves. -/
def Program.pause : Program where
  statements := [.declare "on" (.bool true), .loop (.variable "on") [.suspend, .leave]]

/-- The second call of the program ends on the machine as it does on the tree. -/
theorem Compiler.simulation_pause :
    ∃ f c', Compiler.compile { registry := {} } Program.pause = (.ok f, c') ∧
      ∃ fuel stop', ({} : Machine).nthStop? {} fuel f 1 = some stop' ∧
        stop'.1 = .ok .finished ∧ stop'.2.locals[0]? = some (.bool true) := by
  obtain ⟨f, c', hcompile, hslot⟩ : ∃ f c', Compiler.compile { registry := {} } Program.pause =
      (.ok f, c') ∧ c'.slotOf? "on" = some 0 := ⟨_, _, rfl, rfl⟩
  obtain ⟨stop, hstop, hresult, hvalue⟩ : ∃ stop, Interpreter.nthStop? {} 10 Program.pause {} 1 =
      some stop ∧ stop.1 = .ok .finished ∧ stop.2.store "on" = .bool true := ⟨_, rfl, rfl, rfl⟩
  obtain ⟨-, -, hmachine⟩ := simulation hcompile (by decide) {} 1
  obtain ⟨fuel, stop', hstop', hsame⟩ := hmachine 10 stop hstop
  refine ⟨f, c', hcompile, fuel, stop', hstop', hsame.result_eq.trans hresult, ?_⟩
  rw [hsame.slots "on" 0 hslot, hvalue]

end FrameScript
