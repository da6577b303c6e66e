import FrameScript.Proofs.Budgets

/-!
# Runs of the machine

A call of the machine carries out single steps until one of them stops or aborts. A bound on the
number of steps only decides whether the call returns, not with what. A run is a first call followed
by calls that resume it.
-/

namespace FrameScript.Machine

/-- A machine comes to another one in a number of steps. -/
inductive Steps (r : Registry) : Nat → Machine → Machine → Prop where
  | refl {m} : Steps r 0 m m
  | step {n m m' m''} (first : m.step r = .next m') (rest : Steps r n m' m'') :
    Steps r (n + 1) m m''

/-- How a call ends: the last step stops or aborts. -/
inductive Ends (r : Registry) (m : Machine) : Stop → Prop where
  | stop {m'} (h : m.step r = .stop m') : Ends r m (.ok m'.status, m')
  | abort {m' fault} (h : m.step r = .abort m' fault) :
    Ends r m (.error fault, { m' with status := .finished })

/-- The machines that are about to carry out an instruction in a run of a function. -/
inductive Reaches (r : Registry) (f : Function) (m₀ : Machine) : Machine → Prop where
  | start : Reaches r f m₀ (m₀.load f)
  | next {m m'} (h : Reaches r f m₀ m) (step : m.step r = .next m') : Reaches r f m₀ m'
  | resume {m m'} (h : Reaches r f m₀ m) (step : m.step r = .stop m')
    (suspended : m'.status = .suspended) : Reaches r f m₀ { m' with status := .running }

variable {r : Registry} {f : Function} {m m' m'' : Machine} {n n' k fuel : Nat}

namespace Steps

/-- One step is a sequence of steps. -/
theorem single (h : m.step r = .next m') : Steps r 1 m m' :=
  .step h .refl

/-- Sequences of steps are put together. -/
theorem trans (h : Steps r n m m') (h' : Steps r n' m' m'') : Steps r (n' + n) m m'' := by
  induction h with
  | refl => exact h'
  | step first _ ih => exact .step first (ih h')

/-- A budget pays for the steps to a machine and then for what follows. -/
theorem execute_add (h : Steps r n m m') (k : Nat) : execute r (k + n) m = execute r k m' := by
  induction h with
  | refl => rfl
  | step first _ ih =>
    rw [← Nat.add_assoc, execute, first]
    exact ih

/-- A call does not return while the machine goes on. -/
theorem execute_eq_none (h : Steps r n m m') (hle : k ≤ n) : execute r k m = none := by
  induction h generalizing k with
  | refl =>
    rw [Nat.le_zero.mp hle]
    rfl
  | step first _ ih =>
    cases k with
    | zero => rfl
    | succ k =>
      rw [execute, first]
      exact ih (Nat.le_of_succ_le_succ hle)

end Steps

/-- What a step leads to as a part of a call: the next machine, or the end of the call. -/
def Step.outcome : Step → Machine ⊕ Stop
  | .next m => .inl m
  | .stop m => .inr (.ok m.status, m)
  | .abort m fault => .inr (.error fault, { m with status := .finished })

/-- A call takes steps until one ends it. -/
theorem execute_eq_iterate : execute r fuel m = iterate (fun m => (m.step r).outcome) fuel m := by
  induction fuel generalizing m with
  | zero => rfl
  | succ fuel ih =>
    rw [execute, iterate]
    cases m.step r with
    | next m' => exact ih
    | stop m' | abort m' fault => rfl

/-- A call that returns does not need its whole budget. -/
theorem execute_mono : Lasting fun fuel => execute r fuel m := by
  simp only [execute_eq_iterate]
  exact lasting_iterate _ m

/-- A call that ends with the next step pays for this step alone. -/
theorem Ends.execute {stop : Stop} (h : Ends r m stop) : execute r 1 m = some stop := by
  cases h with
  | stop h => rw [Machine.execute, h]
  | abort h => rw [Machine.execute, h]

/-- A call that returns has come to a machine at which it ends. -/
theorem exists_of_execute {stop : Stop} (h : execute r fuel m = some stop) :
    ∃ n m', Steps r n m m' ∧ Ends r m' stop := by
  induction fuel generalizing m with
  | zero => cases h
  | succ fuel ih =>
    rw [execute] at h
    cases hstep : m.step r with
    | next m' =>
      rw [hstep] at h
      obtain ⟨n, m'', hsteps, hends⟩ := ih h
      exact ⟨n + 1, m'', .step hstep hsteps, hends⟩
    | stop m' =>
      rw [hstep] at h
      cases h
      exact ⟨0, m, .refl, .stop hstep⟩
    | abort m' fault =>
      rw [hstep] at h
      cases h
      exact ⟨0, m, .refl, .abort hstep⟩

/-- The end of a call of a run: the first call runs a function, every later one resumes it. All
calls have the same budget. -/
def nthStop? (m : Machine) (r : Registry) (fuel : Nat) (f : Function) : Nat → Option Stop
  | 0 => m.run r fuel f
  | n + 1 => (m.nthStop? r fuel f n).bind fun stop => stop.2.resume r fuel

/-- A machine at rest stays as it is with any budget; every other one carries out a call. -/
theorem resume_mono : Lasting fun fuel => m.resume r fuel := by
  unfold resume
  cases m.status with
  | idle | finished => exact .const _
  | running | suspended => exact execute_mono

/-- A run whose calls have a larger budget comes to the same ends. -/
theorem nthStop?_mono : Lasting fun fuel => m.nthStop? r fuel f n := by
  induction n with
  | zero => exact execute_mono
  | succ n ih => exact ih.bind fun _ => resume_mono

/-- Each call of a run resumes what the call before left. -/
theorem nthStop?_succ {stop : Stop} (h : m.nthStop? r fuel f k = some stop) :
    m.nthStop? r fuel f (k + 1) = stop.2.resume r fuel := by
  rw [nthStop?, h]
  rfl

/-- If a call of a run returns, all calls before it have returned. -/
theorem exists_nthStop?_of_le {stop : Stop} (h : m.nthStop? r fuel f n = some stop) (hle : k ≤ n) :
    ∃ earlier, m.nthStop? r fuel f k = some earlier := by
  induction hle generalizing stop with
  | refl => exact ⟨stop, h⟩
  | step _ ih =>
    obtain ⟨before, hbefore, -⟩ := Option.bind_eq_some_iff.mp h
    exact ih hbefore

/-- A run reaches whatever steps lead to from a machine that it reaches. -/
theorem Reaches.steps {m₀ : Machine} (h : Reaches r f m₀ m) (hsteps : Steps r n m m') :
    Reaches r f m₀ m' := by
  induction hsteps with
  | refl => exact h
  | step first _ ih => exact ih (h.next first)

end FrameScript.Machine
