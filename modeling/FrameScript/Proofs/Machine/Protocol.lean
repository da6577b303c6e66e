import FrameScript.Proofs.Machine.EarlierOutput
import FrameScript.Proofs.Machine.Runs

/-!
# Calls of a machine

A host runs functions on a machine and resumes it, in any order. Whatever the code is, every call
that returns leaves the machine idle, suspended or finished and says so. A suspended machine goes on
behind the instruction that stopped it, an idle or finished one stays as it is, and a run starts
afresh from each of them.
-/

namespace FrameScript.Machine

/-- What a host asks of a machine. -/
inductive Call where
  | run (f : Function)
  | resume

/-- The end of a call. -/
def answer (m : Machine) (r : Registry) (fuel : Nat) : Call → Option Stop
  | .run f => m.run r fuel f
  | .resume => m.resume r fuel

/-- The machine that is about to carry out the first instruction of a call. -/
def begun (m : Machine) : Call → Machine
  | .run f => m.load f
  | .resume => { m with status := .running }

/-- The machines that a sequence of calls leads to from a new one, if all of them return. The host
may take output away, or leave some, at any time. -/
inductive After (r : Registry) : List Call → Machine → Prop where
  | new : After r [] {}
  | handOver {calls m} (before : After r calls m) (output : Output) :
    After r calls { m with output }
  | call {calls m fuel call result m'} (before : After r calls m)
    (returns : m.answer r fuel call = some (result, m')) : After r (calls ++ [call]) m'

/-! ### Where a call ends -/

/-- The result is the new status, or a fault that has ended the run. -/
def Stop.Consistent (stop : Stop) : Prop :=
  stop.1 = .ok stop.2.status ∨ ∃ fault, stop.1 = .error fault ∧ stop.2.status = .finished

/-- How a call can end when a machine carries out its last instruction. -/
inductive EndsAs (m : Machine) : Stop → Prop where
  | suspended {i : Instruction} (at_ip : m.function.instructions[m.ip]? = some i)
    (op_eq : i.op = .suspend) :
    EndsAs m (.ok .suspended, { m with ip := m.ip + 1, status := .suspended })
  | finished : EndsAs m (.ok .finished, { m with status := .finished })
  | aborted {m' : Machine} {fault : Fault} (status_eq : m'.status = .finished) :
    EndsAs m (.error fault, m')

/-- What a call does: it finds that there is nothing to resume, or it carries out instructions until
one of them ends it. -/
inductive AnswersAs (r : Registry) (m : Machine) : Call → Stop → Prop where
  | rests (status : m.status = .idle ∨ m.status = .finished) :
    AnswersAs r m .resume (.ok m.status, m)
  | runs {call : Call} {stop : Stop} {n : Nat} {m₁ : Machine}
    (started : call = .resume → m.status ≠ .idle) (steps : Steps r n (m.begun call) m₁)
    (ends : EndsAs m₁ stop) : AnswersAs r m call stop

variable {r : Registry} {m m' : Machine} {call : Call} {calls : List Call} {stop : Stop}
  {fuel n : Nat} {f : Function}

/-- The last step of a call ends it in one of the known ways. -/
theorem Ends.endsAs (h : Ends r m stop) : EndsAs m stop := by
  cases h with
  | abort h => exact .aborted rfl
  | @stop m' h =>
    cases hi : m.function.instructions[m.ip]? with
    | none =>
      rw [step, hi] at h
      cases h
    | some i =>
      rw [step_eq hi] at h
      rcases m.perform_cases r i with hgoesOn | ⟨hop, hstop⟩ | ⟨-, hstop⟩
      · rw [h] at hgoesOn
        cases hgoesOn
      · rw [hstop] at h
        cases h
        exact .suspended hi hop
      · rw [hstop] at h
        cases h
        exact .finished

/-- Nothing happens when a machine at rest is resumed. -/
theorem resume_of_rests (h : m.status = .idle ∨ m.status = .finished) (fuel : Nat) :
    m.resume r fuel = some (.ok m.status, m) := by
  unfold resume
  rcases h with h | h <;> rw [h]

/-- A suspended machine is resumed by running on. -/
theorem resume_of_suspended (h : m.status = .suspended) (fuel : Nat) :
    m.resume r fuel = execute r fuel { m with status := .running } := by
  rw [resume, h]

/-- Unless there is nothing to resume, a call carries out instructions. -/
theorem answer_eq_execute (h : ¬ (call = .resume ∧ (m.status = .idle ∨ m.status = .finished)))
    (fuel : Nat) : m.answer r fuel call = execute r fuel (m.begun call) := by
  cases call with
  | run f => rfl
  | resume =>
    rw [answer, resume, begun]
    cases hstatus : m.status with
    | idle => exact absurd ⟨rfl, .inl hstatus⟩ h
    | finished => exact absurd ⟨rfl, .inr hstatus⟩ h
    | running | suspended => rfl

/-- Every call that returns does so in one of the known ways. -/
theorem answersAs_of_answer (h : m.answer r fuel call = some stop) : AnswersAs r m call stop := by
  by_cases hrests : call = .resume ∧ (m.status = .idle ∨ m.status = .finished)
  · obtain ⟨rfl, hrests⟩ := hrests
    rw [answer, resume_of_rests hrests] at h
    cases h
    exact .rests hrests
  · rw [answer_eq_execute hrests] at h
    obtain ⟨n, m₁, hsteps, hends⟩ := exists_of_execute h
    exact .runs (fun hcall hidle => hrests ⟨hcall, .inl hidle⟩) hsteps hends.endsAs

/-- The result of a call agrees with the status that it leaves. -/
theorem AnswersAs.consistent (h : AnswersAs r m call stop) : stop.Consistent := by
  cases h with
  | rests => exact .inl rfl
  | runs _ _ ends =>
    cases ends with
    | suspended | finished => exact .inl rfl
    | aborted status_eq => exact .inr ⟨_, rfl, status_eq⟩

/-- A call never ends while it is running, and never makes a machine idle again. -/
theorem EndsAs.status (h : EndsAs m stop) :
    stop.2.status = .suspended ∨ stop.2.status = .finished := by
  cases h with
  | suspended => exact .inl rfl
  | finished => exact .inr rfl
  | aborted status_eq => exact .inr status_eq

/-! ### Calls of a run -/

/-- In a run, too, the result of every call agrees with the status that it leaves. -/
theorem consistent_of_nthStop? (h : m.nthStop? r fuel f n = some stop) : stop.Consistent := by
  cases n with
  | zero =>
    have hanswer : m.answer r fuel (.run f) = some stop := h
    exact (answersAs_of_answer hanswer).consistent
  | succ n =>
    obtain ⟨before, -, hresume⟩ := Option.bind_eq_some_iff.mp h
    have hanswer : before.2.answer r fuel .resume = some stop := hresume
    exact (answersAs_of_answer hanswer).consistent

/-- Nothing changes after the end of a run. -/
theorem nthStop?_of_finished (h : m.nthStop? r fuel f n = some stop)
    (hfinished : stop.2.status = .finished) (d : Nat) :
    m.nthStop? r fuel f (n + 1 + d) = some (.ok .finished, stop.2) := by
  have hrests := resume_of_rests (r := r) (.inr hfinished) fuel
  rw [hfinished] at hrests
  induction d with
  | zero => exact (nthStop?_succ h).trans hrests
  | succ d ih => exact (nthStop?_succ ih).trans hrests

/-! ### Sequences of calls -/

/-- What a host can rely on after a sequence of calls. -/
structure KeepsProtocol (r : Registry) (calls : List Call) (m : Machine) : Prop where
  /-- A machine is idle as long as nothing was run. -/
  idle_iff : m.status = .idle ↔ ∀ f, .run f ∉ calls
  status_ne_running : m.status ≠ .running
  /-- A call returns the new status, or a fault that is not reported again. -/
  answers {fuel : Nat} {call : Call} {result : Except Fault Status} {m' : Machine}
    (returns : m.answer r fuel call = some (result, m')) :
    result = .ok m'.status ∨ ∃ fault, result = .error fault ∧ m'.status = .finished ∧
      ∀ fuel', m'.resume r fuel' = some (.ok .finished, m')
  /-- A call that suspends has come to a `yield`, and the run goes on behind it. -/
  suspends {fuel : Nat} {call : Call} {m' : Machine}
    (returns : m.answer r fuel call = some (.ok .suspended, m')) :
    ∃ n m₁ i, Steps r n (m.begun call) m₁ ∧ m₁.function.instructions[m₁.ip]? = some i ∧
      i.op = .suspend ∧ m' = { m₁ with ip := m₁.ip + 1, status := .suspended } ∧
      ∀ output fuel', resume { m' with output } r fuel' =
        execute r fuel' { m₁ with ip := m₁.ip + 1, status := .running, output }
  /-- There is nothing to resume before a run and after its end. -/
  rests (status : m.status = .idle ∨ m.status = .finished) (fuel : Nat) :
    m.resume r fuel = some (.ok m.status, m)
  /-- Every run is like that of a new machine, behind the output that is pending. -/
  run_eq_new (fuel : Nat) (f : Function) :
    m.run r fuel f = (({} : Machine).run r fuel f).map (·.behind m.output)

namespace After

/-- No sequence of calls leaves a machine running. -/
theorem status_ne_running (h : After r calls m) : m.status ≠ .running := by
  induction h with
  | new => simp
  | handOver _ _ ih => exact ih
  | call _ returns ih =>
    cases answersAs_of_answer returns with
    | rests => exact ih
    | runs _ _ ends =>
      intro hrunning
      rcases ends.status with hstatus | hstatus <;> simp [hrunning] at hstatus

/-- A machine is idle exactly as long as nothing was run. -/
theorem status_eq_idle_iff (h : After r calls m) :
    m.status = .idle ↔ ∀ f, .run f ∉ calls := by
  induction h with
  | new => simp
  | handOver _ _ ih => exact ih
  | @call calls m fuel call result m' _ returns ih =>
    cases answersAs_of_answer returns with
    | rests => simpa using ih
    | runs started _ ends =>
      have hnot : m'.status ≠ .idle := by
        intro hidle
        rcases ends.status with hstatus | hstatus <;> simp [hidle] at hstatus
      refine ⟨fun hidle => absurd hidle hnot, fun hnone => ?_⟩
      have hbefore : m.status = .idle :=
        ih.mpr fun f hf => hnone f (List.mem_append_left _ hf)
      cases call with
      | run f => exact absurd (List.mem_append_right _ (List.mem_singleton_self _)) (hnone f)
      | resume => exact absurd hbefore (started rfl)

/-- The status protocol of a machine, for any code and any sequence of calls. -/
theorem keeps_protocol (h : After r calls m) (happends : r.OnlyAppends) :
    KeepsProtocol r calls m where
  idle_iff := h.status_eq_idle_iff
  status_ne_running := h.status_ne_running
  answers hreturns := by
    refine (answersAs_of_answer hreturns).consistent.imp id fun ⟨fault, herror, hfinished⟩ => ?_
    refine ⟨fault, herror, hfinished, fun fuel' => ?_⟩
    rw [resume_of_rests (.inr hfinished), hfinished]
  suspends hreturns := by
    -- a fixed result would keep the cases from matching the shape of a call
    generalize hresult : Except.ok Status.suspended = result at hreturns
    cases answersAs_of_answer hreturns with
    | rests status =>
      rcases status with hstatus | hstatus <;> simp [hstatus] at hresult
    | runs _ steps ends =>
      cases ends with
      | suspended at_ip op_eq =>
        exact ⟨_, _, _, steps, at_ip, op_eq, rfl, fun output => resume_of_suspended rfl⟩
      | finished | aborted => cases hresult
  rests := resume_of_rests
  run_eq_new := Machine.run_eq_new happends m

/-- Code that suspends, and then adds what is not there. -/
def starved : Function where
  instructions := #[⟨.suspend, .absent⟩, ⟨.add, .absent⟩]

/-- A machine that has suspended and then underflowed, as two calls leave it. -/
theorem keeps_protocol_starved :
    let m : Machine := { function := starved, ip := 1, status := .finished }
    After .standard [.run starved, .resume] m ∧ Registry.standard.OnlyAppends ∧
      KeepsProtocol .standard [.run starved, .resume] m := by
  have hrun : answer {} .standard 1 (.run starved) =
      some (.ok .suspended, { function := starved, ip := 1, status := .suspended }) := rfl
  have hresume : answer { function := starved, ip := 1, status := .suspended } .standard 1 .resume =
      some (.error .underflow, { function := starved, ip := 1, status := .finished }) := rfl
  have hafter := (After.new.call hrun).call hresume
  have happends := Registry.standard_onlyAppends
  exact ⟨hafter, happends, keeps_protocol hafter happends⟩

end After

end FrameScript.Machine
