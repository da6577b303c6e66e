import FrameScript.Proofs.Compiler.Initializers
import FrameScript.Proofs.Machine.Relocation
import FrameScript.Proofs.Machine.Safety

/-!
# Variables are initialized before they are read

If all `var` statements are at top level and every `break` is inside a loop, then a run that reads a
variable has carried out its `var` statement before, in whatever order jumps led through the code
and however often the run was suspended. What the slots hold at the beginning of a run therefore
makes no difference that a host could see.
-/

namespace FrameScript

/-- An instruction leads to the next one or to its target. -/
theorem Instruction.mem_successors {i : Instruction} {index next : Nat}
    (h : next ∈ i.successors index) : next = index + 1 ∨ i.operand = .jump next := by
  have htarget : next ∈ i.target? → i.operand = .jump next := by
    intro hnext
    unfold target? at hnext
    split at hnext
    · next target hoperand =>
      split at hnext
      · cases hnext
        exact hoperand
      · cases hnext
    · cases hnext
  unfold successors at h
  cases hop : i.op with
  | suspend | finish => simp [hop] at h
  | goto =>
    simp only [hop, Option.mem_toList] at h
    exact .inr (htarget h)
  | branch =>
    simp only [hop, List.mem_cons, Option.mem_toList] at h
    exact h.imp_right htarget
  | call | add | sub | mul | div | less | greater | constNumber | constBool | setLocal | getLocal =>
    simp only [hop, List.mem_singleton] at h
    exact .inl h

/-- The code behind the store of an initial value is entered from there only. -/
theorem Guarded.store_le_of_mem_successors {p : Program} {r : Registry} {f : Function}
    (h : Guarded p r f) {index : Nat} {i : Instruction} (hi : f.instructions[index]? = some i)
    {next : Nat} (hnext : next ∈ i.successors index) {slot store : Nat}
    (hstore : p.InitializesAt slot store) (hlt : store < next) : store ≤ index := by
  rcases i.mem_successors hnext with rfl | htarget
  · exact Nat.le_of_lt_succ hlt
  · exact Nat.le_of_lt (h.store_lt_of_jump hi htarget hstore hlt)

namespace Machine

/-! ### What a run has carried out -/

/-- The machines that are about to carry out an instruction in a run that begins with a machine,
each with the indices of the instructions that the run has carried out, the last one first. Between
two calls the output may be changed. -/
inductive History (r : Registry) (first : Machine) : List Nat → Machine → Prop where
  | start : History r first [] first
  | next {done m m'} (h : History r first done m) (step : m.step r = .next m') :
    History r first (m.ip :: done) m'
  | resume {done m m'} (h : History r first done m) (step : m.step r = .stop m')
    (suspended : m'.status = .suspended) (output : Output) :
    History r first (m.ip :: done) { m' with status := .running, output }

variable {p : Program} {f : Function} {r r₁ : Registry}
  {m m' first : Machine} {done : List Nat}

/-- A step that suspends carries out a suspension. -/
theorem suspends_of_step (hstep : m.step r = .stop m') (hsuspended : m'.status = .suspended) :
    ∃ i, m.function.instructions[m.ip]? = some i ∧ i.op = .suspend ∧
      m' = { m with ip := m.ip + 1, status := .suspended } := by
  cases hi : m.function.instructions[m.ip]? with
  | none =>
    rw [step, hi] at hstep
    cases hstep
  | some i =>
    rw [step_eq hi] at hstep
    rcases m.perform_cases r i with hgoes | ⟨hop, hstop⟩ | ⟨-, hstop⟩
    · rw [hstep] at hgoes
      cases hgoes
    · rw [hstep] at hstop
      cases hstop
      exact ⟨i, rfl, hop, rfl⟩
    · rw [hstep] at hstop
      cases hstop
      cases hsuspended

/-- A run never changes the function that it runs. -/
theorem History.function_eq (h : History r first done m) : m.function = first.function := by
  induction h with
  | start => rfl
  | next _ hstep ih =>
    obtain ⟨_, -, hcontinues⟩ := continues_of_step hstep
    exact hcontinues.function_eq.trans ih
  | resume _ hstep hsuspended _ ih =>
    obtain ⟨_, -, -, rfl⟩ := suspends_of_step hstep hsuspended
    exact ih

/-- A run that is behind the store of an initial value in the code has carried this store out. -/
theorem History.mem_of_store_lt (hguarded : Guarded p r₁ f) (hfirst : first.function = f)
    (hip : first.ip = 0) (h : History r first done m) {slot store : Nat}
    (hstore : p.InitializesAt slot store) (hlt : store < m.ip) : store ∈ done := by
  induction h with
  | start =>
    rw [hip] at hlt
    exact absurd hlt (Nat.not_lt_zero store)
  | @next done m m' h hstep ih =>
    obtain ⟨i, hi, hcontinues⟩ := continues_of_step hstep
    rw [h.function_eq, hfirst] at hi
    have hle := hguarded.store_le_of_mem_successors hi hcontinues.ip_mem hstore hlt
    rcases Nat.lt_or_eq_of_le hle with hbefore | rfl
    · exact List.mem_cons_of_mem _ (ih hbefore)
    · exact List.mem_cons_self
  | @resume done m m' h hstep hsuspended output ih =>
    obtain ⟨-, -, -, rfl⟩ := suspends_of_step hstep hsuspended
    rcases Nat.lt_or_eq_of_le (Nat.le_of_lt_succ hlt) with hbefore | rfl
    · exact List.mem_cons_of_mem _ (ih hbefore)
    · exact List.mem_cons_self

/-! ### Other values in the slots -/

/-- The machine with other values in its slots. -/
def withLocals (m : Machine) (locals : Array Value) : Machine :=
  { m with locals }

section

variable {locals : Array Value}

/-- Popping does not look at the slots if what follows does not. -/
theorem pop_withLocals {continuation continuation' : Value → Machine → Step}
    (h : ∀ value rest, continuation' value (withLocals { m with stack := rest } locals) =
      (continuation value { m with stack := rest }).map (·.withLocals locals)) :
    (m.withLocals locals).pop continuation' = (m.pop continuation).map (·.withLocals locals) :=
  @pop_map m (·.withLocals locals) _ _ rfl h

/-- A jump does not look at the slots. -/
theorem jump_withLocals (i : Instruction) :
    (m.withLocals locals).jump i = (m.jump i).map (·.withLocals locals) := by
  unfold jump
  cases i.operand <;> rfl

/-- A call of a builtin does not look at the slots. -/
theorem call_withLocals (site : CallSite) :
    (m.withLocals locals).call r site = (m.call r site).map (·.withLocals locals) := by
  have hstack : (m.withLocals locals).stack = m.stack := rfl
  have houtput : (m.withLocals locals).output = m.output := rfl
  unfold call
  rw [hstack, houtput]
  dsimp only
  split
  · rfl
  · rcases r.call site.name m.output (m.stack.take site.arity).reverse with ⟨output, error | value?⟩
    · rfl
    · cases site.producesValue with
      | false => rfl
      | true => cases value? <;> rfl

/-- Apart from two, no instruction looks at the slots. -/
theorem perform_withLocals {i : Instruction} (hget : i.op ≠ .getLocal) (hset : i.op ≠ .setLocal) :
    (m.withLocals locals).perform r i = (m.perform r i).map (·.withLocals locals) := by
  obtain ⟨op, operand⟩ := i
  cases op with
  | getLocal => exact absurd rfl hget
  | setLocal => exact absurd rfl hset
  | add | sub | mul | div | less | greater =>
    exact @combine_map m (·.withLocals locals) (fun _ => rfl) (fun _ _ => rfl) _
  | goto => exact jump_withLocals _
  | suspend | finish => rfl
  | constNumber | constBool => cases operand <;> rfl
  | call =>
    cases operand with
    | callee site => exact call_withLocals site
    | absent | jump | slot | number | bool => rfl
  | branch =>
    rw [perform, perform]
    refine pop_withLocals fun value rest => ?_
    cases value with
    | number => rfl
    | bool condition =>
      cases condition with
      | true => rfl
      | false => exact jump_withLocals _

end

/-! ### Two runs -/

/-- The end of a call of a run that begins with a machine. Every later call resumes the run after a
host has changed the output. -/
def stopFrom? (r : Registry) (fuel : Nat) (host : Nat → Output → Output) (first : Machine) :
    Nat → Option Stop
  | 0 => execute r fuel first
  | n + 1 => (stopFrom? r fuel host first n).bind fun stop =>
    { stop.2 with output := host n stop.2.output }.resume r fuel

/-- What a host sees of the end of a call: everything but the slots. -/
def Stop.visible (stop : Stop) : Stop :=
  (stop.1, stop.2.withLocals #[])

/-- A machine within a function, and values for its slots that are those of the machine wherever an
initial value was stored. -/
structure Twin (p : Program) (f : Function) (m : Machine) (locals : Array Value) : Prop where
  within : m.Within f
  size_eq : locals.size = m.locals.size
  slot_eq : ∀ slot store, p.InitializesAt slot store → store < m.ip →
    locals[slot]? = m.locals[slot]?

/-- Two steps that lead to the same, apart from slots without an initial value. -/
inductive Step.Twins (p : Program) (f : Function) : Step → Step → Prop where
  | next {m locals} (twin : Twin p f m locals) : Twins p f (.next m) (.next (m.withLocals locals))
  | suspend {m locals} (twin : Twin p f m locals) (status_eq : m.status = .suspended) :
    Twins p f (.stop m) (.stop (m.withLocals locals))
  | finish {m locals} (status_eq : m.status = .finished) :
    Twins p f (.stop m) (.stop (m.withLocals locals))
  | abort {m fault locals} : Twins p f (.abort m fault) (.abort (m.withLocals locals) fault)

/-- Two ends of calls that are the same, apart from slots without an initial value. -/
inductive Stop.Twins (p : Program) (f : Function) : Option Stop → Option Stop → Prop where
  | none : Twins p f none none
  | suspended {m locals} (twin : Twin p f m locals) (status_eq : m.status = .suspended) :
    Twins p f (some (.ok .suspended, m)) (some (.ok .suspended, m.withLocals locals))
  | finished {result m locals} (status_eq : m.status = .finished) :
    Twins p f (some (result, m)) (some (result, m.withLocals locals))

section

variable (hguarded : Guarded p r₁ f) {locals : Array Value} (h : Twin p f m locals)

include hguarded h

/-- Where an instruction leads that stores nothing, no further initial values are expected. -/
theorem Twin.move {i : Instruction} (hi : f.instructions[m.ip]? = some i)
    (hset : i.op ≠ .setLocal) (hwithin : m'.Within f) (hlocals : m'.locals = m.locals)
    (hip : m'.ip = m.ip + 1 ∨ m'.ip ∈ i.successors m.ip) : Twin p f m' locals := by
  refine ⟨hwithin, by rw [hlocals, h.size_eq], fun slot store hstore hlt => ?_⟩
  have hle : store ≤ m.ip := by
    rcases hip with hnext | hnext
    · omega
    · exact hguarded.store_le_of_mem_successors hi hnext hstore hlt
  rw [hlocals]
  rcases Nat.lt_or_eq_of_le hle with hbefore | rfl
  · exact h.slot_eq slot store hstore hbefore
  · rw [hguarded.store_at hstore] at hi
    cases hi
    exact absurd rfl hset

/-- A read finds the same value in both machines. -/
theorem Twin.step_getLocal {i : Instruction} (hi : f.instructions[m.ip]? = some i)
    (hop : i.op = .getLocal) : Step.Twins p f (m.step r) ((m.withLocals locals).step r) := by
  obtain ⟨slot, store, hoperand, hstore, hlt⟩ := hguarded.initialized_of_getLocal hi hop
  obtain ⟨op, operand⟩ := i
  obtain rfl : op = .getLocal := hop
  obtain rfl : operand = .slot slot := hoperand
  have hslot : slot < m.locals.size := by
    rw [h.within.slots]
    exact hguarded.compiled.slot_lt hguarded.sound hi rfl
  have hsame : locals.getD slot .zero = m.locals.getD slot .zero := by
    rw [Array.getD_eq_getD_getElem?, Array.getD_eq_getD_getElem?, h.slot_eq slot store hstore hlt]
  have hat : m.function.instructions[m.ip]? = some ⟨.getLocal, .slot slot⟩ := by
    rwa [h.within.function_eq]
  have hstep : m.step r =
      .next { m with stack := m.locals.getD slot .zero :: m.stack, ip := m.ip + 1 } := by
    rw [step_eq hat]
    exact perform_getLocal hslot
  have hstep' : (m.withLocals locals).step r = .next (withLocals
      { m with stack := m.locals.getD slot .zero :: m.stack, ip := m.ip + 1 } locals) := by
    have hslot' : slot < (m.withLocals locals).locals.size := by rwa [← h.size_eq] at hslot
    rw [step_eq (m := m.withLocals locals) hat, perform_getLocal hslot', ← hsame]
    rfl
  have hsafe := h.within.step hguarded.compiled (r := r)
  rw [hstep] at hsafe
  rw [hstep, hstep']
  cases hsafe with
  | next within => exact .next (h.move hguarded hi nofun within rfl (.inl rfl))

/-- A store puts the same value into both machines. -/
theorem Twin.step_setLocal {slot : Nat}
    (hi : f.instructions[m.ip]? = some ⟨.setLocal, .slot slot⟩) (high : 1 ≤ f.heightAt m.ip) :
    Step.Twins p f (m.step r) ((m.withLocals locals).step r) := by
  have hslot : slot < m.locals.size := by
    rw [h.within.slots]
    exact hguarded.compiled.slot_lt hguarded.sound hi rfl
  rw [← h.within.height] at high
  obtain ⟨value, rest, hstack⟩ := List.exists_cons_of_length_pos high
  have hat : m.function.instructions[m.ip]? = some ⟨.setLocal, .slot slot⟩ := by
    rwa [h.within.function_eq]
  have hstep : m.step r = .next { m with
      stack := rest, locals := m.locals.setIfInBounds slot value, ip := m.ip + 1 } := by
    rw [step_eq hat]
    exact perform_setLocal hslot hstack
  have hstep' : (m.withLocals locals).step r = .next (withLocals { m with
      stack := rest, locals := m.locals.setIfInBounds slot value, ip := m.ip + 1 }
      (locals.setIfInBounds slot value)) := by
    have hslot' : slot < (m.withLocals locals).locals.size := by rwa [← h.size_eq] at hslot
    have hstack' : (m.withLocals locals).stack = value :: rest := hstack
    rw [step_eq (m := m.withLocals locals) hat, perform_setLocal hslot' hstack']
    rfl
  have hsafe := h.within.step hguarded.compiled (r := r)
  rw [hstep] at hsafe
  rw [hstep, hstep']
  cases hsafe with
  | next within =>
    refine .next ⟨within, by simp [h.size_eq], fun other store hstore hlt => ?_⟩
    rcases Nat.lt_or_eq_of_le (Nat.le_of_lt_succ hlt) with hbefore | rfl
    · have hother := h.slot_eq other store hstore hbefore
      rw [Array.getElem?_setIfInBounds, Array.getElem?_setIfInBounds, hother, h.size_eq]
    · -- the initial value itself was stored just now
      have hat := hguarded.store_at hstore
      rw [hi] at hat
      cases hat
      rw [Array.getElem?_setIfInBounds_self_of_lt hslot,
        Array.getElem?_setIfInBounds_self_of_lt (by rwa [h.size_eq])]

/-- Two such machines stay alike in every step. -/
theorem Twin.step : Step.Twins p f (m.step r) ((m.withLocals locals).step r) := by
  obtain ⟨i, hi⟩ : ∃ i, f.instructions[m.ip]? = some i :=
    ⟨_, Array.getElem?_eq_getElem h.within.ip_lt⟩
  by_cases hget : i.op = .getLocal
  · exact h.step_getLocal hguarded hi hget
  by_cases hset : i.op = .setLocal
  · cases hguarded.compiled.fits hi with
    | set hslot high => exact h.step_setLocal hguarded hi high
    | binary op => cases op <;> cases hset
    | number | bool | get | call | branch | goto | stray | suspend | finish => cases hset
  have hat : m.function.instructions[m.ip]? = some i := by rwa [h.within.function_eq]
  have hsame : m.step r = (m.step r).map (·.withLocals m.locals) := by
    rw [step_eq hat]
    exact perform_withLocals hget hset
  have hother : (m.withLocals locals).step r = (m.step r).map (·.withLocals locals) := by
    rw [step_eq hat, step_eq (m := m.withLocals locals) hat]
    exact perform_withLocals hget hset
  have hsafe := h.within.step hguarded.compiled (r := r)
  rw [hother]
  cases hstep : m.step r with
  | abort m' fault => exact .abort
  | next m' =>
    rw [hstep] at hsafe hsame
    obtain ⟨j, hj, hcontinues⟩ := continues_of_step hstep
    obtain rfl : i = j := Option.some.inj (hat.symm.trans hj)
    have hlocals : m'.locals = m.locals := by
      rw [Step.next.inj hsame]
      rfl
    cases hsafe with
    | next within =>
      exact .next (h.move hguarded hi hset within hlocals (.inr hcontinues.ip_mem))
  | stop m' =>
    rw [hstep] at hsafe
    cases hsafe with
    | finish _ status_eq => exact .finish status_eq
    | suspend within _ status_eq =>
      obtain ⟨-, -, -, rfl⟩ := suspends_of_step hstep status_eq
      exact .suspend (h.move hguarded hi hset within rfl (.inl rfl)) rfl

/-- Two such machines come to the same end of a call. -/
theorem Twin.execute (fuel : Nat) :
    Stop.Twins p f (execute r fuel m) (execute r fuel (m.withLocals locals)) := by
  induction fuel generalizing m locals with
  | zero => exact .none
  | succ fuel ih =>
    have hstep := h.step hguarded (r := r)
    rw [Machine.execute, Machine.execute]
    generalize m.step r = step at hstep ⊢
    generalize (m.withLocals locals).step r = step' at hstep ⊢
    cases hstep with
    | next twin => exact ih twin
    | @suspend m locals twin status_eq =>
      have hvisible : (m.withLocals locals).status = .suspended := status_eq
      simp only [status_eq, hvisible]
      exact .suspended twin status_eq
    | finish status_eq => exact .finished status_eq
    | abort => exact .finished rfl

/-- The calls of two such runs end alike, whatever a host does with the output between them. -/
theorem Twin.stopFrom? (fuel : Nat) (host : Nat → Output → Output) (n : Nat) :
    Stop.Twins p f (stopFrom? r fuel host m n) (stopFrom? r fuel host (m.withLocals locals) n) := by
  induction n with
  | zero => exact h.execute hguarded fuel
  | succ n ih =>
    rw [Machine.stopFrom?, Machine.stopFrom?]
    generalize Machine.stopFrom? r fuel host m n = stop? at ih ⊢
    generalize Machine.stopFrom? r fuel host (m.withLocals locals) n = stop?' at ih ⊢
    cases ih with
    | none => exact .none
    | @suspended m locals twin status_eq =>
      have htwin : Twin p f { m with output := host n m.output, status := .running } locals :=
        ⟨⟨twin.within.function_eq, twin.within.ip_lt, twin.within.height, twin.within.slots⟩,
          twin.size_eq, twin.slot_eq⟩
      have hvisible : (m.withLocals locals).status = .suspended := status_eq
      simp only [Option.bind_some, resume, status_eq, hvisible]
      exact htwin.execute hguarded fuel
    | @finished result m locals status_eq =>
      have hvisible : (m.withLocals locals).status = .finished := status_eq
      simp only [Option.bind_some, resume, status_eq, hvisible]
      exact .finished rfl

end

/-- A host sees the same of two ends that differ in unread slots only. -/
theorem Stop.Twins.visible_eq {stop? stop?' : Option Stop} (h : Stop.Twins p f stop? stop?') :
    stop?.map Stop.visible = stop?'.map Stop.visible := by
  cases h <;> rfl

end Machine

/-- If every `var` statement is at top level and every `break` is inside a loop, then whatever a run
reads from a slot, with any registry and however often it is resumed, it has carried out the `var`
statement of the variable in this slot before. What the slots hold at first can therefore not be
told from the ends of the calls. -/
theorem Program.initialized_of_compile {p : Program} {r₁ : Registry} {f : Function}
    (h : p.compile r₁ = .ok f) (htop : p.DeclaresAtTop) (hbreaks : p.BreaksInLoops) (r : Registry)
    (m₀ : Machine) :
    (∀ done m i, Machine.History r (m₀.load f) done m → f.instructions[m.ip]? = some i →
      i.op = .getLocal → ∃ slot store, i.operand = .slot slot ∧ p.InitializesAt slot store ∧
        f.instructions[store]? = some ⟨.setLocal, .slot slot⟩ ∧ store ∈ done) ∧
    (∀ locals : Array Value, locals.size = f.localCount → ∀ fuel host n,
      (Machine.stopFrom? r fuel host ((m₀.load f).withLocals locals) n).map Machine.Stop.visible =
        (Machine.stopFrom? r fuel host (m₀.load f) n).map Machine.Stop.visible) := by
  have hguarded := guarded_of_compile h htop hbreaks
  constructor
  · intro done m i hhistory hi hop
    obtain ⟨slot, store, hoperand, hstore, hlt⟩ := hguarded.initialized_of_getLocal hi hop
    exact ⟨slot, store, hoperand, hstore, hguarded.store_at hstore,
      hhistory.mem_of_store_lt hguarded rfl rfl hstore hlt⟩
  · intro locals hsize fuel host n
    have hwithin : (m₀.load f).Within f :=
      Machine.Reaches.start.within hguarded.compiled (r := r)
    have htwin : Machine.Twin p f (m₀.load f) locals :=
      ⟨hwithin, by rw [hsize, hwithin.slots], fun _ _ _ hlt => absurd hlt (Nat.not_lt_zero _)⟩
    exact (htwin.stopFrom? hguarded fuel host n).visible_eq.symm

/-- A loop that suspends, then reads its variable again and leaves. The loop behind the `break`
takes the jump. -/
def Program.pulse : Program where
  statements := [.declare "on" (.bool true),
    .loop (.variable "on") [.suspend, .cond (.variable "on") [.leave], .loop (.bool false) []]]

/-- The loop has stored the value before it reads the variable again, and what the slot held at
first makes no difference to the second call. -/
theorem Program.initialized_pulse :
    pulse.DeclaresAtTop ∧ pulse.BreaksInLoops ∧ ∃ f, pulse.compile {} = .ok f ∧
      (∃ m, Machine.History {} (({} : Machine).load f) [4, 3, 2, 1, 0] m ∧
        f.instructions[m.ip]? = some ⟨.getLocal, .slot 0⟩ ∧
        ∃ store ∈ [4, 3, 2, 1, 0], pulse.InitializesAt 0 store) ∧
      (Machine.stopFrom? {} 20 (fun _ _ => {}) ((({} : Machine).load f).withLocals #[.bool false])
        1).map Machine.Stop.visible =
        (Machine.stopFrom? {} 20 (fun _ _ => {}) (({} : Machine).load f) 1).map
          Machine.Stop.visible := by
  have htop : pulse.DeclaresAtTop := by decide
  have hbreaks : pulse.BreaksInLoops := by decide
  obtain ⟨f, hcompile, done, m, hhistory, rfl, hi⟩ : ∃ f, pulse.compile {} = .ok f ∧
      ∃ done m, Machine.History {} (({} : Machine).load f) done m ∧ done = [4, 3, 2, 1, 0] ∧
        f.instructions[m.ip]? = some ⟨.getLocal, .slot 0⟩ :=
    ⟨_, rfl, _, _, .resume (.next (.next (.next (.next .start rfl) rfl) rfl) rfl) rfl rfl {},
      rfl, rfl⟩
  obtain ⟨hreads, hvisible⟩ := initialized_of_compile hcompile htop hbreaks {} {}
  obtain ⟨slot, store, hslot, hstore, -, hmem⟩ := hreads _ m _ hhistory hi rfl
  cases hslot
  refine ⟨htop, hbreaks, f, hcompile, ⟨m, hhistory, hi, store, hmem, hstore⟩, ?_⟩
  apply hvisible
  cases hcompile
  rfl

end FrameScript
