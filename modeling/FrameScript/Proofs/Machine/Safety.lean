import FrameScript.Proofs.Machine.Fits
import FrameScript.Proofs.Machine.Instructions
import FrameScript.Proofs.Machine.Runs

/-!
# Compiled code is safe

A machine that runs compiled code always finds what the next instruction needs: its stack has the
height that the index has in the code, and its slots are those of the function. The registry at run
time need not be the one that the program was compiled against. A run can therefore fail in three
ways only: a value has the wrong kind, a `break` has no target, or a builtin does not answer.
-/

namespace FrameScript

/-- What holds of a machine that is about to carry out an instruction of a function. -/
structure Machine.Within (f : Function) (m : Machine) : Prop where
  function_eq : m.function = f
  ip_lt : m.ip < f.instructions.size
  height : m.stack.length = f.heightAt m.ip
  slots : m.locals.size = f.localCount

/-- The reasons for which a compiled program can fail. -/
inductive FaultCause (p : Program) (f : Function) (r : Registry) (m : Machine) : Fault → Prop where
  /-- An operand is not a number. -/
  | operand {op : BinaryOp} {value : Value}
    (at_ip : f.instructions[m.ip]? = some { op := op.opcode }) (mem : value ∈ m.stack.take 2)
    (kind : value.number? = none) : FaultCause p f r m (.notNumber value)
  /-- A condition is not a truth value. -/
  | condition {target : Nat} {x : Float}
    (at_ip : f.instructions[m.ip]? = some { op := .branch, operand := .jump target })
    (top : m.stack.head? = some (.number x)) : FaultCause p f r m (.notBool (.number x))
  /-- The jump of a `break` has no target. -/
  | stray (listed : m.ip ∈ f.unresolvedJumps) (source : p.BreaksAt m.ip) :
    FaultCause p f r m (.noTarget .goto)
  /-- The registry at run time lacks a builtin. -/
  | missing {site : CallSite}
    (at_ip : f.instructions[m.ip]? = some { op := .call, operand := .callee site })
    (lacks : r.find? site.name = none) :
    FaultCause p f r m (Machine.faultOf (.unknownFunction site.name))
  /-- A builtin fails. -/
  | builtin {site : CallSite} {b : Builtin} {error : ScriptError}
    (at_ip : f.instructions[m.ip]? = some { op := .call, operand := .callee site })
    (found : r.find? site.name = some b)
    (fails : (b.action m.output (m.stack.take site.arity).reverse).2 = .error error) :
    FaultCause p f r m (Machine.faultOf error)
  /-- A builtin returns nothing where a value is needed. -/
  | valueless {site : CallSite} {b : Builtin}
    (at_ip : f.instructions[m.ip]? = some { op := .call, operand := .callee site })
    (found : r.find? site.name = some b) (needed : site.producesValue = true)
    (nothing : (b.action m.output (m.stack.take site.arity).reverse).2 = .ok none) :
    FaultCause p f r m (.noValue site.name)

/-- An instruction leads back into the function, ends the call with an empty stack, or fails for a
known reason. -/
inductive Machine.Step.Safe (p : Program) (f : Function) (r : Registry) (m : Machine) :
    Machine.Step → Prop where
  | next {m' : Machine} (within : m'.Within f) : Safe p f r m (.next m')
  | suspend {m' : Machine} (within : m'.Within f) (empty : m'.stack = [])
    (status_eq : m'.status = .suspended) : Safe p f r m (.stop m')
  | finish {m' : Machine} (empty : m'.stack = []) (status_eq : m'.status = .finished) :
    Safe p f r m (.stop m')
  | abort {m' : Machine} {fault : Fault} (cause : FaultCause p f r m fault) :
    Safe p f r m (.abort m' fault)

namespace Machine.Within

variable {p : Program} {names : List String} {f : Function} {r : Registry} {m : Machine}

/-- A call consumes its arguments and leaves a value exactly if its site says so. -/
theorem call_safe (hcompiled : Compiled p names f) (h : m.Within f) {site : CallSite}
    (hi : f.instructions[m.ip]? = some { op := .call, operand := .callee site })
    (high : site.arity ≤ f.heightAt m.ip) : Step.Safe p f r m (m.call r site) := by
  have hstack : site.arity ≤ m.stack.length := by rwa [h.height]
  have hnext := hcompiled.succ_lt_size hi (by decide)
  have hheight := Function.heightAt_succ hi
  cases hfind : r.find? site.name with
  | none =>
    have hcall : r.call site.name m.output (m.stack.take site.arity).reverse =
        (m.output, .error (.unknownFunction site.name)) := by
      rw [Registry.call, hfind]
    rw [call_error hstack hcall]
    exact .abort (.missing hi hfind)
  | some b =>
    rcases haction : b.action m.output (m.stack.take site.arity).reverse with ⟨output, result⟩
    have hcall :
        r.call site.name m.output (m.stack.take site.arity).reverse = (output, result) := by
      rw [Registry.call, hfind, ← haction]
    have hresult : (b.action m.output (m.stack.take site.arity).reverse).2 = result := by
      rw [haction]
    cases result with
    | error error =>
      rw [call_error hstack hcall]
      exact .abort (.builtin hi hfind hresult)
    | ok value? =>
      cases hsite : site.producesValue with
      | false =>
        rw [call_dropped hstack hcall hsite]
        refine .next ⟨h.function_eq, hnext, ?_, h.slots⟩
        rw [hheight, List.length_drop, h.height]
        simp [Instruction.heightAfter, hsite]
      | true =>
        cases value? with
        | none =>
          rw [call_none hstack hcall hsite]
          exact .abort (.valueless hi hfind hsite hresult)
        | some value =>
          rw [call_value hstack hcall hsite]
          refine .next ⟨h.function_eq, hnext, ?_, h.slots⟩
          rw [hheight, List.length_cons, List.length_drop, h.height]
          simp [Instruction.heightAfter, hsite]

/-- An operator finds two values and fails only if one of them is not a number. -/
theorem combine_safe (hcompiled : Compiled p names f) (h : m.Within f) {op : BinaryOp}
    (hi : f.instructions[m.ip]? = some { op := op.opcode }) (high : 2 ≤ f.heightAt m.ip) :
    Step.Safe p f r m (m.combine op.apply) := by
  have hnext := hcompiled.succ_lt_size hi (by cases op <;> decide)
  have hheight := Function.heightAt_succ hi
  rw [BinaryOp.heightAfter_opcode, ← h.height] at hheight
  rw [← h.height] at high
  match hstack : m.stack with
  | [] | [_] => simp [hstack] at high
  | right :: left :: rest =>
    cases hright : right.number? with
    | none =>
      rw [combine_right hstack hright]
      exact .abort (.operand hi (by simp [hstack]) hright)
    | some y =>
      obtain rfl : right = .number y := by
        cases right <;> simp_all [Value.number?]
      cases hleft : left.number? with
      | none =>
        rw [combine_left hstack hleft]
        exact .abort (.operand hi (by simp [hstack]) hleft)
      | some x =>
        obtain rfl : left = .number x := by
          cases left <;> simp_all [Value.number?]
        rw [combine_numbers hstack]
        refine .next ⟨h.function_eq, hnext, ?_, h.slots⟩
        rw [hheight, hstack]
        rfl

/-- A machine that is within compiled code stays there until a call ends or fails. -/
theorem step (hcompiled : Compiled p names f) (h : m.Within f) : Step.Safe p f r m (m.step r) := by
  obtain ⟨i, hi⟩ : ∃ i, f.instructions[m.ip]? = some i := ⟨_, Array.getElem?_eq_getElem h.ip_lt⟩
  have hheight := Function.heightAt_succ hi
  rw [Machine.step, h.function_eq, hi]
  dsimp only
  cases hcompiled.fits hi with
  | number x =>
    refine .next ⟨h.function_eq, hcompiled.succ_lt_size hi (by decide), ?_, h.slots⟩
    simp [hheight, Instruction.heightAfter, h.height]
  | bool b =>
    refine .next ⟨h.function_eq, hcompiled.succ_lt_size hi (by decide), ?_, h.slots⟩
    simp [hheight, Instruction.heightAfter, h.height]
  | get hslot =>
    rw [perform_getLocal (by rwa [h.slots])]
    refine .next ⟨h.function_eq, hcompiled.succ_lt_size hi (by decide), ?_, h.slots⟩
    simp [hheight, Instruction.heightAfter, h.height]
  | set hslot high =>
    rw [← h.height] at high
    obtain ⟨value, rest, hstack⟩ := List.exists_cons_of_length_pos high
    rw [perform_setLocal (by rwa [h.slots]) hstack]
    refine .next ⟨h.function_eq, hcompiled.succ_lt_size hi (by decide), ?_, by simp [h.slots]⟩
    simp [hheight, Instruction.heightAfter, ← h.height, hstack]
  | binary op high =>
    rw [perform_opcode]
    exact h.combine_safe hcompiled hi high
  | call high => exact h.call_safe hcompiled hi high
  | branch high inside level =>
    rw [← h.height] at high
    obtain ⟨value, rest, hstack⟩ := List.exists_cons_of_length_pos high
    rw [perform_branch hstack]
    cases value with
    | number x => exact .abort (.condition hi (by simp [hstack]))
    | bool b =>
      cases b with
      | true =>
        refine .next ⟨h.function_eq, hcompiled.succ_lt_size hi (by decide), ?_, h.slots⟩
        simp [hheight, Instruction.heightAfter, ← h.height, hstack]
      | false =>
        refine .next ⟨h.function_eq, inside, ?_, h.slots⟩
        simp [level, ← h.height, hstack]
  | goto inside level => exact .next ⟨h.function_eq, inside, by rw [level, h.height], h.slots⟩
  | stray hsite =>
    have hlisted := Function.mem_unresolvedJumps_iff.mpr ⟨_, hi, rfl, rfl⟩
    exact .abort (.stray hlisted hsite)
  | suspend low =>
    have hempty : m.stack = [] := List.eq_nil_of_length_eq_zero (h.height.trans low)
    refine .suspend ⟨h.function_eq, hcompiled.succ_lt_size hi (by decide), ?_, h.slots⟩ hempty rfl
    simp [hheight, Instruction.heightAfter, h.height]
  | finish low =>
    have hempty : m.stack = [] := List.eq_nil_of_length_eq_zero (h.height.trans low)
    exact .finish hempty rfl

end Machine.Within

namespace Machine

variable {p : Program} {names : List String} {f : Function} {r : Registry} {m m₀ : Machine}
  {fuel n : Nat}

/-- Whatever a machine did before, it is within a compiled function whenever it is about to carry
out an instruction of it. -/
theorem Reaches.within (hcompiled : Compiled p names f) (h : Reaches r f m₀ m) : m.Within f := by
  induction h with
  | start => exact ⟨rfl, by simp [load, hcompiled.size_eq], rfl, by simp [load]⟩
  | next _ hstep ih =>
    have hsafe := ih.step hcompiled (r := r)
    rw [hstep] at hsafe
    cases hsafe with
    | next within => exact within
  | resume _ hstep hsuspended ih =>
    have hsafe := ih.step hcompiled (r := r)
    rw [hstep] at hsafe
    cases hsafe with
    | suspend within _ _ => exact ⟨within.function_eq, within.ip_lt, within.height, within.slots⟩
    | finish _ hfinished => simp [hfinished] at hsuspended

/-- What the end of a call says about the machine: the stack is empty unless a fault came first. -/
structure Rests (r : Registry) (f : Function) (m₀ : Machine) (stop : Stop) : Prop where
  ok : ∀ status, stop.1 = .ok status → stop.2.status = status ∧ stop.2.stack = [] ∧
    (status = .suspended ∨ status = .finished)
  error : ∀ fault, stop.1 = .error fault → stop.2.status = .finished ∧
    ∃ m m', Reaches r f m₀ m ∧ m.step r = .abort m' fault

/-- A call that ends in a compiled run leaves the stack empty if it succeeds, and has one of the
known causes if it fails. -/
theorem Reaches.rests (hcompiled : Compiled p names f) (h : Reaches r f m₀ m) {stop : Stop}
    (hends : Ends r m stop) : Rests r f m₀ stop := by
  cases hends with
  | stop hstep =>
    have hsafe := (h.within hcompiled).step hcompiled (r := r)
    rw [hstep] at hsafe
    refine ⟨fun status hstatus => ?_, fun _ hfault => by simp at hfault⟩
    cases hstatus
    cases hsafe with
    | suspend _ hempty hsuspended => exact ⟨rfl, hempty, .inl hsuspended⟩
    | finish hempty hfinished => exact ⟨rfl, hempty, .inr hfinished⟩
  | abort hstep =>
    refine ⟨fun _ hstatus => by simp at hstatus, fun fault hfault => ?_⟩
    cases hfault
    exact ⟨rfl, m, _, h, hstep⟩

/-- Every call of a run carries out instructions of the function, or finds that an earlier call has
ended the run and leaves the machine as it is. -/
theorem exists_of_nthStop? (hcompiled : Compiled p names f) {stop : Stop}
    (h : m₀.nthStop? r fuel f n = some stop) :
    ∃ k ≤ n, ∃ last, m₀.nthStop? r fuel f k = some last ∧
      (∃ m, Reaches r f m₀ m ∧ Ends r m last) ∧
      (stop = last ∧ k = n ∨ last.2.status = .finished ∧ stop = (.ok .finished, last.2)) := by
  induction n generalizing stop with
  | zero =>
    obtain ⟨_, m, hsteps, hends⟩ := exists_of_execute h
    exact ⟨0, Nat.le_refl 0, stop, h, ⟨m, Reaches.start.steps hsteps, hends⟩, .inl ⟨rfl, rfl⟩⟩
  | succ n ih =>
    obtain ⟨before, hbefore, hresume⟩ := Option.bind_eq_some_iff.mp h
    obtain ⟨k, hk, last, hlast, hends, hcase⟩ := ih hbefore
    have hsame : before.2 = last.2 := by
      rcases hcase with ⟨rfl, -⟩ | ⟨-, rfl⟩ <;> rfl
    by_cases hfinished : last.2.status = .finished
    · refine ⟨k, Nat.le_succ_of_le hk, last, hlast, hends, .inr ⟨hfinished, ?_⟩⟩
      rw [hsame, resume, hfinished] at hresume
      simpa [hfinished] using hresume.symm
    · -- only a call that suspends can be resumed
      obtain ⟨m, hreaches, hend⟩ := hends
      have hrests := hreaches.rests hcompiled hend
      cases hend with
      | abort hstep => exact absurd rfl hfinished
      | @stop m' hstep =>
        obtain ⟨-, -, hstatus⟩ := hrests.ok m'.status rfl
        have hsuspended : m'.status = .suspended := hstatus.resolve_right hfinished
        rw [hsame, resume, hsuspended] at hresume
        obtain ⟨_, m'', hsteps, hend'⟩ := exists_of_execute hresume
        have hreaches' := (hreaches.resume hstep hsuspended).steps hsteps
        exact ⟨n + 1, Nat.le_refl _, stop, h, ⟨m'', hreaches', hend'⟩, .inl ⟨rfl, rfl⟩⟩

end Machine

/-- Compiled code is safe on every machine and with every registry. The height of the stack is a
function of the index and is zero where statements start and end, the slots are those of the
function, and every fault has one of the known reasons. A call that returns without a fault leaves
the stack empty; after a fault, further calls leave the machine as it is. -/
theorem Program.safe_of_compile {p : Program} {r₁ : Registry} {f : Function}
    (h : p.compile r₁ = .ok f) (r : Registry) (m₀ : Machine) :
    (∀ b ∈ p.boundaries, f.heightAt b = 0) ∧
    (∀ m, Machine.Reaches r f m₀ m →
      m.function = f ∧ m.ip < f.instructions.size ∧ m.stack.length = f.heightAt m.ip ∧
      m.locals.size = f.localCount ∧
      ∀ m' fault, m.step r = .abort m' fault → FaultCause p f r m fault) ∧
    (∀ fuel n result m, m₀.nthStop? r fuel f n = some (result, m) →
      (m.stack = [] ∧ (result = .ok .suspended ∨ result = .ok .finished)) ∨
      ∃ k ≤ n, ∃ fault m₁ m₂, m₀.nthStop? r fuel f k = some (.error fault, m) ∧
        Machine.Reaches r f m₀ m₁ ∧ m₁.step r = .abort m₂ fault ∧
        (k = n ∧ result = .error fault ∨ k < n ∧ result = .ok .finished)) := by
  obtain ⟨names, hcompiled⟩ := compiled_of_compile h
  refine ⟨fun b hb => hcompiled.heightAt_of_mem_boundaries hb, fun m hm => ?_,
    fun fuel n result m hstop => ?_⟩
  · have hwithin := hm.within hcompiled
    refine ⟨hwithin.function_eq, hwithin.ip_lt, hwithin.height, hwithin.slots, ?_⟩
    intro m' fault hstep
    have hsafe := hwithin.step hcompiled (r := r)
    rw [hstep] at hsafe
    cases hsafe with
    | abort cause => exact cause
  · obtain ⟨k, hk, ⟨lastResult, last⟩, hlast, ⟨m₁, hreaches, hends⟩, hcase⟩ :=
      Machine.exists_of_nthStop? hcompiled hstop
    have hrests := hreaches.rests hcompiled hends
    cases lastResult with
    | ok status =>
      left
      obtain ⟨hstatus, hempty, hkind⟩ := hrests.ok status rfl
      rcases hcase with ⟨heq, -⟩ | ⟨-, heq⟩
      · cases heq
        rcases hkind with rfl | rfl
        · exact ⟨hempty, .inl rfl⟩
        · exact ⟨hempty, .inr rfl⟩
      · cases heq
        exact ⟨hempty, .inr rfl⟩
    | error fault =>
      right
      obtain ⟨-, m₁, m₂, hreaches₁, hstep⟩ := hrests.error fault rfl
      rcases hcase with ⟨heq, rfl⟩ | ⟨-, heq⟩
      · cases heq
        exact ⟨k, hk, fault, m₁, m₂, hlast, hreaches₁, hstep, .inl ⟨rfl, rfl⟩⟩
      · cases heq
        refine ⟨k, hk, fault, m₁, m₂, hlast, hreaches₁, hstep, .inr ⟨?_, rfl⟩⟩
        by_contra hge
        obtain rfl : k = n := by omega
        rw [hlast] at hstop
        cases hstop

/-- A loop that stops once in every frame. -/
def Program.idle : Program where
  statements := [.loop (.bool true) [.suspend]]

/-- The loop suspends in its second frame as well, with an empty stack and no value at any boundary
of a statement. -/
theorem Program.safe_idle :
    ∃ f, idle.compile {} = .ok f ∧
      ∃ m, ({} : Machine).nthStop? {} 10 f 1 = some (.ok .suspended, m) ∧
      m.stack = [] ∧ ∀ b ∈ idle.boundaries, f.heightAt b = 0 := by
  obtain ⟨f, hcompile, m, hstop⟩ : ∃ f, idle.compile {} = .ok f ∧
      ∃ m, ({} : Machine).nthStop? {} 10 f 1 = some (.ok .suspended, m) := ⟨_, rfl, _, rfl⟩
  obtain ⟨hboundaries, -, hstops⟩ := safe_of_compile hcompile {} {}
  rcases hstops 10 1 _ m hstop with ⟨hempty, -⟩ | ⟨_, _, _, _, _, _, _, _, ⟨-, h⟩ | ⟨-, h⟩⟩
  · exact ⟨f, hcompile, m, hstop, hempty, hboundaries⟩
  · cases h
  · cases h

end FrameScript
