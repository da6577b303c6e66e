import FrameScript.Machine
import FrameScript.Compiler

/-!
# Single instructions

What the machine does with an instruction whose operands are on the stack, and where any instruction
leads.
-/

namespace FrameScript

/-- What an operator makes of two numbers. -/
def BinaryOp.apply : BinaryOp → Float → Float → Value
  | .add, x, y => .number (x + y)
  | .sub, x, y => .number (x - y)
  | .mul, x, y => .number (x * y)
  | .div, x, y => .number (x / y)
  | .less, x, y => .bool (x < y)
  | .greater, x, y => .bool (x > y)

/-- The indices to which an instruction at an index leads. -/
def Instruction.successors (i : Instruction) (index : Nat) : List Nat :=
  match i.op with
  | .suspend | .finish => []
  | .goto => i.target?.toList
  | .branch => (index + 1) :: i.target?.toList
  | _ => [index + 1]

namespace Machine

variable {m : Machine} {r : Registry}

/-- A step carries out the instruction that the machine is at. -/
theorem step_eq {i : Instruction} (h : m.function.instructions[m.ip]? = some i) :
    m.step r = m.perform r i := by
  rw [step, h]

/-- The instruction of a binary operator applies it to two numbers. -/
theorem perform_opcode (op : BinaryOp) :
    m.perform r { op := op.opcode } = m.combine op.apply := by
  cases op <;> rfl

/-- Two numbers are replaced by the result. -/
theorem combine_numbers {f : Float → Float → Value} {x y : Float} {rest : List Value}
    (h : m.stack = .number y :: .number x :: rest) :
    m.combine f = .next { m with stack := f x y :: rest, ip := m.ip + 1 } := by
  simp [combine, popNumber, pop, h, Value.number?, push, advance]

/-- The right operand is looked at first. -/
theorem combine_right {f : Float → Float → Value} {right left : Value} {rest : List Value}
    (h : m.stack = right :: left :: rest) (hright : right.number? = none) :
    m.combine f = .abort { m with stack := left :: rest } (.notNumber right) := by
  simp [combine, popNumber, pop, h, hright]

/-- The left operand is looked at once the right one was found to be a number. -/
theorem combine_left {f : Float → Float → Value} {y : Float} {left : Value} {rest : List Value}
    (h : m.stack = .number y :: left :: rest) (hleft : left.number? = none) :
    m.combine f = .abort { m with stack := rest } (.notNumber left) := by
  simp only [combine, popNumber, pop, h, hleft, show (Value.number y).number? = some y from rfl]

/-- The slot of an operand is found if the machine has it. -/
theorem slotOf_slot {op : Opcode} {index : Nat} (h : index < m.locals.size) :
    m.slotOf { op, operand := .slot index } = .ok index := by
  simp [slotOf, h]

/-- A variable is read from its slot. -/
theorem perform_getLocal {index : Nat} (h : index < m.locals.size) :
    m.perform r { op := .getLocal, operand := .slot index } =
      .next { m with stack := m.locals.getD index .zero :: m.stack, ip := m.ip + 1 } := by
  rw [perform, slotOf_slot h]
  rfl

/-- An assignment moves a value from the stack into a slot. -/
theorem perform_setLocal {index : Nat} {value : Value} {rest : List Value}
    (h : index < m.locals.size) (hstack : m.stack = value :: rest) :
    m.perform r { op := .setLocal, operand := .slot index } = .next { m with
      stack := rest, locals := m.locals.setIfInBounds index value, ip := m.ip + 1 } := by
  rw [perform, slotOf_slot h]
  simp [pop, hstack, advance]

/-- A branch goes on behind itself or to its target, and only a number stops it. -/
theorem perform_branch {target : Nat} {value : Value} {rest : List Value}
    (h : m.stack = value :: rest) :
    m.perform r { op := .branch, operand := .jump target } =
      match value with
      | .bool true => .next { m with stack := rest, ip := m.ip + 1 }
      | .bool false => .next { m with stack := rest, ip := target }
      | .number _ => .abort { m with stack := rest } (.notBool value) := by
  rw [perform]
  simp only [pop, h]
  split <;> rfl

section

variable {site : CallSite} {output : Output}

/-- With enough values on the stack, a call does what its builtin answers. -/
theorem call_error {error : ScriptError} (h : site.arity ≤ m.stack.length)
    (hcall : r.call site.name m.output (m.stack.take site.arity).reverse = (output, .error error)) :
    m.call r site = .abort { m with stack := m.stack.drop site.arity, output } (faultOf error) := by
  simp only [call, if_neg (Nat.not_lt.mpr h), hcall]

/-- A call statement drops what its builtin answers. -/
theorem call_dropped {value? : Option Value} (h : site.arity ≤ m.stack.length)
    (hcall : r.call site.name m.output (m.stack.take site.arity).reverse = (output, .ok value?))
    (hsite : site.producesValue = false) :
    m.call r site =
      .next { m with stack := m.stack.drop site.arity, output, ip := m.ip + 1 } := by
  simp only [call, if_neg (Nat.not_lt.mpr h), hcall, hsite]
  rfl

/-- The value that a builtin answers takes the place of the arguments. -/
theorem call_value {value : Value} (h : site.arity ≤ m.stack.length)
    (hcall : r.call site.name m.output (m.stack.take site.arity).reverse = (output, .ok value))
    (hsite : site.producesValue = true) :
    m.call r site =
      .next { m with stack := value :: m.stack.drop site.arity, output, ip := m.ip + 1 } := by
  simp only [call, if_neg (Nat.not_lt.mpr h), hcall, hsite]
  rfl

/-- A call whose value is needed aborts if its builtin answers none. -/
theorem call_none (h : site.arity ≤ m.stack.length)
    (hcall : r.call site.name m.output (m.stack.take site.arity).reverse = (output, .ok none))
    (hsite : site.producesValue = true) :
    m.call r site =
      .abort { m with stack := m.stack.drop site.arity, output } (.noValue site.name) := by
  simp only [call, if_neg (Nat.not_lt.mpr h), hcall, hsite]
  rfl

end

/-! ### Where instructions lead -/

/-- What a machine is like behind an instruction: it runs the same function, and it is at an index
to which the instruction leads. -/
structure Continues (m : Machine) (i : Instruction) (m' : Machine) : Prop where
  function_eq : m'.function = m.function
  status_eq : m'.status = m.status
  ip_mem : m'.ip ∈ i.successors m.ip

/-- What is left when an instruction aborts: values were popped at most, unless a call came to its
builtin. -/
inductive Aborts (r : Registry) (m : Machine) (i : Instruction) : Machine → Fault → Prop where
  | popped {stack : List Value} {fault : Fault} (suffix : stack <:+ m.stack)
    (ne_noValue : ∀ name, fault ≠ .noValue name) : Aborts r m i { m with stack } fault
  | failed {site : CallSite} {output : Output} {error : ScriptError}
    (instruction_eq : i = ⟨.call, .callee site⟩) (enough : site.arity ≤ m.stack.length)
    (answer : r.call site.name m.output (m.stack.take site.arity).reverse =
      (output, .error error)) :
    Aborts r m i { m with stack := m.stack.drop site.arity, output } (faultOf error)
  | noValue {site : CallSite} {output : Output} (instruction_eq : i = ⟨.call, .callee site⟩)
    (producesValue : site.producesValue = true) (enough : site.arity ≤ m.stack.length)
    (answer : r.call site.name m.output (m.stack.take site.arity).reverse = (output, .ok none)) :
    Aborts r m i { m with stack := m.stack.drop site.arity, output } (.noValue site.name)

/-- A step that does not stop, and what holds if it goes on and if it aborts. -/
inductive Step.LeadsTo (P : Machine → Prop) (Q : Machine → Fault → Prop) : Step → Prop where
  | next {m : Machine} (h : P m) : LeadsTo P Q (.next m)
  | abort {m : Machine} {fault : Fault} (h : Q m fault) : LeadsTo P Q (.abort m fault)

/-- A step that does not stop and leads to a certain status if it goes on. -/
inductive Step.GoesOn (status : Status) : Step → Prop where
  | next {m : Machine} (h : m.status = status) : GoesOn status (.next m)
  | abort {m : Machine} {fault : Fault} : GoesOn status (.abort m fault)

section

variable {P : Machine → Prop} {Q : Machine → Fault → Prop} {i : Instruction}

/-- To pop is safe if an empty stack and a popped value are both accounted for. -/
theorem pop_leadsTo {continuation : Value → Machine → Step} (hunder : Q m .underflow)
    (h : ∀ value rest, m.stack = value :: rest →
      (continuation value { m with stack := rest }).LeadsTo P Q) :
    (m.pop continuation).LeadsTo P Q := by
  unfold pop
  split
  · exact .abort hunder
  · next value rest hstack => exact h value rest hstack

/-- An arithmetic instruction aborts with a part of the stack, or goes on behind itself. -/
theorem combine_leadsTo (h : ∀ stack, P { m with stack, ip := m.ip + 1 })
    (f : Float → Float → Value) : (m.combine f).LeadsTo P (m.Aborts r i) := by
  unfold combine popNumber
  refine pop_leadsTo (.popped List.suffix_rfl nofun) fun right rest hright => ?_
  have hrest : rest <:+ m.stack := by
    rw [hright]
    exact List.suffix_cons _ _
  dsimp only
  split
  · exact .abort (.popped hrest nofun)
  · refine pop_leadsTo (.popped hrest nofun) fun left under hleft => ?_
    have hunder : under <:+ rest := by
      obtain rfl : rest = left :: under := hleft
      exact List.suffix_cons _ _
    dsimp only
    split
    · exact .abort (.popped (hunder.trans hrest) nofun)
    · exact .next (h _)

/-- A jump goes to its target, and aborts if it has none. -/
theorem jump_leadsTo {stack : List Value} (hstack : stack <:+ m.stack)
    (h : ∀ target, i.operand = .jump target → P { m with stack, ip := target }) :
    (jump { m with stack } i).LeadsTo P (m.Aborts r i) := by
  unfold jump
  split
  · next target hoperand => exact .next (h target hoperand)
  · exact .abort (.popped hstack nofun)
  · exact .abort (.popped hstack nofun)

/-- A call goes on behind itself, and how it aborts is told by its builtin. -/
theorem call_leadsTo {site : CallSite} (hi : i = ⟨.call, .callee site⟩)
    (h : ∀ stack output, P { m with stack, output, ip := m.ip + 1 }) :
    (m.call r site).LeadsTo P (m.Aborts r i) := by
  by_cases hlow : m.stack.length < site.arity
  · rw [call, if_pos hlow]
    exact .abort (.popped List.suffix_rfl nofun)
  · have henough : site.arity ≤ m.stack.length := Nat.le_of_not_lt hlow
    rcases hcall : r.call site.name m.output (m.stack.take site.arity).reverse with
      ⟨output, error | value?⟩
    · rw [call_error henough hcall]
      exact .abort (.failed hi henough hcall)
    · cases hsite : site.producesValue with
      | false =>
        rw [call_dropped henough hcall hsite]
        exact .next (h _ _)
      | true =>
        cases value? with
        | none =>
          rw [call_none henough hcall hsite]
          exact .abort (.noValue hi hsite henough hcall)
        | some value =>
          rw [call_value henough hcall hsite]
          exact .next (h _ _)

end

/-- A slot that is not found is never reported as a missing value. -/
theorem ne_noValue_of_slotOf {i : Instruction} {fault : Fault} (h : m.slotOf i = .error fault) :
    ∀ name, fault ≠ .noValue name := by
  unfold slotOf at h
  split at h
  · split at h
    · cases h
    · cases h
      nofun
  · cases h
    nofun

/-- Only two instructions stop. -/
theorem perform_leadsTo {i : Instruction} (hsuspend : i.op ≠ .suspend) (hfinish : i.op ≠ .finish) :
    (m.perform r i).LeadsTo (m.Continues i) (m.Aborts r i) := by
  have hmalformed : m.Aborts r i m (.malformed i) := .popped List.suffix_rfl nofun
  have hunder : m.Aborts r i m .underflow := .popped List.suffix_rfl nofun
  unfold perform
  cases hop : i.op with
  | suspend => exact absurd hop hsuspend
  | finish => exact absurd hop hfinish
  | add | sub | mul | div | less | greater =>
    exact combine_leadsTo (fun stack => ⟨rfl, rfl, by simp [Instruction.successors, hop]⟩) _
  | goto =>
    refine jump_leadsTo List.suffix_rfl fun target htarget => ⟨rfl, rfl, ?_⟩
    simp [Instruction.successors, Instruction.target?, Instruction.isJump, hop, htarget]
  | call =>
    dsimp only
    split
    · next site hsite =>
      have hi : i = ⟨.call, .callee site⟩ := by rw [← hop, ← hsite]
      exact call_leadsTo hi fun _ _ => ⟨rfl, rfl, by simp [Instruction.successors, hop]⟩
    · exact .abort hmalformed
  | constNumber | constBool =>
    dsimp only
    split
    · exact .next ⟨rfl, rfl, by simp [Instruction.successors, hop]⟩
    · exact .abort hmalformed
  | getLocal =>
    dsimp only
    split
    · next fault hslot => exact .abort (.popped List.suffix_rfl (ne_noValue_of_slotOf hslot))
    · exact .next ⟨rfl, rfl, by simp [Instruction.successors, hop]⟩
  | setLocal =>
    dsimp only
    split
    · next fault hslot => exact .abort (.popped List.suffix_rfl (ne_noValue_of_slotOf hslot))
    · exact pop_leadsTo hunder fun _ _ _ =>
        .next ⟨rfl, rfl, by simp [Instruction.successors, hop]⟩
  | branch =>
    refine pop_leadsTo hunder fun value rest hstack => ?_
    have hrest : rest <:+ m.stack := by
      rw [hstack]
      exact List.suffix_cons _ _
    split
    · exact .next ⟨rfl, rfl, by simp [Instruction.successors, hop]⟩
    · refine jump_leadsTo hrest fun target htarget => ⟨rfl, rfl, ?_⟩
      simp [Instruction.successors, Instruction.target?, Instruction.isJump, hop, htarget]
    · exact .abort (.popped hrest nofun)

/-- One instruction suspends, and one ends the program. -/
theorem perform_cases (m : Machine) (r : Registry) (i : Instruction) :
    (m.perform r i).GoesOn m.status ∨
      i.op = .suspend ∧ m.perform r i = .stop { m with ip := m.ip + 1, status := .suspended } ∨
      i.op = .finish ∧ m.perform r i = .stop { m with status := .finished } := by
  by_cases hsuspend : i.op = .suspend
  · refine .inr (.inl ⟨hsuspend, ?_⟩)
    rw [perform, hsuspend]
  · by_cases hfinish : i.op = .finish
    · refine .inr (.inr ⟨hfinish, ?_⟩)
      rw [perform, hfinish]
    · left
      have hleads := perform_leadsTo (m := m) (r := r) hsuspend hfinish
      generalize m.perform r i = step at hleads
      cases hleads with
      | next h => exact .next h.status_eq
      | abort => exact .abort

/-- An instruction that does not stop leads on or aborts in one of the known ways. -/
theorem leadsTo_of_ne_stop {i : Instruction} (h : ∀ m', m.perform r i ≠ .stop m') :
    (m.perform r i).LeadsTo (m.Continues i) (m.Aborts r i) := by
  apply perform_leadsTo
  · intro hop
    exact h _ (by rw [perform, hop])
  · intro hop
    exact h _ (by rw [perform, hop])

/-- A step that goes on does so at an index to which its instruction leads. -/
theorem continues_of_step {m' : Machine} (h : m.step r = .next m') :
    ∃ i, m.function.instructions[m.ip]? = some i ∧ m.Continues i m' := by
  cases hi : m.function.instructions[m.ip]? with
  | none =>
    rw [step, hi] at h
    cases h
  | some i =>
    rw [step_eq hi] at h
    have hleads := leadsTo_of_ne_stop (m := m) (r := r) (i := i) (by simp [h])
    rw [h] at hleads
    cases hleads with
    | next hcontinues => exact ⟨i, rfl, hcontinues⟩

/-- A step that aborts does so with its instruction, or because there is none. -/
theorem aborts_of_step {m' : Machine} {fault : Fault} (h : m.step r = .abort m' fault) :
    (m' = m ∧ fault = .pastEnd m.ip) ∨
      ∃ i, m.function.instructions[m.ip]? = some i ∧ m.Aborts r i m' fault := by
  cases hi : m.function.instructions[m.ip]? with
  | none =>
    rw [step, hi] at h
    cases h
    exact .inl ⟨rfl, rfl⟩
  | some i =>
    rw [step_eq hi] at h
    have hleads := leadsTo_of_ne_stop (m := m) (r := r) (i := i) (by simp [h])
    rw [h] at hleads
    cases hleads with
    | abort haborts => exact .inr ⟨i, rfl, haborts⟩

end Machine

end FrameScript
