import FrameScript.Proofs.Compiler.Layout
import FrameScript.Proofs.Interpreter
import FrameScript.Proofs.Machine.Runs

/-!
# Compiled expressions

The code of an expression pushes the value that the tree has, with the same output, or it aborts
with the same fault. The slots do not change on the way.
-/

namespace FrameScript

/-- The slots of a machine hold what the store holds for the variables. -/
structure Slots (names : List String) (store : String → Value) (locals : Array Value) : Prop where
  size_eq : locals.size = names.length
  holds : ∀ name ∈ names, locals[names.idxOf name]? = some (store name)

/-- A value that is stored in the slot of a variable is stored for that variable only. -/
theorem Slots.set {names : List String} {store : String → Value} {locals : Array Value}
    {name : String} (h : Slots names store locals) (hname : name ∈ names) (value : Value) :
    Slots names (fun other => if other = name then value else store other)
      (locals.setIfInBounds (names.idxOf name) value) where
  size_eq := by rw [Array.size_setIfInBounds, h.size_eq]
  holds other hother := by
    have hlt := List.idxOf_lt_length_of_mem hname
    rw [← h.size_eq] at hlt
    by_cases heq : other = name
    · rw [if_pos heq, heq, Array.getElem?_setIfInBounds_self_of_lt hlt]
    · have hne : names.idxOf name ≠ names.idxOf other := fun hidx =>
        heq ((List.idxOf_inj hname).mp hidx).symm
      rw [if_neg heq, Array.getElem?_setIfInBounds_ne hne, h.holds other hother]

namespace Machine

/-- A machine comes to an instruction that aborts with a fault. The slots are as before. -/
def Faults (r : Registry) (m : Machine) (output : Output) (fault : Fault) : Prop :=
  ∃ n m' m'', Steps r n m m' ∧ m'.step r = .abort m'' fault ∧
    m''.locals = m.locals ∧ m''.output = output

/-- Code computes what the tree does: it leaves the result on the stack or aborts. -/
inductive Computes {α : Type} (r : Registry) (m : Machine) (size : Nat) (stack : α → List Value) :
    Attempt α → Prop where
  | ok {output : Output} {a : α}
    (steps : Steps r size m { m with ip := m.ip + size, stack := stack a, output }) :
    Computes r m size stack (output, .ok a)
  | error {output : Output} {fault : Fault} (faults : Faults r m output fault) :
    Computes r m size stack (output, .error fault)

variable {r : Registry} {m m' : Machine} {output : Output} {fault : Fault} {n : Nat}

/-- An instruction that aborts comes to its fault at once. -/
theorem Faults.abort (h : m.step r = .abort m' fault) (hlocals : m'.locals = m.locals)
    (houtput : m'.output = output) : Faults r m output fault :=
  ⟨0, m, m', .refl, h, hlocals, houtput⟩

/-- A fault that comes after some steps comes in the end. -/
theorem Faults.of_steps (h : Faults r m' output fault) (hsteps : Steps r n m m')
    (hlocals : m'.locals = m.locals) : Faults r m output fault := by
  obtain ⟨k, m₁, m₂, hrest, hstep, hslots, houtput⟩ := h
  exact ⟨k + n, m₁, m₂, hsteps.trans hrest, hstep, hslots.trans hlocals, houtput⟩

/-- Two calculations are computed by the code of one behind the code of the other. -/
theorem Computes.andThen {α β : Type} {first : Attempt α} {next : α → Output → Attempt β}
    {size size' : Nat} {stack : α → List Value} {stack' : β → List Value}
    (h : Computes r m size stack first)
    (hnext : ∀ a output, first = (output, .ok a) →
      Computes r { m with ip := m.ip + size, stack := stack a, output } size' stack'
        (next a output)) :
    Computes r m (size + size') stack' (first.andThen next) := by
  rcases first with ⟨output, result⟩
  cases h with
  | error faults => exact .error faults
  | @ok _ a steps =>
    have hcomputes := hnext a output rfl
    change Computes r m (size + size') stack' (next a output)
    rcases hresult : next a output with ⟨output', result'⟩
    rw [hresult] at hcomputes
    cases hcomputes with
    | error faults => exact .error (faults.of_steps steps rfl)
    | ok steps' =>
      have hall := steps.trans steps'
      rw [Nat.add_comm size' size, Nat.add_assoc] at hall
      exact .ok hall

/-- The same code computes a result that stands for the same values on the stack. -/
theorem Computes.map {α β : Type} {first : Attempt α} {size : Nat} {stack : α → List Value}
    {stack' : β → List Value} (h : Computes r m size stack first) (f : α → β)
    (hstack : ∀ a, stack' (f a) = stack a) :
    Computes r m size stack' (first.andThen fun a output => (output, .ok (f a))) := by
  cases h with
  | error faults => exact .error faults
  | @ok output a steps =>
    rw [← hstack a] at steps
    exact .ok steps

/-- An operator computes its result from two operands on the stack. -/
theorem computes_operator {op : BinaryOp} {right left : Value} {rest : List Value}
    (hcode : m.function.instructions[m.ip]? = some { op := op.opcode })
    (hstack : m.stack = right :: left :: rest) :
    Computes r m 1 (· :: rest) (m.output, op.evaluate left right) := by
  have hstep : m.step r = m.combine op.apply := by rw [step_eq hcode, perform_opcode]
  unfold BinaryOp.evaluate
  cases right with
  | bool b =>
    rw [combine_right hstack rfl] at hstep
    exact .error (.abort hstep rfl rfl)
  | number y =>
    cases left with
    | bool b =>
      rw [combine_left hstack rfl] at hstep
      exact .error (.abort hstep rfl rfl)
    | number x =>
      rw [combine_numbers hstack] at hstep
      exact .ok (.single hstep)

section

variable {name : String} {args rest : List Value} {value : Bool}

/-- The arguments of a call are on the stack in reverse order. -/
theorem split_arguments (hstack : m.stack = args.reverse ++ rest) :
    args.length ≤ m.stack.length ∧ (m.stack.take args.length).reverse = args ∧
      m.stack.drop args.length = rest := by
  refine ⟨by simp [hstack], ?_, ?_⟩
  · rw [hstack, List.take_left' (by simp), List.reverse_reverse]
  · rw [hstack, List.drop_left' (by simp)]

/-- A call takes its arguments from the stack and aborts if its builtin fails. -/
theorem computes_dropped
    (hcode : m.function.instructions[m.ip]? = some
      ⟨.call, .callee { name, arity := args.length, producesValue := false }⟩)
    (hstack : m.stack = args.reverse ++ rest) :
    Computes r m 1 (fun _ => rest) (callResult r name args m.output) := by
  have hstep := step_eq (r := r) hcode
  obtain ⟨henough, htake, hdrop⟩ := split_arguments hstack
  rcases hcall : r.call name m.output args with ⟨output, result⟩
  rw [callResult, hcall]
  rw [← htake] at hcall
  cases result with
  | error error =>
    have habort := hstep.trans (call_error henough hcall)
    exact .error (.abort habort rfl rfl)
  | ok value? =>
    have hnext := hstep.trans (call_dropped henough hcall rfl)
    dsimp only at hnext
    rw [hdrop] at hnext
    exact .ok (.single hnext)

/-- A call whose value is needed pushes it, and aborts if there is none. -/
theorem computes_value
    (hcode : m.function.instructions[m.ip]? = some
      ⟨.call, .callee { name, arity := args.length, producesValue := true }⟩)
    (hstack : m.stack = args.reverse ++ rest) :
    Computes r m 1 (· :: rest) (callValue r name args m.output) := by
  have hstep := step_eq (r := r) hcode
  obtain ⟨henough, htake, hdrop⟩ := split_arguments hstack
  rcases hcall : r.call name m.output args with ⟨output, result⟩
  rw [callValue, callResult, hcall]
  rw [← htake] at hcall
  cases result with
  | error error =>
    have habort := hstep.trans (call_error henough hcall)
    exact .error (.abort habort rfl rfl)
  | ok value? =>
    cases value? with
    | none =>
      have habort := hstep.trans (call_none henough hcall rfl)
      exact .error (.abort habort rfl rfl)
    | some value =>
      have hnext := hstep.trans (call_value henough hcall rfl)
      dsimp only at hnext
      rw [hdrop] at hnext
      exact .ok (.single hnext)

end

end Machine

/-- As many values are computed as there are expressions. -/
theorem Expr.length_of_listValues {r : Registry} {store : String → Value} {output' : Output}
    {values : List Value} : ∀ (es : List Expr) {output : Output},
    Expr.listValues r store es output = (output', .ok values) → values.length = es.length
  | [], output, h => by
    cases h
    rfl
  | e :: es, output, h => by
    simp only [listValues, Attempt.andThen_eq_ok] at h
    obtain ⟨_, x, -, _, xs, hrest, heq⟩ := h
    cases heq
    rw [List.length_cons, List.length_cons, length_of_listValues es hrest]

section

variable {r : Registry} {names : List String} {store : String → Value}

mutual

/-- The code of an expression computes its value. -/
theorem Expr.computes : ∀ (e : Expr) {m : Machine},
    CodeAt m.function.instructions m.ip (e.code names) → Slots names store m.locals →
    (∀ v ∈ e.mentioned, v ∈ names) →
    m.Computes r e.size (· :: m.stack) (e.value r store m.output)
  | .number x, m, hcode, _, _ =>
    .ok (.single (Machine.step_eq (codeAt_cons.mp hcode).1))
  | .bool b, m, hcode, _, _ =>
    .ok (.single (Machine.step_eq (codeAt_cons.mp hcode).1))
  | .variable name, m, hcode, hslots, hnames => by
    have hmem := hnames name (List.mem_singleton_self _)
    have hslot : names.idxOf name < m.locals.size := by
      rw [hslots.size_eq]
      exact List.idxOf_lt_length_of_mem hmem
    have hstep := Machine.step_eq (r := r) (codeAt_cons.mp hcode).1
    rw [Machine.perform_getLocal hslot, Array.getD_eq_getD_getElem?, hslots.holds name hmem]
      at hstep
    exact .ok (.single hstep)
  | .binary left op right, m, hcode, hslots, hnames => by
    rw [code, codeAt_append, codeAt_append, codeAt_cons, List.length_append, length_code,
      length_code] at hcode
    obtain ⟨⟨hleft, hright⟩, hop, -⟩ := hcode
    rw [← Nat.add_assoc] at hop
    rw [size, Nat.add_assoc]
    refine .andThen (computes left hleft hslots fun v hv => hnames v (List.mem_append_left _ hv)) ?_
    intro x output _
    refine .andThen (computes right hright hslots fun v hv => ?_) ?_
    · exact hnames v (List.mem_append_right _ hv)
    intro y output' _
    exact Machine.computes_operator hop rfl
  | .call name args, m, hcode, hslots, hnames => by
    rw [code, codeAt_append, codeAt_cons, length_listCode] at hcode
    obtain ⟨hargs, hcall, -⟩ := hcode
    rw [size]
    refine .andThen (listComputes args hargs hslots hnames) ?_
    intro values output hvalues
    rw [← length_of_listValues args hvalues] at hcall
    exact Machine.computes_value hcall rfl

/-- The code of several expressions computes all their values. -/
theorem Expr.listComputes : ∀ (es : List Expr) {m : Machine},
    CodeAt m.function.instructions m.ip (Expr.listCode names es) → Slots names store m.locals →
    (∀ v ∈ Expr.listMentioned es, v ∈ names) →
    m.Computes r (Expr.listSize es) (fun values => values.reverse ++ m.stack)
      (Expr.listValues r store es m.output)
  | [], m, _, _, _ => .ok .refl
  | e :: es, m, hcode, hslots, hnames => by
    rw [listCode, codeAt_append, length_code] at hcode
    obtain ⟨hfirst, hrest⟩ := hcode
    rw [listSize]
    refine .andThen (computes e hfirst hslots fun v hv => hnames v (List.mem_append_left _ hv)) ?_
    intro x output _
    have hothers : Machine.Computes r { m with ip := m.ip + e.size, stack := x :: m.stack, output }
        (listSize es) (fun values => values.reverse ++ x :: m.stack)
        (listValues r store es output) :=
      listComputes es hrest hslots fun v hv => hnames v (List.mem_append_right _ hv)
    exact hothers.map (x :: ·) fun xs => by simp

end

end

end FrameScript
