import FrameScript.Proofs.Compiler.Resolution
import FrameScript.Proofs.Machine.Heights
import FrameScript.Registry.Standard

/-!
# The shape of compiled code

Compiled code ends with its only `finish`, and every instruction before that has the operand that
its opcode needs, except that the jump of a `break` may have no target. Slots are those of declared
variables and calls those of the registry. A jump leads to the start or the end of a statement, and
it leads forward unless it closes a loop.
-/

namespace FrameScript

/-- Whether an instruction has an operand of the kind that its opcode needs. -/
def Instruction.isComplete (i : Instruction) : Bool :=
  match i.op, i.operand with
  | .call, .callee _ => true
  | .constNumber, .number _ => true
  | .constBool, .bool _ => true
  | .setLocal, .slot _ | .getLocal, .slot _ => true
  | .branch, .jump _ | .goto, .jump _ => true
  | .add, .absent | .sub, .absent | .mul, .absent | .div, .absent | .less, .absent
  | .greater, .absent | .suspend, .absent | .finish, .absent => true
  | _, _ => false

/-- The shape of the code of a program that was compiled against a registry. -/
structure Program.Shapes (p : Program) (r : Registry) (f : Function) : Prop where
  nonempty : 0 < f.instructions.size
  /-- At the places of statements and expressions lies their code. -/
  code_at : ∃ names, f.localCount = names.length ∧
    (∀ {start s}, (start, s) ∈ p.places →
      CodeAt f.instructions start (s.code names (operandAt f.instructions) start)) ∧
    ∀ {start e}, (start, e) ∈ p.expressionPlaces → CodeAt f.instructions start (e.code names)
  /-- The last instruction ends the program, and no other one does. -/
  finish_iff {index : Nat} {i : Instruction} (at_index : f.instructions[index]? = some i) :
    i.op = .finish ↔ index + 1 = f.instructions.size
  /-- Only the jump of a `break` may lack its operand. -/
  complete {index : Nat} {i : Instruction} (at_index : f.instructions[index]? = some i) :
    i.isComplete = true ∨ i = ⟨.goto, .absent⟩ ∧ (index, .leave) ∈ p.places
  slot_lt {index : Nat} {i : Instruction} {slot : Nat} (at_index : f.instructions[index]? = some i)
    (operand_eq : i.operand = .slot slot) : slot < f.localCount
  /-- A conditional jump leads forward. -/
  branch_forward {index : Nat} {i : Instruction} (at_index : f.instructions[index]? = some i)
    (op_eq : i.op = .branch) : ∃ target, i.operand = .jump target ∧ index < target
  /-- A jump leads forward from a `break`, or from the end of a loop back to its condition. -/
  goto_cases {index target : Nat} (at_index : f.instructions[index]? = some ⟨.goto, .jump target⟩) :
    (index, .leave) ∈ p.places ∧ index < target ∨
    ∃ condition body, (target, .loop condition body) ∈ p.places ∧
      (target, condition) ∈ p.expressionPlaces ∧
      index + 1 = target + (Stmt.loop condition body).size
  /-- Every target is the index of an instruction, at which a statement starts or ends. -/
  target_mem_boundaries {index : Nat} {i : Instruction} {target : Nat}
    (at_index : f.instructions[index]? = some i) (operand_eq : i.operand = .jump target) :
    target ≤ f.instructions.size - 1 ∧ target ∈ p.boundaries
  /-- No jump leads into an expression, nor to the instruction behind it, where its value is used or
  the next argument starts. -/
  target_outside {index : Nat} {i : Instruction} {target start : Nat} {e : Expr}
    (at_index : f.instructions[index]? = some i) (operand_eq : i.operand = .jump target)
    (place : (start, e) ∈ p.expressionPlaces) : target ≤ start ∨ start + e.size < target
  /-- The calls that push their result are those inside expressions. -/
  value_call_iff {index : Nat} {name : String} {count : Nat} :
    f.instructions[index]? = some ⟨.call, .callee ⟨name, count, true⟩⟩ ↔
      ∃ start args, (start, .call name args) ∈ p.expressionPlaces ∧ count = args.length ∧
        index + 1 = start + (Expr.call name args).size
  /-- The calls that drop their result are the statements. -/
  effect_call_iff {index : Nat} {name : String} {count : Nat} :
    f.instructions[index]? = some ⟨.call, .callee ⟨name, count, false⟩⟩ ↔
      ∃ start args, (start, .call name args) ∈ p.places ∧ count = args.length ∧
        index + 1 = start + (Stmt.call name args).size
  /-- Every call carries the name and the arity of an entry of the registry. -/
  registered {index : Nat} {site : CallSite}
    (at_index : f.instructions[index]? = some ⟨.call, .callee site⟩) :
    ∃ b, r.find? site.name = some b ∧ site.name = b.name ∧ site.arity = b.arity ∧
      (site.producesValue = true → b.returnsValue = true)

/-- Nothing is wrong with a call to an entry with the same arity that returns a value if one is
needed. -/
theorem Registry.find?_of_callViolations {r : Registry} {name : String} {count : Nat}
    {value : Bool} (h : r.callViolations name count value = []) :
    ∃ b, r.find? name = some b ∧ b.arity = count ∧ (value = true → b.returnsValue = true) := by
  unfold callViolations at h
  cases hfind : r.find? name with
  | none => simp [hfind] at h
  | some b =>
    refine ⟨b, rfl, ?_, fun hvalue => ?_⟩
    · by_contra harity
      simp [hfind, harity] at h
    · by_contra hreturns
      simp [hfind, hvalue, hreturns] at h

namespace Compiled

variable {p : Program} {names : List String} {f : Function} {r : Registry} {index : Nat}
  {i : Instruction}

/-- The jump of a `break` has no target, or it leads forward to the end of a loop. -/
theorem leave_cases (h : Compiled p names f) (hplace : (index, .leave) ∈ p.places)
    (hi : f.instructions[index]? = some i) :
    i = ⟨.goto, .absent⟩ ∨ ∃ target, i = ⟨.goto, .jump target⟩ ∧ index < target ∧
      .close target ∈ p.events := by
  obtain ⟨later, hleaves⟩ := Program.exists_leaves (Program.leave_mem_events_iff.mpr hplace)
  have hcode := h.leave_at hleaves
  rw [hi] at hcode
  cases hcode
  obtain ⟨before, hevents⟩ := hleaves
  match later with
  | [] | .leave _ :: _ => exact .inl rfl
  | .close target :: rest =>
    refine .inr ⟨target, rfl, ?_, ?_⟩
    · have hordered : Event.Ordered p.events := Stmt.bodyEvents_ordered p.statements 0
      rw [hevents, Event.Ordered, List.pairwise_append, List.pairwise_cons] at hordered
      have hlt := hordered.2.1.1 (.close target) List.mem_cons_self
      simp only [Event.emittedAt] at hlt
      omega
    · rw [hevents]
      simp

/-- A loop is closed where a statement ends. -/
theorem mem_boundaries_of_close {after : Nat} (h : .close after ∈ p.events) :
    after ∈ p.boundaries := by
  obtain ⟨start, condition, body, hplace, rfl⟩ := Program.close_mem_events_iff.mp h
  exact (Stmt.mem_bodyBoundaries_iff p.statements).mpr ⟨start, _, hplace, .inr rfl⟩

variable (h : Compiled p names f) (hsound : p.violations r = [])
  (hi : f.instructions[index]? = some i)

include h hsound hi

/-- The instruction that ends the program is the last one and stands nowhere else. -/
theorem finish_iff : i.op = .finish ↔ index + 1 = f.instructions.size := by
  constructor
  · intro hop
    rcases h.origin hsound hi with ⟨hlast, -⟩ | horigin
    · exact hlast
    · cases horigin with
      | @binary start left op => cases op <;> cases hop
      | number | bool | get | value | effect | assign | declare | cond | loop | back | leave
      | suspend => cases hop
  · intro hlast
    rw [h.size_eq] at hlast
    obtain rfl : index = Stmt.bodySize p.statements := by omega
    rw [h.finish_at] at hi
    cases hi
    rfl

/-- An instruction has the operand that its opcode needs, unless it is the jump of a `break` that
was never aimed. -/
theorem complete_or_leave :
    i.isComplete = true ∨ i = ⟨.goto, .absent⟩ ∧ (index, .leave) ∈ p.places := by
  rcases h.origin hsound hi with ⟨-, rfl⟩ | horigin
  · exact .inl rfl
  · cases horigin with
    | leave place =>
      rcases h.leave_cases place hi with habsent | ⟨target, hjump, -⟩
      · exact .inr ⟨habsent, place⟩
      · rw [hjump]
        exact .inl rfl
    | @binary start left op => cases op <;> exact .inl rfl
    | number | bool | get | value | effect | assign | declare | cond | loop | back
    | suspend => exact .inl rfl

/-- Every slot that is named belongs to a declared variable. -/
theorem slot_lt {slot : Nat} (hslot : i.operand = .slot slot) : slot < f.localCount := by
  rw [h.localCount_eq]
  rcases h.origin hsound hi with ⟨-, rfl⟩ | horigin
  · cases hslot
  · cases horigin with
    | get place declared | assign place last declared | declare place last declared =>
      cases hslot
      exact List.idxOf_lt_length_of_mem declared
    | leave place =>
      rcases h.leave_cases place hi with habsent | ⟨target, hjump, -⟩
      · rw [habsent] at hslot
        cases hslot
      · rw [hjump] at hslot
        cases hslot
    | number | bool | binary | value | effect | cond | loop | back | suspend => cases hslot

/-- A jump leads to the end of the statement that it belongs to, to the start of the loop that it
closes, or from a `break` to the end of a loop. -/
theorem jump_cases {target : Nat} (htarget : i.operand = .jump target) :
    i.op = .branch ∧ index < target ∧ target ∈ p.boundaries ∨
    i.op = .goto ∧ (index, .leave) ∈ p.places ∧ index < target ∧ target ∈ p.boundaries ∨
    i.op = .goto ∧ ∃ condition body, (target, .loop condition body) ∈ p.places ∧
      (target, condition) ∈ p.expressionPlaces ∧
      index + 1 = target + (Stmt.loop condition body).size := by
  rcases h.origin hsound hi with ⟨-, rfl⟩ | horigin
  · cases htarget
  · cases horigin with
    | cond place test | loop place test =>
      cases htarget
      refine .inl ⟨rfl, ?_, (Stmt.mem_bodyBoundaries_iff _).mpr ⟨_, _, place, .inr rfl⟩⟩
      rw [Stmt.size]
      omega
    | back place test last =>
      cases htarget
      exact .inr (.inr ⟨rfl, _, _, place, test, last⟩)
    | leave place =>
      rcases h.leave_cases place hi with habsent | ⟨after, hjump, hlt, hclose⟩
      · rw [habsent] at htarget
        cases htarget
      · rw [hjump] at htarget
        cases htarget
        exact .inr (.inl ⟨rfl, place, hlt, mem_boundaries_of_close hclose⟩)
    | number | bool | get | binary | value | effect | assign | declare | suspend => cases htarget

/-- A conditional jump leads forward. -/
theorem branch_forward (hop : i.op = .branch) :
    ∃ target, i.operand = .jump target ∧ index < target := by
  rcases h.complete_or_leave hsound hi with hcomplete | ⟨rfl, -⟩
  · obtain ⟨op, operand⟩ := i
    obtain rfl : op = .branch := hop
    cases operand with
    | jump target =>
      rcases h.jump_cases hsound hi rfl with ⟨-, hlt, -⟩ | ⟨hgoto, -⟩ | ⟨hgoto, -⟩
      · exact ⟨target, rfl, hlt⟩
      · cases hgoto
      · cases hgoto
    | absent | number | bool | slot | callee => cases hcomplete
  · cases hop

/-- A jump leads to where a statement starts or ends. -/
theorem target_mem_boundaries {target : Nat} (htarget : i.operand = .jump target) :
    target ∈ p.boundaries := by
  rcases h.jump_cases hsound hi htarget with ⟨-, -, hmem⟩ | ⟨-, -, -, hmem⟩ |
    ⟨-, condition, body, hplace, -⟩
  · exact hmem
  · exact hmem
  · exact (Stmt.mem_bodyBoundaries_iff _).mpr ⟨target, _, hplace, .inl rfl⟩

omit hi

/-- A jump that is not conditional belongs to a `break` and leads forward, or it closes a loop and
leads back to its start. -/
theorem goto_cases {target : Nat} (hi : f.instructions[index]? = some ⟨.goto, .jump target⟩) :
    (index, .leave) ∈ p.places ∧ index < target ∨
    ∃ condition body, (target, .loop condition body) ∈ p.places ∧
      (target, condition) ∈ p.expressionPlaces ∧
      index + 1 = target + (Stmt.loop condition body).size := by
  rcases h.jump_cases hsound hi rfl with ⟨hbranch, -⟩ | ⟨-, hplace, hlt, -⟩ | ⟨-, hloop⟩
  · cases hbranch
  · exact .inl ⟨hplace, hlt⟩
  · exact .inr hloop

/-- What a call belongs to, and what there is in the registry for it. -/
theorem call_cases {site : CallSite} (hi : f.instructions[index]? = some ⟨.call, .callee site⟩) :
    r.callViolations site.name site.arity site.producesValue = [] ∧
    ∃ start args, site.arity = args.length ∧
      (site.producesValue = true ∧ (start, .call site.name args) ∈ p.expressionPlaces ∧
          index + 1 = start + (Expr.call site.name args).size ∨
        site.producesValue = false ∧ (start, .call site.name args) ∈ p.places ∧
          index + 1 = start + (Stmt.call site.name args).size) := by
  rcases h.origin hsound hi with ⟨-, hfinish⟩ | horigin
  · cases hfinish
  · exact horigin.call_cases

/-- A call whose value is used is the last instruction of a call in an expression. -/
theorem value_call_iff {name : String} {count : Nat} :
    f.instructions[index]? = some ⟨.call, .callee ⟨name, count, true⟩⟩ ↔
      ∃ start args, (start, .call name args) ∈ p.expressionPlaces ∧ count = args.length ∧
        index + 1 = start + (Expr.call name args).size := by
  constructor
  · intro hi
    obtain ⟨-, start, args, hcount, ⟨-, hplace, hlast⟩ | ⟨hvalue, -⟩⟩ := h.call_cases hsound hi
    · exact ⟨start, args, hplace, hcount, hlast⟩
    · cases hvalue
  · rintro ⟨start, args, hplace, rfl, hlast⟩
    have hcode := h.codeAt_of_mem_expressionPlaces hplace
    rw [Expr.code, codeAt_append, codeAt_cons, Expr.length_listCode] at hcode
    rw [Expr.size] at hlast
    obtain rfl : index = start + Expr.listSize args := by omega
    exact hcode.2.1

/-- A call whose value is dropped is the last instruction of a call that is a statement. -/
theorem effect_call_iff {name : String} {count : Nat} :
    f.instructions[index]? = some ⟨.call, .callee ⟨name, count, false⟩⟩ ↔
      ∃ start args, (start, .call name args) ∈ p.places ∧ count = args.length ∧
        index + 1 = start + (Stmt.call name args).size := by
  constructor
  · intro hi
    obtain ⟨-, start, args, hcount, ⟨hvalue, -⟩ | ⟨-, hplace, hlast⟩⟩ := h.call_cases hsound hi
    · cases hvalue
    · exact ⟨start, args, hplace, hcount, hlast⟩
  · rintro ⟨start, args, hplace, rfl, hlast⟩
    have hcode := h.codeAt_of_mem_places hplace
    rw [Stmt.code, codeAt_append, codeAt_cons, Expr.length_listCode] at hcode
    rw [Stmt.size] at hlast
    obtain rfl : index = start + Expr.listSize args := by omega
    exact hcode.2.1

/-- Every call finds a builtin of its name that takes as many arguments and returns a value if one
is needed. -/
theorem registered {site : CallSite} (hi : f.instructions[index]? = some ⟨.call, .callee site⟩) :
    ∃ b, r.find? site.name = some b ∧ site.name = b.name ∧ site.arity = b.arity ∧
      (site.producesValue = true → b.returnsValue = true) := by
  obtain ⟨b, hfind, harity, hvalue⟩ :=
    Registry.find?_of_callViolations (h.call_cases hsound hi).1
  exact ⟨b, hfind, (Registry.name_of_find? hfind).symm, harity.symm, hvalue⟩

end Compiled

/-- Compiled code has the shape that a machine relies on, whatever the program and the registry. -/
theorem Program.shapes_of_compile {p : Program} {r : Registry} {f : Function}
    (h : p.compile r = .ok f) : p.Shapes r f := by
  obtain ⟨d, hblock, rfl⟩ := compile_eq_ok.mp h
  have hcompiled := compiled_of_block hblock
  have hsound := violations_eq_nil_of_block hblock
  exact {
    nonempty := by
      rw [hcompiled.size_eq]
      exact Nat.succ_pos _
    code_at := ⟨d.names, hcompiled.localCount_eq, hcompiled.codeAt_of_mem_places,
      hcompiled.codeAt_of_mem_expressionPlaces⟩
    finish_iff := hcompiled.finish_iff hsound
    complete := hcompiled.complete_or_leave hsound
    slot_lt := fun hi => hcompiled.slot_lt hsound hi
    branch_forward := hcompiled.branch_forward hsound
    goto_cases := hcompiled.goto_cases hsound
    target_mem_boundaries := fun hi htarget => by
      have hmem := hcompiled.target_mem_boundaries hsound hi htarget
      exact ⟨Nat.le_pred_of_lt (hcompiled.lt_size_of_mem_boundaries hmem), hmem⟩
    target_outside := fun hi htarget hplace =>
      Program.outside_of_mem_boundaries (hcompiled.target_mem_boundaries hsound hi htarget) hplace
    value_call_iff := hcompiled.value_call_iff hsound
    effect_call_iff := hcompiled.effect_call_iff hsound
    registered := hcompiled.registered hsound }

/-- A loop that prints a variable until it is left, with a call in its condition. -/
def Program.printing : Program where
  statements :=
    [.declare "x" (.number 0),
      .loop (.binary (.variable "x") .less (.call "Abs" [.variable "x"]))
        [.call "Print" [.variable "x"], .cond (.bool true) [.leave]]]

/-- The conditional leads behind its body, and the `break` behind the loop that starts anew
otherwise. -/
theorem Program.shapes_printing :
    ∃ f, Program.compile .printing .standard = .ok f ∧ Program.Shapes .printing .standard f ∧
      f.targetAt? 10 = some 12 ∧ f.targetAt? 11 = some 13 ∧ f.targetAt? 12 = some 2 := by
  obtain ⟨f, hcompile⟩ : ∃ f, Program.compile .printing .standard = .ok f := ⟨_, rfl⟩
  have hshapes := shapes_of_compile hcompile
  cases hcompile
  exact ⟨_, rfl, hshapes, by decide, by decide, by decide⟩

end FrameScript
