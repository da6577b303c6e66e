import FrameScript.Proofs.Compiler.Emission
import FrameScript.Proofs.Compiler.Places
import FrameScript.Proofs.Compiler.Violations

/-!
# Where instructions come from

Compiled code holds at each place of a program the code of what stands there, and each of its
instructions comes from one of these places.
-/

namespace FrameScript

/-! ### Where an instruction comes from -/

/-- What an instruction at an index can be, and the statement or expression that it comes from. -/
inductive Origin (r : Registry) (ss : List (Nat × Stmt)) (es : List (Nat × Expr))
    (names : List String) (aim : Nat → Operand) (index : Nat) : Instruction → Prop where
  | number {x : Float} (place : (index, .number x) ∈ es) :
    Origin r ss es names aim index ⟨.constNumber, .number x⟩
  | bool {b : Bool} (place : (index, .bool b) ∈ es) :
    Origin r ss es names aim index ⟨.constBool, .bool b⟩
  | get {name : String} (place : (index, .variable name) ∈ es) (declared : name ∈ names) :
    Origin r ss es names aim index ⟨.getLocal, .slot (names.idxOf name)⟩
  | binary {start : Nat} {left : Expr} {op : BinaryOp} {right : Expr}
    (place : (start, .binary left op right) ∈ es)
    (last : index + 1 = start + (Expr.binary left op right).size) :
    Origin r ss es names aim index ⟨op.opcode, .absent⟩
  | value {start : Nat} {name : String} {args : List Expr} (place : (start, .call name args) ∈ es)
    (last : index + 1 = start + (Expr.call name args).size)
    (resolved : r.callViolations name args.length true = []) :
    Origin r ss es names aim index ⟨.call, .callee ⟨name, args.length, true⟩⟩
  | effect {start : Nat} {name : String} {args : List Expr} (place : (start, .call name args) ∈ ss)
    (last : index + 1 = start + (Stmt.call name args).size)
    (resolved : r.callViolations name args.length false = []) :
    Origin r ss es names aim index ⟨.call, .callee ⟨name, args.length, false⟩⟩
  | assign {start : Nat} {name : String} {value : Expr} (place : (start, .assign name value) ∈ ss)
    (last : index + 1 = start + (Stmt.assign name value).size) (declared : name ∈ names) :
    Origin r ss es names aim index ⟨.setLocal, .slot (names.idxOf name)⟩
  | declare {start : Nat} {name : String} {initializer : Expr}
    (place : (start, .declare name initializer) ∈ ss)
    (last : index + 1 = start + (Stmt.declare name initializer).size) (declared : name ∈ names) :
    Origin r ss es names aim index ⟨.setLocal, .slot (names.idxOf name)⟩
  | cond {start : Nat} {condition : Expr} {body : List Stmt}
    (place : (start, .cond condition body) ∈ ss) (test : index = start + condition.size) :
    Origin r ss es names aim index ⟨.branch, .jump (start + (Stmt.cond condition body).size)⟩
  | loop {start : Nat} {condition : Expr} {body : List Stmt}
    (place : (start, .loop condition body) ∈ ss) (test : index = start + condition.size) :
    Origin r ss es names aim index ⟨.branch, .jump (start + (Stmt.loop condition body).size)⟩
  | back {start : Nat} {condition : Expr} {body : List Stmt}
    (place : (start, .loop condition body) ∈ ss) (test : (start, condition) ∈ es)
    (last : index + 1 = start + (Stmt.loop condition body).size) :
    Origin r ss es names aim index ⟨.goto, .jump start⟩
  | leave (place : (index, .leave) ∈ ss) : Origin r ss es names aim index ⟨.goto, aim index⟩
  | suspend (place : (index, .suspend) ∈ ss) : Origin r ss es names aim index ⟨.suspend, .absent⟩

section

variable {r : Registry} {ss : List (Nat × Stmt)} {es : List (Nat × Expr)}
  {names declared : List String} {aim : Nat → Operand}

/-- An expression is one of its own parts. -/
theorem Expr.mem_places_self (e : Expr) (start : Nat) : (start, e) ∈ e.places start := by
  cases e <;> exact List.mem_cons_self

mutual

/-- Every instruction of an expression with which nothing is wrong comes from one of its parts. -/
theorem Expr.along_origin : ∀ (e : Expr) {start : Nat}, e.violations r declared = [] →
    e.places start ⊆ es → (∀ v ∈ e.mentioned, v ∈ names) →
    Along (Origin r ss es names aim) start (e.code names)
  | .number _, _, _, h, _ => along_cons.mpr ⟨.number (h (List.mem_singleton_self _)), along_nil _ _⟩
  | .bool _, _, _, h, _ => along_cons.mpr ⟨.bool (h (List.mem_singleton_self _)), along_nil _ _⟩
  | .variable name, _, _, h, hnames => by
    have hname := hnames name (List.mem_singleton_self _)
    exact along_cons.mpr ⟨.get (h (List.mem_singleton_self _)) hname, along_nil _ _⟩
  | .binary left op right, start, hsound, h, hnames => by
    rw [violations, List.append_eq_nil_iff] at hsound
    rw [places, List.cons_subset, List.append_subset] at h
    have hfirst := along_origin left hsound.1 h.2.1 fun v hv =>
      hnames v (List.mem_append_left _ hv)
    have hsecond := along_origin right hsound.2 h.2.2 fun v hv =>
      hnames v (List.mem_append_right _ hv)
    rw [Expr.code, along_append, along_append, along_cons, List.length_append, length_code,
      length_code]
    refine ⟨⟨hfirst, hsecond⟩, .binary h.1 ?_, along_nil _ _⟩
    rw [size, Nat.add_assoc]
  | .call name args, start, hsound, h, hnames => by
    rw [violations, List.append_eq_nil_iff] at hsound
    rw [places, List.cons_subset] at h
    rw [Expr.code, along_append, along_cons, length_listCode]
    refine ⟨listAlong_origin args hsound.2 h.2 hnames, .value h.1 ?_ hsound.1, along_nil _ _⟩
    rw [size, Nat.add_assoc]

/-- Every instruction of several expressions comes from a part of one of them. -/
theorem Expr.listAlong_origin : ∀ (args : List Expr) {start : Nat},
    Expr.listViolations r declared args = [] → Expr.listPlaces start args ⊆ es →
    (∀ v ∈ Expr.listMentioned args, v ∈ names) →
    Along (Origin r ss es names aim) start (Expr.listCode names args)
  | [], _, _, _, _ => along_nil _ _
  | e :: args, start, hsound, h, hnames => by
    rw [listViolations, List.append_eq_nil_iff] at hsound
    rw [listPlaces, List.append_subset] at h
    rw [listCode, along_append, length_code]
    exact ⟨along_origin e hsound.1 h.1 fun v hv => hnames v (List.mem_append_left _ hv),
      listAlong_origin args hsound.2 h.2 fun v hv => hnames v (List.mem_append_right _ hv)⟩

end

mutual

/-- Every instruction of a statement with which nothing is wrong comes from one of the statements or
expressions in it. -/
theorem Stmt.along_origin : ∀ (s : Stmt) {declared : List String} {start : Nat},
    s.violations r declared = [] → s.places start ⊆ ss → s.expressionPlaces start ⊆ es →
    (∀ v ∈ s.mentioned, v ∈ names) →
    Along (Origin r ss es names aim) start (s.code names aim start)
  | .call name args, _, start, hsound, hss, hes, hnames => by
    rw [violations, List.append_eq_nil_iff] at hsound
    rw [Stmt.code, along_append, along_cons, Expr.length_listCode]
    refine ⟨Expr.listAlong_origin args hsound.2 hes hnames,
      .effect (hss (List.mem_singleton_self _)) ?_ hsound.1, along_nil _ _⟩
    rw [size, Nat.add_assoc]
  | .assign name value, _, start, hsound, hss, hes, hnames => by
    rw [violations, List.append_eq_nil_iff] at hsound
    rw [Stmt.code, along_append, along_cons, Expr.length_code]
    refine ⟨Expr.along_origin value hsound.1 hes fun v hv => hnames v (List.mem_cons_of_mem _ hv),
      .assign (hss (List.mem_singleton_self _)) ?_ (hnames name List.mem_cons_self), along_nil _ _⟩
    rw [size, Nat.add_assoc]
  | .declare name initializer, _, start, hsound, hss, hes, hnames => by
    rw [violations, List.append_eq_nil_iff] at hsound
    rw [Stmt.code, along_append, along_cons, Expr.length_code]
    refine ⟨Expr.along_origin initializer hsound.1 hes fun v hv =>
        hnames v (List.mem_cons_of_mem _ hv),
      .declare (hss (List.mem_singleton_self _)) ?_ (hnames name List.mem_cons_self), along_nil _ _⟩
    rw [size, Nat.add_assoc]
  | .cond condition body, _, start, hsound, hss, hes, hnames => by
    rw [violations, List.append_eq_nil_iff] at hsound
    rw [places, List.cons_subset] at hss
    rw [expressionPlaces, List.append_subset] at hes
    have hend : start + condition.size + 1 + bodySize body =
        start + (Stmt.cond condition body).size := by
      rw [size]
      omega
    rw [Stmt.code, hend, along_append, along_cons, Expr.length_code]
    exact ⟨Expr.along_origin condition hsound.1 hes.1 fun v hv =>
        hnames v (List.mem_append_left _ hv),
      .cond hss.1 rfl,
      bodyAlong_origin body hsound.2 hss.2 hes.2 fun v hv => hnames v (List.mem_append_right _ hv)⟩
  | .loop condition body, _, start, hsound, hss, hes, hnames => by
    rw [violations, List.append_eq_nil_iff] at hsound
    rw [places, List.cons_subset] at hss
    rw [expressionPlaces, List.append_subset] at hes
    have hend : start + condition.size + 1 + bodySize body + 1 =
        start + (Stmt.loop condition body).size := by
      rw [size]
      omega
    rw [Stmt.code, hend, along_append, along_cons, along_append, along_cons, Expr.length_code,
      length_bodyCode]
    exact ⟨Expr.along_origin condition hsound.1 hes.1 fun v hv =>
        hnames v (List.mem_append_left _ hv),
      .loop hss.1 rfl,
      bodyAlong_origin body hsound.2 hss.2 hes.2 fun v hv => hnames v (List.mem_append_right _ hv),
      .back hss.1 (hes.1 (condition.mem_places_self start)) hend, along_nil _ _⟩
  | .leave, _, _, _, hss, _, _ =>
    along_cons.mpr ⟨.leave (hss (List.mem_singleton_self _)), along_nil _ _⟩
  | .suspend, _, _, _, hss, _, _ =>
    along_cons.mpr ⟨.suspend (hss (List.mem_singleton_self _)), along_nil _ _⟩

/-- Every instruction of several statements comes from one of them or from an expression in
them. -/
theorem Stmt.bodyAlong_origin : ∀ (body : List Stmt) {declared : List String} {start : Nat},
    Stmt.bodyViolations r declared body = [] → Stmt.bodyPlaces start body ⊆ ss →
    Stmt.bodyExpressionPlaces start body ⊆ es → (∀ v ∈ Stmt.bodyMentioned body, v ∈ names) →
    Along (Origin r ss es names aim) start (Stmt.bodyCode names aim start body)
  | [], _, _, _, _, _, _ => along_nil _ _
  | s :: body, _, start, hsound, hss, hes, hnames => by
    rw [bodyViolations, List.append_eq_nil_iff] at hsound
    rw [bodyPlaces, List.append_subset] at hss
    rw [bodyExpressionPlaces, List.append_subset] at hes
    rw [bodyCode, along_append, length_code]
    exact ⟨along_origin s hsound.1 hss.1 hes.1 fun v hv => hnames v (List.mem_append_left _ hv),
      bodyAlong_origin body hsound.2 hss.2 hes.2 fun v hv =>
        hnames v (List.mem_append_right _ hv)⟩

end

end

/-- A `goto` leads back to the start of a loop or belongs to a `break`. -/
theorem Origin.goto_cases {r : Registry} {ss : List (Nat × Stmt)} {es : List (Nat × Expr)}
    {names : List String} {aim : Nat → Operand} {index : Nat} {operand : Operand}
    (h : Origin r ss es names aim index ⟨.goto, operand⟩) :
    (∃ start condition body, (start, .loop condition body) ∈ ss ∧ (start, condition) ∈ es ∧
      index + 1 = start + (Stmt.loop condition body).size ∧ operand = .jump start) ∨
    (index, .leave) ∈ ss ∧ operand = aim index := by
  generalize hi : (⟨.goto, operand⟩ : Instruction) = i at h
  cases h with
  | back place test last =>
    cases hi
    exact .inl ⟨_, _, _, place, test, last, rfl⟩
  | leave place =>
    cases hi
    exact .inr ⟨place, rfl⟩
  | @binary start left op => cases op <;> cases hi
  | number | bool | get | value | effect | assign | declare | cond | loop | suspend => cases hi

/-- A call belongs to a call in an expression or to a statement, and nothing is wrong with it. -/
theorem Origin.call_cases {r : Registry} {ss : List (Nat × Stmt)} {es : List (Nat × Expr)}
    {names : List String} {aim : Nat → Operand} {index : Nat} {site : CallSite}
    (h : Origin r ss es names aim index ⟨.call, .callee site⟩) :
    r.callViolations site.name site.arity site.producesValue = [] ∧
    ∃ start args, site.arity = args.length ∧
      (site.producesValue = true ∧ (start, .call site.name args) ∈ es ∧
          index + 1 = start + (Expr.call site.name args).size ∨
        site.producesValue = false ∧ (start, .call site.name args) ∈ ss ∧
          index + 1 = start + (Stmt.call site.name args).size) := by
  generalize hi : (⟨.call, .callee site⟩ : Instruction) = i at h
  cases h with
  | value place last resolved =>
    cases hi
    exact ⟨resolved, _, _, rfl, .inl ⟨rfl, place, last⟩⟩
  | effect place last resolved =>
    cases hi
    exact ⟨resolved, _, _, rfl, .inr ⟨rfl, place, last⟩⟩
  | @binary start left op => cases op <;> cases hi
  | number | bool | get | assign | declare | cond | loop | back | leave | suspend => cases hi

/-! ### Compiled programs -/

namespace Compiled

variable {p : Program} {names : List String} {f : Function} {r : Registry} {index : Nat}

/-- At the place of a statement, compiled code holds the code of this statement. -/
theorem codeAt_of_mem_places (h : Compiled p names f) {s : Stmt} (hs : (index, s) ∈ p.places) :
    CodeAt f.instructions index (s.code names (operandAt f.instructions) index) :=
  Stmt.codeAt_of_mem_bodyPlaces p.statements h.codeAt hs

/-- At the place of an expression, compiled code holds the code of this expression. -/
theorem codeAt_of_mem_expressionPlaces (h : Compiled p names f) {e : Expr}
    (he : (index, e) ∈ p.expressionPlaces) : CodeAt f.instructions index (e.code names) :=
  Stmt.codeAt_of_mem_bodyExpressionPlaces p.statements h.codeAt he

/-- The last instruction ends the program, and every other one comes from a place in it. -/
theorem origin (h : Compiled p names f) (hsound : p.violations r = []) {i : Instruction}
    (hi : f.instructions[index]? = some i) :
    index + 1 = f.instructions.size ∧ i = { op := .finish } ∨
      Origin r p.places p.expressionPlaces names (operandAt f.instructions) index i := by
  refine h.along_or_last (Stmt.bodyAlong_origin p.statements hsound ?_ ?_ h.declared) hi
  · exact List.Subset.refl _
  · exact List.Subset.refl _

end Compiled

/-- Nothing is wrong with a program over which the walk succeeds. -/
theorem Program.violations_eq_nil_of_block {p : Program} {r : Registry} {d : Draft}
    (h : Draft.block r p.statements {} = .ok d) : p.violations r = [] := by
  have hreports : Reports Refusal.error (p.violations r) (Draft.block r p.statements {}) :=
    Draft.reports_block r p.statements {}
  rw [h] at hreports
  generalize p.violations r = violations at hreports ⊢
  cases hreports with
  | ok => rfl

end FrameScript
