import FrameScript.Compiler
import Mathlib.Data.List.Basic

/-!
# The layout of compiled code

The code of a tree is a list of instructions that is fixed by the slots of its variables, the index
at which it starts, and the operands of its `break` jumps. How long it is, where its statements
begin and end, and in which order jumps are emitted and loops are closed depends on the tree alone.
-/

namespace FrameScript

/-- A name that has a position is in the list, at its first position. -/
theorem idxOf?_eq_some {names : List String} {name : String} {index : Nat} :
    names.idxOf? name = some index ↔ name ∈ names ∧ names.idxOf name = index := by
  constructor
  · intro h
    obtain ⟨hlt, hget, -⟩ := List.idxOf?_eq_some_iff.mp h
    refine ⟨hget ▸ List.getElem_mem hlt, ?_⟩
    rw [List.idxOf_eq_getD_idxOf?, h]
    rfl
  · rintro ⟨hmem, rfl⟩
    cases h : names.idxOf? name with
    | none => exact absurd hmem (List.idxOf?_eq_none_iff.mp h)
    | some found => rw [List.idxOf_eq_getD_idxOf?, h, Option.getD_some]

/-- A property of instructions and their indices holds along a part of the code. -/
def Along (P : Nat → Instruction → Prop) (start : Nat) (part : List Instruction) : Prop :=
  ∀ k i, part[k]? = some i → P (start + k) i

/-- Along no instructions everything holds. -/
@[simp] theorem along_nil (P : Nat → Instruction → Prop) (start : Nat) : Along P start [] := by
  simp [Along]

/-- What holds along a part holds of its first instruction and along the rest. -/
@[simp] theorem along_cons {P : Nat → Instruction → Prop} {start : Nat} {i : Instruction}
    {part : List Instruction} :
    Along P start (i :: part) ↔ P start i ∧ Along P (start + 1) part := by
  constructor
  · intro h
    refine ⟨h 0 i rfl, fun k j hk => ?_⟩
    have hnext := h (k + 1) j hk
    rwa [← Nat.add_assoc, Nat.add_right_comm] at hnext
  · rintro ⟨hhead, htail⟩ k j hk
    cases k with
    | zero =>
      cases hk
      exact hhead
    | succ k =>
      have hnext := htail k j hk
      rwa [Nat.add_right_comm, Nat.add_assoc] at hnext

/-- What holds along two parts in a row holds along each of them. -/
@[simp] theorem along_append {P : Nat → Instruction → Prop} {start : Nat}
    {first second : List Instruction} : Along P start (first ++ second) ↔
      Along P start first ∧ Along P (start + first.length) second := by
  induction first generalizing start with
  | nil => simp
  | cons i first ih =>
    have hlength : start + (i :: first).length = start + 1 + first.length := by
      rw [List.length_cons]
      omega
    rw [List.cons_append, along_cons, along_cons, ih, hlength, and_assoc]

/-- A part of the code lies at an index. -/
def CodeAt (code : Array Instruction) (start : Nat) (part : List Instruction) : Prop :=
  Along (fun k i => code[k]? = some i) start part

/-- The empty part lies at every index. -/
@[simp] theorem codeAt_nil (code : Array Instruction) (start : Nat) : CodeAt code start [] :=
  along_nil _ start

/-- A part lies at an index if its first instruction does and the rest lies behind it. -/
@[simp] theorem codeAt_cons {code : Array Instruction} {start : Nat} {i : Instruction}
    {part : List Instruction} :
    CodeAt code start (i :: part) ↔ code[start]? = some i ∧ CodeAt code (start + 1) part :=
  along_cons

/-- Two parts in a row lie at an index if the second lies behind the first. -/
@[simp] theorem codeAt_append {code : Array Instruction} {start : Nat}
    {first second : List Instruction} : CodeAt code start (first ++ second) ↔
      CodeAt code start first ∧ CodeAt code (start + first.length) second :=
  along_append

/-! ### Expressions -/

namespace Expr

mutual

/-- The variables that an expression reads. -/
def mentioned : Expr → List String
  | .number _ | .bool _ => []
  | .variable name => [name]
  | .binary left _ right => left.mentioned ++ right.mentioned
  | .call _ args => listMentioned args

/-- The variables that several expressions read. -/
def listMentioned : List Expr → List String
  | [] => []
  | e :: es => e.mentioned ++ listMentioned es

end

mutual

/-- The number of instructions of an expression. -/
def size : Expr → Nat
  | .number _ | .bool _ | .variable _ => 1
  | .binary left _ right => left.size + right.size + 1
  | .call _ args => listSize args + 1

/-- The number of instructions of several expressions. -/
def listSize : List Expr → Nat
  | [] => 0
  | e :: es => e.size + listSize es

end

mutual

/-- The code of an expression, with the position of a name as the slot of a variable. -/
def code (names : List String) : Expr → List Instruction
  | .number x => [{ op := .constNumber, operand := .number x }]
  | .bool b => [{ op := .constBool, operand := .bool b }]
  | .variable name => [{ op := .getLocal, operand := .slot (names.idxOf name) }]
  | .binary left op right => left.code names ++ right.code names ++ [{ op := op.opcode }]
  | .call name args => listCode names args ++
      [{ op := .call, operand := .callee { name, arity := args.length, producesValue := true } }]

/-- The code of several expressions, from left to right. -/
def listCode (names : List String) : List Expr → List Instruction
  | [] => []
  | e :: es => e.code names ++ listCode names es

end

mutual

/-- The code of an expression is as long as its tree says. -/
@[simp] theorem length_code (names : List String) : ∀ e : Expr, (e.code names).length = e.size
  | .number _ | .bool _ | .variable _ => rfl
  | .binary left _ right => by
    simp [code, size, length_code names left, length_code names right, Nat.add_assoc]
  | .call _ args => by simp [code, size, length_listCode names args]

/-- The code of several expressions is as long as their trees say. -/
@[simp] theorem length_listCode (names : List String) :
    ∀ es : List Expr, (listCode names es).length = listSize es
  | [] => rfl
  | e :: es => by simp [listCode, listSize, length_code names e, length_listCode names es]

end

mutual

/-- More names behind those of its variables do not change the code of an expression. -/
theorem code_of_isPrefix {few many : List String} (hnames : few <+: many) :
    ∀ e : Expr, (∀ v ∈ e.mentioned, v ∈ few) → e.code few = e.code many
  | .number _, _ | .bool _, _ => rfl
  | .variable name, h => by
    obtain ⟨more, rfl⟩ := hnames
    simp [code, List.idxOf_append_of_mem (h name (by simp [mentioned]))]
  | .binary left op right, h => by
    simp only [mentioned, List.mem_append] at h
    rw [code, code, code_of_isPrefix hnames left fun v hv => h v (.inl hv),
      code_of_isPrefix hnames right fun v hv => h v (.inr hv)]
  | .call name args, h => by rw [code, code, listCode_of_isPrefix hnames args h]

/-- More names behind those of their variables do not change the code of several expressions. -/
theorem listCode_of_isPrefix {few many : List String} (hnames : few <+: many) :
    ∀ es : List Expr, (∀ v ∈ listMentioned es, v ∈ few) → listCode few es = listCode many es
  | [], _ => rfl
  | e :: es, h => by
    simp only [listMentioned, List.mem_append] at h
    rw [listCode, listCode, code_of_isPrefix hnames e fun v hv => h v (.inl hv),
      listCode_of_isPrefix hnames es fun v hv => h v (.inr hv)]

end

end Expr

/-! ### Statements -/

/-- What a walk over a program meets that decides where the jump of a `break` leads. -/
inductive Event where
  /-- The jump of a `break` is emitted at an index. -/
  | leave (index : Nat)
  /-- A loop is closed; its code ends before an index. -/
  | close (after : Nat)
  deriving DecidableEq, Repr

namespace Stmt

mutual

/-- The variables that a statement declares, assigns or reads. -/
def mentioned : Stmt → List String
  | .call _ args => Expr.listMentioned args
  | .assign name value => name :: value.mentioned
  | .declare name initializer => name :: initializer.mentioned
  | .cond condition body | .loop condition body => condition.mentioned ++ bodyMentioned body
  | .leave | .suspend => []

/-- The variables of several statements. -/
def bodyMentioned : List Stmt → List String
  | [] => []
  | s :: body => s.mentioned ++ bodyMentioned body

end

mutual

/-- The number of instructions of a statement. -/
def size : Stmt → Nat
  | .call _ args => Expr.listSize args + 1
  | .assign _ value => value.size + 1
  | .declare _ initializer => initializer.size + 1
  | .cond condition body => condition.size + 1 + bodySize body
  | .loop condition body => condition.size + 1 + bodySize body + 1
  | .leave | .suspend => 1

/-- The number of instructions of several statements. -/
def bodySize : List Stmt → Nat
  | [] => 0
  | s :: body => s.size + bodySize body

end

mutual

/-- The code of a statement that starts at an index, with an operand for the jump of each
`break`. -/
def code (names : List String) (aim : Nat → Operand) (start : Nat) : Stmt → List Instruction
  | .call name args => Expr.listCode names args ++
      [{ op := .call, operand := .callee { name, arity := args.length, producesValue := false } }]
  | .assign name value =>
    value.code names ++ [{ op := .setLocal, operand := .slot (names.idxOf name) }]
  | .declare name initializer =>
    initializer.code names ++ [{ op := .setLocal, operand := .slot (names.idxOf name) }]
  | .cond condition body =>
    let inner := start + condition.size + 1
    condition.code names ++ { op := .branch, operand := .jump (inner + bodySize body) } ::
      bodyCode names aim inner body
  | .loop condition body =>
    let inner := start + condition.size + 1
    condition.code names ++ { op := .branch, operand := .jump (inner + bodySize body + 1) } ::
      (bodyCode names aim inner body ++ [{ op := .goto, operand := .jump start }])
  | .leave => [{ op := .goto, operand := aim start }]
  | .suspend => [{ op := .suspend }]

/-- The code of several statements. -/
def bodyCode (names : List String) (aim : Nat → Operand) (start : Nat) :
    List Stmt → List Instruction
  | [] => []
  | s :: body => s.code names aim start ++ bodyCode names aim (start + s.size) body

end

mutual

/-- The events of a statement whose code starts at an index, in the order of the walk. -/
def events (start : Nat) : Stmt → List Event
  | .cond condition body => bodyEvents (start + condition.size + 1) body
  | .loop condition body =>
    let inner := start + condition.size + 1
    bodyEvents inner body ++ [.close (inner + bodySize body + 1)]
  | .leave => [.leave start]
  | .call _ _ | .assign _ _ | .declare _ _ | .suspend => []

/-- The events of several statements. -/
def bodyEvents (start : Nat) : List Stmt → List Event
  | [] => []
  | s :: body => s.events start ++ bodyEvents (start + s.size) body

end

mutual

/-- The code of a statement is as long as its tree says, whatever its jumps lead to. -/
@[simp] theorem length_code (names : List String) (aim : Nat → Operand) (start : Nat) :
    ∀ s : Stmt, (s.code names aim start).length = s.size
  | .call _ _ | .assign _ _ | .declare _ _ => by simp [code, size]
  | .cond condition body => by
    simp [code, size, length_bodyCode names aim _ body]
    omega
  | .loop condition body => by
    simp [code, size, length_bodyCode names aim _ body]
    omega
  | .leave | .suspend => rfl

/-- The code of several statements is as long as their trees say. -/
@[simp] theorem length_bodyCode (names : List String) (aim : Nat → Operand) (start : Nat) :
    ∀ body : List Stmt, (bodyCode names aim start body).length = bodySize body
  | [] => rfl
  | s :: body => by
    simp [bodyCode, bodySize, length_code names aim start s,
      length_bodyCode names aim _ body]

end

end Stmt

end FrameScript
