import FrameScript.Proofs.Compiler.Emission
import FrameScript.Proofs.Compiler.Places

/-!
# The height of the stack

In compiled code the height of the stack is a function of the index alone. Each instruction changes
it by a fixed amount, expressions add one value, and statements start and end with an empty stack.
Every jump leads to a place where the height is the one that it brings.
-/

namespace FrameScript

/-- The height of the stack after an instruction that finds it at a height and falls through. -/
def Instruction.heightAfter (i : Instruction) (height : Nat) : Nat :=
  match i.op with
  | .constNumber | .constBool | .getLocal => height + 1
  | .add | .sub | .mul | .div | .less | .greater | .setLocal | .branch => height - 1
  | .goto | .suspend | .finish => height
  | .call =>
    match i.operand with
    | .callee site => height - site.arity + if site.producesValue then 1 else 0
    | _ => height

/-- The height of the stack at an index of a function. -/
def Function.heightAt (f : Function) : Nat → Nat
  | 0 => 0
  | index + 1 =>
    match f.instructions[index]? with
    | none => f.heightAt index
    | some i => i.heightAfter (f.heightAt index)

/-- The height behind an instruction is what the instruction makes of the height before it. -/
theorem Function.heightAt_succ {f : Function} {index : Nat} {i : Instruction}
    (h : f.instructions[index]? = some i) :
    f.heightAt (index + 1) = i.heightAfter (f.heightAt index) := by
  rw [heightAt, h]

/-- An operator takes two values and leaves one. -/
theorem BinaryOp.heightAfter_opcode (op : BinaryOp) (height : Nat) :
    Instruction.heightAfter { op := op.opcode } height = height - 1 := by
  cases op <;> rfl

/-! ### Heights along a tree -/

section

variable {f : Function} {names : List String} {aim : Nat → Operand}

mutual

/-- The code of an expression leaves one more value on the stack. -/
theorem Expr.heightAt_add_size : ∀ (e : Expr) {start : Nat},
    CodeAt f.instructions start (e.code names) →
    f.heightAt (start + e.size) = f.heightAt start + 1
  | .number _, _, h | .bool _, _, h | .variable _, _, h =>
    Function.heightAt_succ (codeAt_cons.mp h).1
  | .binary left op right, start, h => by
    rw [code, codeAt_append, codeAt_append, codeAt_cons, List.length_append, length_code,
      length_code] at h
    obtain ⟨⟨hleft, hright⟩, hop, -⟩ := h
    rw [size, ← Nat.add_assoc, Function.heightAt_succ hop, BinaryOp.heightAfter_opcode,
      ← Nat.add_assoc, heightAt_add_size right hright, heightAt_add_size left hleft]
    omega
  | .call name args, start, h => by
    rw [code, codeAt_append, codeAt_cons, length_listCode] at h
    obtain ⟨hargs, hcall, -⟩ := h
    rw [size, ← Nat.add_assoc, Function.heightAt_succ hcall, listHeightAt_add_size args hargs]
    simp [Instruction.heightAfter]

/-- The code of several expressions leaves the value of each on the stack. -/
theorem Expr.listHeightAt_add_size : ∀ (es : List Expr) {start : Nat},
    CodeAt f.instructions start (Expr.listCode names es) →
    f.heightAt (start + Expr.listSize es) = f.heightAt start + es.length
  | [], _, _ => rfl
  | e :: es, start, h => by
    rw [listCode, codeAt_append, length_code] at h
    rw [listSize, ← Nat.add_assoc, listHeightAt_add_size es h.2, heightAt_add_size e h.1,
      List.length_cons]
    omega

end

/-- The stack is empty where the body behind a condition starts. -/
theorem Function.heightAt_body {start target : Nat} {condition : Expr} {rest : List Instruction}
    (h : CodeAt f.instructions start
      (condition.code names ++ { op := .branch, operand := .jump target } :: rest))
    (hstart : f.heightAt start = 0) : f.heightAt (start + condition.size + 1) = 0 := by
  rw [codeAt_append, codeAt_cons, Expr.length_code] at h
  obtain ⟨htest, hbranch, -⟩ := h
  rw [heightAt_succ hbranch, Expr.heightAt_add_size condition htest, hstart]
  rfl

mutual

/-- The stack is empty behind a statement that finds it empty. -/
theorem Stmt.heightAt_add_size : ∀ (s : Stmt) {start : Nat},
    CodeAt f.instructions start (s.code names aim start) → f.heightAt start = 0 →
    f.heightAt (start + s.size) = 0
  | .call _ args, start, h, hstart => by
    rw [code, codeAt_append, codeAt_cons, Expr.length_listCode] at h
    obtain ⟨hargs, hcall, -⟩ := h
    rw [size, ← Nat.add_assoc, Function.heightAt_succ hcall,
      Expr.listHeightAt_add_size args hargs, hstart]
    simp [Instruction.heightAfter]
  | .assign _ e, start, h, hstart | .declare _ e, start, h, hstart => by
    rw [code, codeAt_append, codeAt_cons, Expr.length_code] at h
    obtain ⟨he, hset, -⟩ := h
    rw [size, ← Nat.add_assoc, Function.heightAt_succ hset, Expr.heightAt_add_size e he, hstart]
    rfl
  | .cond condition body, start, h, hstart => by
    rw [code] at h
    have hinner := Function.heightAt_body h hstart
    rw [codeAt_append, codeAt_cons, Expr.length_code] at h
    rw [size, ← Nat.add_assoc, ← Nat.add_assoc, bodyHeightAt_add_size body h.2.2 hinner]
  | .loop condition body, start, h, hstart => by
    rw [code] at h
    have hinner := Function.heightAt_body h hstart
    rw [codeAt_append, codeAt_cons, codeAt_append, codeAt_cons, Expr.length_code,
      length_bodyCode] at h
    obtain ⟨-, -, hbody, hback, -⟩ := h
    rw [size, ← Nat.add_assoc, ← Nat.add_assoc, ← Nat.add_assoc, Function.heightAt_succ hback,
      bodyHeightAt_add_size body hbody hinner]
    rfl
  | .leave, start, h, hstart | .suspend, start, h, hstart => by
    rw [size, Function.heightAt_succ (codeAt_cons.mp h).1, hstart]
    rfl

/-- The code of several statements leaves the stack empty. -/
theorem Stmt.bodyHeightAt_add_size : ∀ (body : List Stmt) {start : Nat},
    CodeAt f.instructions start (Stmt.bodyCode names aim start body) → f.heightAt start = 0 →
    f.heightAt (start + Stmt.bodySize body) = 0
  | [], _, _, hstart => hstart
  | s :: body, start, h, hstart => by
    rw [bodyCode, codeAt_append, length_code] at h
    rw [bodySize, ← Nat.add_assoc]
    exact bodyHeightAt_add_size body h.2 (heightAt_add_size s h.1 hstart)

end

mutual

/-- The stack is empty wherever a statement starts or ends. -/
theorem Stmt.heightAt_of_mem_innerBoundaries {b : Nat} : ∀ (s : Stmt) {start : Nat},
    CodeAt f.instructions start (s.code names aim start) → f.heightAt start = 0 →
    b ∈ s.innerBoundaries start → f.heightAt b = 0
  | .cond condition body, start, h, hstart, hb => by
    rw [code] at h
    have hinner := Function.heightAt_body h hstart
    rw [codeAt_append, codeAt_cons, Expr.length_code] at h
    exact heightAt_of_mem_bodyBoundaries body h.2.2 hinner hb
  | .loop condition body, start, h, hstart, hb => by
    rw [code] at h
    have hinner := Function.heightAt_body h hstart
    rw [codeAt_append, codeAt_cons, codeAt_append, Expr.length_code] at h
    exact heightAt_of_mem_bodyBoundaries body h.2.2.1 hinner hb
  | .call _ _, _, _, _, hb | .assign _ _, _, _, _, hb | .declare _ _, _, _, _, hb
  | .leave, _, _, _, hb | .suspend, _, _, _, hb => by simp [innerBoundaries] at hb

/-- The stack is empty where a statement among or in statements starts or ends. -/
theorem Stmt.heightAt_of_mem_bodyBoundaries {b : Nat} : ∀ (body : List Stmt) {start : Nat},
    CodeAt f.instructions start (Stmt.bodyCode names aim start body) → f.heightAt start = 0 →
    b ∈ Stmt.bodyBoundaries start body → f.heightAt b = 0
  | [], _, _, _, hb => by simp [bodyBoundaries] at hb
  | s :: body, start, h, hstart, hb => by
    rw [bodyCode, codeAt_append, length_code] at h
    have hnext := heightAt_add_size s h.1 hstart
    rw [bodyBoundaries, List.cons_append, List.cons_append, List.mem_cons, List.mem_cons,
      List.mem_append] at hb
    rcases hb with rfl | rfl | hb | hb
    · exact hstart
    · exact hnext
    · exact heightAt_of_mem_innerBoundaries s h.1 hstart hb
    · exact heightAt_of_mem_bodyBoundaries body h.2 hnext hb

end

end

/-- The index at which an event happens. -/
def Event.index : Event → Nat
  | .leave index => index
  | .close after => after

/-- Jumps of `break` statements start a statement, and loops are closed where they end. -/
theorem Stmt.mem_boundaries_of_mem_bodyEvents {event : Event} {body : List Stmt} {start : Nat}
    (h : event ∈ Stmt.bodyEvents start body) : event.index ∈ Stmt.bodyBoundaries start body := by
  obtain ⟨⟨index, s⟩, hplace, hevent⟩ := (mem_bodyEvents_iff body).mp h
  refine (mem_bodyBoundaries_iff body).mpr ⟨index, s, hplace, ?_⟩
  cases s with
  | leave =>
    cases hevent
    exact .inl rfl
  | loop condition inner =>
    cases hevent
    exact .inr rfl
  | call | assign | declare | cond | suspend => cases hevent

/-- In compiled code, the stack is empty at every boundary. -/
theorem Compiled.heightAt_of_mem_boundaries {p : Program} {names : List String} {f : Function}
    (h : Compiled p names f) {b : Nat} (hb : b ∈ p.boundaries) : f.heightAt b = 0 :=
  Stmt.heightAt_of_mem_bodyBoundaries p.statements h.codeAt rfl hb

/-- No boundary lies behind compiled code, since the last instruction belongs to no statement. -/
theorem Compiled.lt_size_of_mem_boundaries {p : Program} {names : List String} {f : Function}
    (h : Compiled p names f) {b : Nat} (hb : b ∈ p.boundaries) : b < f.instructions.size := by
  have hle := Stmt.le_of_mem_bodyBoundaries hb
  rw [h.size_eq]
  omega

end FrameScript
