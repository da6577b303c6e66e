import FrameScript.Proofs.Compiler.Breaks
import FrameScript.Proofs.Machine.Heights

/-!
# Every instruction fits its place

What a machine needs of an instruction before it carries it out can be read off the code: the kind
of the operand, the slot, enough values on the stack, and a target inside the code where the stack
has the right height. All compiled code meets these needs, except that the jump of a `break` may
have no target.
-/

namespace FrameScript

/-- An instruction at an index has the operand that its opcode needs, and finds enough values on
the stack. A jump leads into the code and to the right height. Only the jumps at certain indices
may have no target. -/
inductive Fits (f : Function) (stray : Nat → Prop) (index : Nat) : Instruction → Prop where
  | number (x : Float) : Fits f stray index { op := .constNumber, operand := .number x }
  | bool (b : Bool) : Fits f stray index { op := .constBool, operand := .bool b }
  | get {slot : Nat} (hslot : slot < f.localCount) :
    Fits f stray index { op := .getLocal, operand := .slot slot }
  | set {slot : Nat} (hslot : slot < f.localCount) (high : 1 ≤ f.heightAt index) :
    Fits f stray index { op := .setLocal, operand := .slot slot }
  | binary (op : BinaryOp) (high : 2 ≤ f.heightAt index) : Fits f stray index { op := op.opcode }
  | call {site : CallSite} (high : site.arity ≤ f.heightAt index) :
    Fits f stray index { op := .call, operand := .callee site }
  | branch {target : Nat} (high : 1 ≤ f.heightAt index) (inside : target < f.instructions.size)
    (level : f.heightAt target = f.heightAt index - 1) :
    Fits f stray index { op := .branch, operand := .jump target }
  | goto {target : Nat} (inside : target < f.instructions.size)
    (level : f.heightAt target = f.heightAt index) :
    Fits f stray index { op := .goto, operand := .jump target }
  | stray (h : stray index) : Fits f stray index { op := .goto }
  | suspend (low : f.heightAt index = 0) : Fits f stray index { op := .suspend }
  | finish (low : f.heightAt index = 0) : Fits f stray index { op := .finish }

section

variable {f : Function} {stray : Nat → Prop} {names : List String} {aim : Nat → Operand}

mutual

/-- The instructions of an expression with declared variables fit. -/
theorem Expr.fits (hcount : f.localCount = names.length) : ∀ (e : Expr) {start : Nat},
    CodeAt f.instructions start (e.code names) → (∀ v ∈ e.mentioned, v ∈ names) →
    Along (Fits f stray) start (e.code names)
  | .number x, _, _, _ => along_cons.mpr ⟨.number x, along_nil _ _⟩
  | .bool b, _, _, _ => along_cons.mpr ⟨.bool b, along_nil _ _⟩
  | .variable name, _, _, hnames => by
    have hslot := List.idxOf_lt_length_of_mem (hnames name (List.mem_singleton_self _))
    rw [← hcount] at hslot
    exact along_cons.mpr ⟨.get hslot, along_nil _ _⟩
  | .binary left op right, start, h, hnames => by
    rw [code, codeAt_append, codeAt_append, length_code] at h
    obtain ⟨⟨hleft, hright⟩, -⟩ := h
    have hheight : 2 ≤ f.heightAt (start + (left.size + right.size)) := by
      rw [← Nat.add_assoc, heightAt_add_size right hright, heightAt_add_size left hleft]
      omega
    have hfirst := fits hcount left hleft fun v hv => hnames v (List.mem_append_left _ hv)
    have hsecond := fits hcount right hright fun v hv => hnames v (List.mem_append_right _ hv)
    rw [code, along_append, along_append, along_cons, List.length_append, length_code, length_code]
    exact ⟨⟨hfirst, hsecond⟩, .binary op hheight, along_nil _ _⟩
  | .call name args, start, h, hnames => by
    rw [code, codeAt_append] at h
    have hheight : args.length ≤ f.heightAt (start + listSize args) := by
      rw [listHeightAt_add_size args h.1]
      omega
    rw [code, along_append, along_cons, length_listCode]
    exact ⟨listFits hcount args h.1 hnames, .call hheight, along_nil _ _⟩

/-- The instructions of several expressions with declared variables fit. -/
theorem Expr.listFits (hcount : f.localCount = names.length) : ∀ (es : List Expr) {start : Nat},
    CodeAt f.instructions start (Expr.listCode names es) →
    (∀ v ∈ Expr.listMentioned es, v ∈ names) → Along (Fits f stray) start (Expr.listCode names es)
  | [], _, _, _ => along_nil _ _
  | e :: es, start, h, hnames => by
    rw [listCode, codeAt_append, length_code] at h
    rw [listCode, along_append, length_code]
    exact ⟨fits hcount e h.1 fun v hv => hnames v (List.mem_append_left _ hv),
      listFits hcount es h.2 fun v hv => hnames v (List.mem_append_right _ hv)⟩

end

/-- An assignment or a declaration fits where the stack is empty. -/
theorem Expr.fits_setLocal {e : Expr} {name : String} {start : Nat}
    (hcount : f.localCount = names.length) (hname : name ∈ names)
    (hnames : ∀ v ∈ e.mentioned, v ∈ names)
    (h : CodeAt f.instructions start (e.code names ++
      [{ op := .setLocal, operand := .slot (names.idxOf name) }])) :
    Along (Fits f stray) start (e.code names ++
      [{ op := .setLocal, operand := .slot (names.idxOf name) }]) := by
  rw [codeAt_append] at h
  have hheight : 1 ≤ f.heightAt (start + e.size) := by
    rw [heightAt_add_size e h.1]
    omega
  have hslot := List.idxOf_lt_length_of_mem hname
  rw [← hcount] at hslot
  rw [along_append, along_cons, length_code]
  exact ⟨fits hcount e h.1 hnames, .set hslot hheight, along_nil _ _⟩

/-- The condition of a statement with a body fits, together with the jump behind it. -/
theorem Expr.fits_branch {e : Expr} {start target : Nat} {rest : List Instruction}
    (hcount : f.localCount = names.length) (hnames : ∀ v ∈ e.mentioned, v ∈ names)
    (hstart : f.heightAt start = 0) (inside : target < f.instructions.size)
    (level : f.heightAt target = 0)
    (h : CodeAt f.instructions start
      (e.code names ++ { op := .branch, operand := .jump target } :: rest))
    (hrest : Along (Fits f stray) (start + e.size + 1) rest) :
    Along (Fits f stray) start
      (e.code names ++ { op := .branch, operand := .jump target } :: rest) := by
  rw [codeAt_append] at h
  have hheight : f.heightAt (start + e.size) = 1 := by
    rw [heightAt_add_size e h.1, hstart]
  have hlevel : f.heightAt target = f.heightAt (start + e.size) - 1 := by
    rw [level, hheight]
  rw [along_append, along_cons, length_code]
  exact ⟨fits hcount e h.1 hnames, .branch (by omega) inside hlevel, hrest⟩

mutual

/-- The code of a statement fits if the jumps of its `break` statements do. -/
theorem Stmt.fits (hcount : f.localCount = names.length) : ∀ (s : Stmt) {start : Nat},
    CodeAt f.instructions start (s.code names aim start) → f.heightAt start = 0 →
    start + s.size < f.instructions.size → (∀ v ∈ s.mentioned, v ∈ names) →
    (∀ i, .leave i ∈ s.events start → Fits f stray i { op := .goto, operand := aim i }) →
    Along (Fits f stray) start (s.code names aim start)
  | .call name args, start, h, _, _, hnames, _ => by
    rw [code, codeAt_append] at h
    have hheight : args.length ≤ f.heightAt (start + Expr.listSize args) := by
      rw [Expr.listHeightAt_add_size args h.1]
      omega
    rw [code, along_append, along_cons, Expr.length_listCode]
    exact ⟨Expr.listFits hcount args h.1 hnames, .call hheight, along_nil _ _⟩
  | .assign name e, start, h, _, _, hnames, _ | .declare name e, start, h, _, _, hnames, _ =>
    Expr.fits_setLocal hcount (hnames name List.mem_cons_self)
      (fun v hv => hnames v (List.mem_cons_of_mem _ hv)) h
  | .cond condition body, start, h, hstart, hend, hnames, hleave => by
    have hafter := heightAt_add_size (.cond condition body) h hstart
    rw [code] at h ⊢
    have hinner := Function.heightAt_body h hstart
    have hbody := (codeAt_append.mp h).2
    rw [codeAt_cons, Expr.length_code] at hbody
    rw [size, ← Nat.add_assoc, ← Nat.add_assoc] at hend hafter
    refine Expr.fits_branch hcount (fun v hv => hnames v (List.mem_append_left _ hv)) hstart hend
      hafter h ?_
    exact bodyFits hcount body hbody.2 hinner hend
      (fun v hv => hnames v (List.mem_append_right _ hv)) hleave
  | .loop condition body, start, h, hstart, hend, hnames, hleave => by
    have hafter := heightAt_add_size (.loop condition body) h hstart
    rw [code] at h ⊢
    have hinner := Function.heightAt_body h hstart
    have hbody := (codeAt_append.mp h).2
    rw [codeAt_cons, codeAt_append, Expr.length_code] at hbody
    rw [size, ← Nat.add_assoc, ← Nat.add_assoc, ← Nat.add_assoc] at hend hafter
    refine Expr.fits_branch hcount (fun v hv => hnames v (List.mem_append_left _ hv)) hstart hend
      hafter h ?_
    have hback : f.heightAt start = f.heightAt (start + condition.size + 1 + bodySize body) := by
      rw [hstart, bodyHeightAt_add_size body hbody.2.1 hinner]
    rw [along_append, along_cons, length_bodyCode]
    refine ⟨?_, .goto (by omega) hback, along_nil _ _⟩
    exact bodyFits hcount body hbody.2.1 hinner (by omega)
      (fun v hv => hnames v (List.mem_append_right _ hv))
      fun i hi => hleave i (List.mem_append_left _ hi)
  | .leave, start, _, _, _, _, hleave =>
    along_cons.mpr ⟨hleave start (List.mem_singleton_self _), along_nil _ _⟩
  | .suspend, _, _, hstart, _, _, _ => along_cons.mpr ⟨.suspend hstart, along_nil _ _⟩

/-- The instructions of statements fit, if those of their `break` jumps do. -/
theorem Stmt.bodyFits (hcount : f.localCount = names.length) :
    ∀ (body : List Stmt) {start : Nat},
      CodeAt f.instructions start (Stmt.bodyCode names aim start body) → f.heightAt start = 0 →
      start + Stmt.bodySize body < f.instructions.size →
      (∀ v ∈ Stmt.bodyMentioned body, v ∈ names) →
      (∀ i, .leave i ∈ Stmt.bodyEvents start body →
        Fits f stray i { op := .goto, operand := aim i }) →
      Along (Fits f stray) start (Stmt.bodyCode names aim start body)
  | [], _, _, _, _, _, _ => along_nil _ _
  | s :: body, start, h, hstart, hend, hnames, hleave => by
    rw [bodyCode, codeAt_append, length_code] at h
    rw [bodySize, ← Nat.add_assoc] at hend
    rw [bodyCode, along_append, length_code]
    constructor
    · exact fits hcount s h.1 hstart (by omega) (fun v hv => hnames v (List.mem_append_left _ hv))
        fun i hi => hleave i (List.mem_append_left _ hi)
    · exact bodyFits hcount body h.2 (heightAt_add_size s h.1 hstart) hend
        (fun v hv => hnames v (List.mem_append_right _ hv))
        fun i hi => hleave i (List.mem_append_right _ hi)

end

end

/-- The jump at an index belongs to a `break` of a program. -/
def Program.BreaksAt (p : Program) (index : Nat) : Prop :=
  ∃ site ∈ p.breakSites, site.index = index

namespace Compiled

variable {p : Program} {names : List String} {f : Function}

/-- The jump of a `break` fits, since it leads to a boundary or stays without a target. -/
theorem fits_leave (h : Compiled p names f) {index : Nat}
    (hindex : .leave index ∈ Stmt.bodyEvents 0 p.statements) :
    Fits f p.BreaksAt index { op := .goto, operand := operandAt f.instructions index } := by
  have hlow := h.heightAt_of_mem_boundaries (Stmt.mem_boundaries_of_mem_bodyEvents hindex)
  rcases h.settled.jump_at hindex with ⟨after, hafter, hcode⟩ | hcode
  · have hboundary := Stmt.mem_boundaries_of_mem_bodyEvents hafter
    have hlevel : f.heightAt after = f.heightAt index :=
      (h.heightAt_of_mem_boundaries hboundary).trans hlow.symm
    have hjump : Fits f p.BreaksAt index { op := .goto, operand := .jump after } :=
      .goto (h.lt_size_of_mem_boundaries hboundary) hlevel
    rw [operandAt, hcode]
    exact hjump
  · rw [operandAt, hcode]
    exact .stray (Stmt.exists_bodyBreakSite p.statements hindex)

/-- Every instruction of compiled code fits its index. -/
theorem fits (h : Compiled p names f) {index : Nat} {i : Instruction}
    (hi : f.instructions[index]? = some i) : Fits f p.BreaksAt index i := by
  have hbody : Along (Fits f p.BreaksAt) 0 _ := Stmt.bodyFits h.localCount_eq p.statements h.codeAt
    rfl (by rw [h.size_eq]; omega) h.declared fun _ => h.fits_leave
  rcases h.along_or_last hbody hi with ⟨hlast, rfl⟩ | hfits
  · have hlow := Stmt.bodyHeightAt_add_size p.statements h.codeAt rfl
    rw [Nat.zero_add] at hlow
    rw [h.size_eq] at hlast
    obtain rfl : index = Stmt.bodySize p.statements := by omega
    exact .finish hlow
  · exact hfits

/-- An instruction that goes on is not the last one. -/
theorem succ_lt_size (h : Compiled p names f) {index : Nat} {op : Opcode} {operand : Operand}
    (hi : f.instructions[index]? = some { op, operand }) (hop : op ≠ .finish) :
    index + 1 < f.instructions.size := by
  have hlt : index < f.instructions.size := (Array.getElem?_eq_some_iff.mp hi).1
  rw [h.size_eq] at hlt ⊢
  by_cases hend : index = Stmt.bodySize p.statements
  · rw [hend, h.finish_at] at hi
    cases hi
    exact absurd rfl hop
  · omega

end Compiled

end FrameScript
