import FrameScript.Proofs.Compiler.Deletion
import FrameScript.Proofs.Compiler.Walk

/-!
# Compilation without `yield`

Without its `yield` statements a program compiles to the same code without the instructions that
suspend. Every jump, that of a `break` included, leads to the instruction to which it led before.
-/

namespace FrameScript

/-! ### Drafts -/

namespace Draft

/-- A draft of the same statements without those that suspend. -/
structure Uninterrupted (d e : Draft) : Prop where
  code_eq : e.code = uninterruptedCode d.code
  names_eq : e.names = d.names
  pending_eq : e.pending = d.pending.map (keptBefore d.code)
  waiting : d.Waiting
  /-- Jumps lead to instructions that are there, or to the one that comes next. -/
  inside : ∀ i ∈ d.code, ∀ target, i.operand = .jump target → target ≤ d.here

variable {d d' e : Draft} {i : Instruction} {op : Opcode} {operand : Operand}
  {part : List Instruction} {index : Nat}

namespace Uninterrupted

/-- The next index counts the instructions that stay. -/
theorem here_eq (h : d.Uninterrupted e) : e.here = keptBefore d.code d.here := by
  rw [here, h.code_eq, size_uninterruptedCode, here]

/-- With one more instruction, jumps still lead to what is there or comes next. -/
theorem inside_emit (h : d.Uninterrupted e)
    (htarget : ∀ target, operand = .jump target → target ≤ d.here) :
    ∀ i ∈ (d.emit op operand).code, ∀ target, i.operand = .jump target →
      target ≤ (d.emit op operand).here := by
  intro i hi target hi'
  rw [here_emit]
  rcases Array.mem_push.mp hi with hold | rfl
  · exact Nat.le_succ_of_le (h.inside i hold target hi')
  · exact Nat.le_succ_of_le (htarget target hi')

/-- An instruction behind the jump that waits does not move it. -/
theorem pending_emit (h : d.Uninterrupted e) :
    d.pending.map (keptBefore (d.emit op operand).code) = d.pending.map (keptBefore d.code) :=
  Option.map_congr fun _ hi => keptBefore_push (Nat.le_of_lt (h.waiting.lt_here hi))

/-- An instruction that stays is added on both sides, with its target moved. -/
theorem emit (h : d.Uninterrupted e) (hop : op ≠ .suspend)
    (htarget : ∀ target, operand = .jump target → target ≤ d.here) :
    (d.emit op operand).Uninterrupted (e.emit op (operand.moved (keptBefore d.code))) where
  code_eq := by
    have hkept : Instruction.kept { op, operand } = true := by simp [Instruction.kept, hop]
    change e.code.push _ = uninterruptedCode (d.code.push _)
    rw [h.code_eq, uninterruptedCode_push hkept h.inside htarget]
    rfl
  names_eq := h.names_eq
  pending_eq := h.pending_eq.trans h.pending_emit.symm
  waiting := h.waiting.emit
  inside := h.inside_emit htarget

/-- An instruction that suspends leaves no trace. -/
theorem emit_suspend (h : d.Uninterrupted e) : (d.emit .suspend).Uninterrupted e where
  code_eq := h.code_eq.trans (uninterruptedCode_push_suspend h.inside).symm
  names_eq := h.names_eq
  pending_eq := h.pending_eq.trans h.pending_emit.symm
  waiting := h.waiting.emit
  inside := h.inside_emit (by simp)

/-- A plain instruction is added on both sides as it is. -/
theorem emit_plain (h : d.Uninterrupted e) (hplain : Instruction.Plain { op, operand }) :
    (d.emit op operand).Uninterrupted (e.emit op operand) := by
  have hemit := h.emit hplain.1 fun target hjump => absurd hjump (hplain.2 target)
  rwa [hplain.moved_operand] at hemit

/-- Plain instructions are added on both sides as they are. -/
theorem extend (h : d.Uninterrupted e) (hplain : ∀ i ∈ part, i.Plain) :
    (d.extend part).Uninterrupted (e.extend part) := by
  induction part generalizing d e with
  | nil => rwa [extend_nil, extend_nil]
  | cons i part ih =>
    have hrest := ih (h.emit_plain (hplain i List.mem_cons_self)) fun j hj =>
      hplain j (List.mem_cons_of_mem _ hj)
    simpa [Draft.extend, Draft.emit] using hrest

/-- A name is added on both sides. -/
theorem addName (h : d.Uninterrupted e) (name : String) :
    (d.addName name).Uninterrupted (e.addName name) where
  code_eq := h.code_eq
  names_eq := congrArg (· ++ [name]) h.names_eq
  pending_eq := h.pending_eq
  waiting := h.waiting
  inside := h.inside

/-- A jump that stays is aimed at the next index on both sides. -/
theorem aim (h : d.Uninterrupted e) (hindex : d.code[index]? = some i) (hkept : i.kept = true)
    (hpending : index ∉ d.pending) :
    (d.aim index d.here).Uninterrupted (e.aim (keptBefore d.code index) e.here) where
  code_eq := by
    change e.code.modify (keptBefore d.code index) (·.aimedAt e.here) =
      uninterruptedCode (d.code.modify index (·.aimedAt d.here))
    rw [h.code_eq, uninterruptedCode_modify hindex hkept, h.here_eq]
  names_eq := h.names_eq
  pending_eq := by
    change e.pending = d.pending.map (keptBefore (d.code.modify _ _))
    rw [keptBefore_modify]
    exact h.pending_eq
  waiting := h.waiting.aim hpending
  inside := fun j hj target htarget => by
    obtain ⟨k, hk⟩ := Array.mem_iff_getElem?.mp hj
    rw [here_aim]
    by_cases hne : k = index
    · subst hne
      rw [code_aim_self, hindex] at hk
      cases hk
      cases htarget
      exact Nat.le_refl _
    · rw [code_aim_of_ne hne] at hk
      exact h.inside j (Array.mem_iff_getElem?.mpr ⟨k, hk⟩) target htarget

/-- The jump of a `break` waits on both sides, without a target. -/
theorem leave (h : d.Uninterrupted e) : d.leave.Uninterrupted e.leave where
  code_eq := (h.emit_plain ⟨by simp, by simp⟩).code_eq
  names_eq := h.names_eq
  pending_eq := by
    have hhere : keptBefore (d.code.push { op := .goto }) d.here = e.here :=
      (keptBefore_push (Nat.le_refl _)).trans h.here_eq.symm
    exact congrArg some hhere.symm
  waiting := .leave
  inside := h.inside_emit (by simp)

/-- The jump that waits is still the same one when a loop ends. -/
theorem endLoop (h : d.Uninterrupted e) : d.endLoop.Uninterrupted e.endLoop := by
  cases hpending : d.pending with
  | none =>
    have hnone : e.pending = none := by rw [h.pending_eq, hpending, Option.map_none]
    unfold Draft.endLoop
    rwa [hpending, hnone]
  | some index =>
    have hsome : e.pending = some (keptBefore d.code index) := by
      rw [h.pending_eq, hpending, Option.map_some]
    have hforgotten : Draft.Uninterrupted { d with pending := none } { e with pending := none } :=
      ⟨h.code_eq, h.names_eq, rfl, by simp [Waiting], h.inside⟩
    have haim := hforgotten.aim (h.waiting index hpending) (by decide) (by simp)
    unfold Draft.endLoop
    rw [hpending, hsome]
    exact haim

end Uninterrupted

end Draft

/-! ### Opcodes do not change once they are emitted -/

/-- Aiming a jump changes no opcode. -/
theorem Draft.op_aim (d : Draft) (index target i : Nat) :
    (d.aim index target).code[i]?.map (·.op) = d.code[i]?.map (·.op) := by
  by_cases hne : i = index
  · subst hne
    rw [code_aim_self, Option.map_map]
    rfl
  · rw [code_aim_of_ne hne]

/-- The end of a loop changes no opcode. -/
theorem Draft.op_endLoop (d : Draft) (i : Nat) :
    d.endLoop.code[i]?.map (·.op) = d.code[i]?.map (·.op) := by
  unfold endLoop
  split
  · rfl
  · exact d.op_aim _ _ i

/-- What statements add does not change the opcodes before. -/
theorem Emits.op_eq {d d' : Draft} {body : List Stmt} (h : Emits d body d') {i : Nat}
    (hi : i < d.here) : d'.code[i]?.map (·.op) = d.code[i]?.map (·.op) := by
  induction h with
  | nil => rfl
  | call _ _ ih | assign _ _ ih | declare _ _ _ ih =>
    rw [ih (by simp; omega), Draft.code_emit_of_lt (by simp; omega)]
    exact congrArg _ (Draft.code_extend_of_lt hi)
  | suspend _ ih => rw [ih (by simp; omega), Draft.code_emit_of_lt hi]
  | leave _ ih =>
    rw [ih (by simp; omega)]
    exact congrArg _ (Draft.code_emit_of_lt hi)
  | cond _ within _ ihWithin ih =>
    have hhere := within.here_within
    rw [ih (by simp; omega), Draft.op_aim, ihWithin (by simp; omega),
      Draft.code_emit_of_lt (by simp; omega), Draft.code_extend_of_lt hi]
  | loop _ within _ ihWithin ih =>
    have hhere := within.here_within
    rw [ih (by simp; omega), Draft.op_endLoop, Draft.op_aim, Draft.code_emit_of_lt (by omega),
      ihWithin (by simp; omega), Draft.code_emit_of_lt (by simp; omega),
      Draft.code_extend_of_lt hi]

/-- An instruction does not count before itself. -/
theorem Draft.keptBefore_emit {d : Draft} {op : Opcode} {operand : Operand} {index : Nat}
    (h : index ≤ d.here) :
    keptBefore (d.emit op operand).code index = keptBefore d.code index :=
  keptBefore_push h

/-- What is added does not count before it. -/
theorem Draft.keptBefore_extend {d : Draft} {part : List Instruction} {index : Nat}
    (h : index ≤ d.here) : keptBefore (d.extend part).code index = keptBefore d.code index :=
  keptBefore_congr fun k hk => by rw [code_extend_of_lt (by omega)]

/-- What statements add does not count before them. -/
theorem Emits.keptBefore_eq {d d' : Draft} {body : List Stmt} (h : Emits d body d') {index : Nat}
    (hle : index ≤ d.here) : keptBefore d'.code index = keptBefore d.code index :=
  keptBefore_congr fun _ hk => h.op_eq (by omega)

/-- Behind a condition there is a jump, whatever comes after it. -/
theorem Emits.op_exit {d d' : Draft} {body : List Stmt} (h : Emits (d.emit .branch) body d') :
    d'.code[d.here]?.map (·.op) = some .branch := by
  rw [h.op_eq (by simp), Draft.code_emit_here]
  rfl

/-! ### Statements -/

namespace Expr

mutual

/-- The code of an expression holds no jump. -/
theorem plain_code (names : List String) : ∀ e : Expr, ∀ i ∈ e.code names, i.Plain
  | .number _, i, hi | .bool _, i, hi | .variable _, i, hi => by
    cases List.mem_singleton.mp hi
    exact ⟨by simp, by simp⟩
  | .binary left op right, i, hi => by
    rw [code, List.mem_append, List.mem_append, List.mem_singleton] at hi
    rcases hi with (hi | hi) | rfl
    · exact plain_code names left i hi
    · exact plain_code names right i hi
    · exact ⟨by cases op <;> simp [BinaryOp.opcode], by simp⟩
  | .call _ args, i, hi => by
    rw [code, List.mem_append, List.mem_singleton] at hi
    rcases hi with hi | rfl
    · exact plain_listCode names args i hi
    · exact ⟨by simp, by simp⟩

/-- The code of several expressions holds no jump. -/
theorem plain_listCode (names : List String) : ∀ es : List Expr, ∀ i ∈ listCode names es, i.Plain
  | [], _, hi => by simp [listCode] at hi
  | e :: es, i, hi => by
    rw [listCode, List.mem_append] at hi
    rcases hi with hi | hi
    · exact plain_code names e i hi
    · exact plain_listCode names es i hi

end

end Expr

namespace Draft

/-- The slot of a variable depends only on the names that are declared. -/
theorem slot_of_names {d other : Draft} {name : String} {index : Nat} (h : d.slot name = .ok index)
    (hnames : other.names = d.names) : other.slot name = .ok index := by
  rwa [slot, hnames]

mutual

/-- Whether an expression compiles depends only on the names that are declared. -/
theorem expression_of_names {r : Registry} : ∀ (e : Expr) {d d' other : Draft},
    expression r e d = .ok d' → other.names = d.names →
      expression r e other = .ok (other.extend (e.code d.names))
  | .number _, _, _, _, _, _ | .bool _, _, _, _, _, _ => by
    simp [expression, emit, extend, Expr.code]
  | .variable name, d, d', other, h, hnames => by
    simp only [expression, bind_eq_ok, pure_eq_ok] at h
    obtain ⟨index, hslot, -⟩ := h
    simp only [expression, bind_eq_ok, pure_eq_ok]
    refine ⟨_, slot_of_names hslot hnames, ?_⟩
    obtain ⟨rfl, -⟩ := slot_eq_ok hslot
    simp [emit, extend, Expr.code]
  | .binary left op right, d, d', other, h, hnames => by
    simp only [expression, bind_eq_ok, pure_eq_ok] at h
    obtain ⟨d₁, hleft, d₂, hright, -⟩ := h
    obtain ⟨rfl, -⟩ := expression_eq_ok left hleft
    simp only [expression, bind_eq_ok, pure_eq_ok]
    refine ⟨_, expression_of_names left hleft hnames, _,
      expression_of_names right hright hnames, ?_⟩
    simp [emit, extend, Expr.code]
  | .call name args, d, d', other, h, hnames => by
    simp only [expression, bind_eq_ok, pure_eq_ok] at h
    obtain ⟨site, hsite, d₁, hargs, -⟩ := h
    simp only [expression, bind_eq_ok, pure_eq_ok]
    refine ⟨site, hsite, _, arguments_of_names args hargs hnames, ?_⟩
    obtain rfl := Registry.eq_of_resolve hsite
    simp [emit, extend, Expr.code]

/-- Whether arguments compile depends only on the names that are declared. -/
theorem arguments_of_names {r : Registry} : ∀ (es : List Expr) {d d' other : Draft},
    arguments r es d = .ok d' → other.names = d.names →
      arguments r es other = .ok (other.extend (Expr.listCode d.names es))
  | [], _, _, _, _, _ => by simp [arguments, Expr.listCode]
  | e :: es, d, d', other, h, hnames => by
    simp only [arguments, bind_eq_ok] at h
    obtain ⟨d₁, hhead, htail⟩ := h
    obtain ⟨rfl, -⟩ := expression_eq_ok e hhead
    have hmore : (other.extend (e.code d.names)).names = (d.extend (e.code d.names)).names := hnames
    simp only [arguments, bind_eq_ok]
    refine ⟨_, expression_of_names e hhead hnames, ?_⟩
    rw [arguments_of_names es htail hmore]
    simp [extend, Expr.listCode]

end

end Draft

namespace Stmt

mutual

/-- A statement without those inside it that suspend, if it does not suspend itself. -/
def uninterrupted : Stmt → List Stmt
  | .cond condition body => [.cond condition (bodyUninterrupted body)]
  | .loop condition body => [.loop condition (bodyUninterrupted body)]
  | .suspend => []
  | .call name args => [.call name args]
  | .assign name value => [.assign name value]
  | .declare name initializer => [.declare name initializer]
  | .leave => [.leave]

/-- Statements without those at any depth that suspend. -/
def bodyUninterrupted : List Stmt → List Stmt
  | [] => []
  | s :: body => s.uninterrupted ++ bodyUninterrupted body

end

end Stmt

namespace Draft

/-- A single statement compiles like the statement alone. -/
theorem block_singleton (r : Registry) (s : Stmt) (d : Draft) :
    block r [s] d = statement r s d := by
  rw [block]
  cases statement r s d <;> rfl

/-- Statements that compile one after the other do so together. -/
theorem block_append {r : Registry} {first second : List Stmt} {d d₁ d' : Draft}
    (hfirst : block r first d = .ok d₁) (hsecond : block r second d₁ = .ok d') :
    block r (first ++ second) d = .ok d' := by
  induction first generalizing d with
  | nil =>
    cases hfirst
    exact hsecond
  | cons s first ih =>
    simp only [block, bind_eq_ok] at hfirst
    obtain ⟨d₂, hhead, htail⟩ := hfirst
    simp only [List.cons_append, block, bind_eq_ok]
    exact ⟨d₂, hhead, ih htail⟩

/-- A condition, the jump behind it and a body, in a draft and in one of the same statements without
those that suspend. -/
structure Tested (d e : Draft) (part : List Instruction) (inner : List Stmt) (d₁ e₁ : Draft) :
    Prop where
  test : (d.extend part).Uninterrupted (e.extend part)
  within : Emits ((d.extend part).emit .branch) inner d₁
  body : d₁.Uninterrupted e₁
  pending : (d.extend part).here ∉ d₁.pending

namespace Tested

variable {d e d₁ e₁ : Draft} {part : List Instruction} {inner : List Stmt}

/-- Up to the jump behind a condition, as many instructions stay as before the body. -/
theorem keptBefore_eq (h : Tested d e part inner d₁ e₁) {index : Nat}
    (hle : index ≤ (d.extend part).here) :
    keptBefore d₁.code index = keptBefore (d.extend part).code index := by
  have hemit : index ≤ ((d.extend part).emit .branch).here := by
    rw [here_emit]
    exact Nat.le_succ_of_le hle
  rw [h.within.keptBefore_eq hemit, keptBefore_emit hle]

/-- The jump behind a condition can be aimed on both sides at the end of a body that goes on. -/
theorem aim_exit (h : Tested d e part inner d₁ e₁) {d₂ e₂ : Draft} (hbody : d₂.Uninterrupted e₂)
    (hop : d₂.code[(d.extend part).here]?.map (·.op) = some .branch)
    (hsame : keptBefore d₂.code (d.extend part).here = keptBefore d₁.code (d.extend part).here)
    (hpending : (d.extend part).here ∉ d₂.pending) :
    (d₂.aim (d.extend part).here d₂.here).Uninterrupted
      (e₂.aim (e.extend part).here e₂.here) := by
  obtain ⟨i, hi, hbranch⟩ := Option.map_eq_some_iff.mp hop
  rw [h.test.here_eq, ← h.keptBefore_eq (Nat.le_refl _), ← hsame]
  exact hbody.aim hi (by simp [Instruction.kept, hbranch]) hpending

/-- A conditional ends where it ended before. -/
theorem cond (h : Tested d e part inner d₁ e₁) :
    (d₁.aim (d.extend part).here d₁.here).Uninterrupted
      (e₁.aim (e.extend part).here e₁.here) :=
  h.aim_exit h.body h.within.op_exit rfl h.pending

/-- A loop goes back to where its condition has moved to. -/
theorem loop (h : Tested d e part inner d₁ e₁) (hstart : d.Uninterrupted e) :
    let back := d₁.emit .goto (.jump d.here)
    let back' := e₁.emit .goto (.jump e.here)
    (back.aim (d.extend part).here back.here).endLoop.Uninterrupted
      (back'.aim (e.extend part).here back'.here).endLoop := by
  have hhere := h.within.here_eq
  rw [here_emit, here_extend] at hhere
  have hlt : (d.extend part).here < d₁.here := by
    rw [here_extend]
    omega
  have hmoved : keptBefore d₁.code d.here = e.here := by
    rw [h.keptBefore_eq (by simp), keptBefore_extend (Nat.le_refl _), hstart.here_eq]
  have hback : (d₁.emit .goto (.jump d.here)).Uninterrupted (e₁.emit .goto (.jump e.here)) := by
    rw [← hmoved]
    refine h.body.emit (by simp) fun target htarget => ?_
    cases htarget
    omega
  refine (h.aim_exit hback ?_ (keptBefore_emit (Nat.le_of_lt hlt)) h.pending).endLoop
  rw [code_emit_of_lt hlt]
  exact h.within.op_exit

end Tested

/-- A condition that compiles does so again, and then its body if that does. -/
theorem exists_tested {r : Registry} {condition : Expr} {body : List Stmt} {d d₁ d₂ e : Draft}
    (hcondition : expression r condition d = .ok d₁)
    (hbody : block r body (d₁.emit .branch) = .ok d₂) (hd : d.Uninterrupted e)
    (hagain : ∀ {e₁ : Draft}, (d₁.emit .branch).Uninterrupted e₁ →
      ∃ e₂, block r (Stmt.bodyUninterrupted body) e₁ = .ok e₂ ∧ d₂.Uninterrupted e₂) :
    ∃ e₁ e₂, expression r condition e = .ok e₁ ∧
      block r (Stmt.bodyUninterrupted body) (e₁.emit .branch) = .ok e₂ ∧
      d₁ = d.extend (condition.code d.names) ∧ e₁ = e.extend (condition.code d.names) ∧
      Tested d e (condition.code d.names) body d₂ e₂ := by
  have hcondition' := expression_of_names condition hcondition hd.names_eq
  obtain ⟨rfl, -⟩ := expression_eq_ok condition hcondition
  have htest := hd.extend (Expr.plain_code d.names condition)
  obtain ⟨e₂, hbody', hd₂⟩ := hagain (htest.emit_plain ⟨by simp, by simp⟩)
  have hwithin := emits_of_block body hbody
  have hexit : (d.extend (condition.code d.names)).here ∉ d₂.pending := by
    rw [here_extend, Expr.length_code]
    exact hwithin.exit_notMem_pending hd.waiting
  exact ⟨_, e₂, hcondition', hbody', rfl, rfl, htest, hwithin, hd₂, hexit⟩

mutual

/-- A statement that compiles does so again without those inside it that suspend. -/
theorem statement_uninterrupted {r : Registry} : ∀ (s : Stmt) {d d' e : Draft},
    statement r s d = .ok d' → d.Uninterrupted e →
      ∃ e', block r s.uninterrupted e = .ok e' ∧ d'.Uninterrupted e'
  | .call name args, d, d', e, h, hd => by
    simp only [statement, refuse_eq_ok, callStatement, bind_eq_ok, pure_eq_ok] at h
    obtain ⟨site, hsite, d₁, hargs, rfl⟩ := h
    have hargs' := arguments_of_names args hargs hd.names_eq
    obtain ⟨rfl, -⟩ := arguments_eq_ok args hargs
    refine ⟨(e.extend (Expr.listCode d.names args)).emit .call (.callee site), ?_, ?_⟩
    · rw [Stmt.uninterrupted, block_singleton, statement, refuse_eq_ok]
      simp only [callStatement, bind_eq_ok, pure_eq_ok]
      exact ⟨site, hsite, _, hargs', rfl⟩
    · exact (hd.extend (Expr.plain_listCode _ args)).emit_plain ⟨by simp, by simp⟩
  | .assign name value, d, d', e, h, hd => by
    simp only [statement, refuse_eq_ok, store, bind_eq_ok, pure_eq_ok] at h
    obtain ⟨d₁, hvalue, index, hslot, rfl⟩ := h
    have hvalue' := expression_of_names value hvalue hd.names_eq
    obtain ⟨rfl, -⟩ := expression_eq_ok value hvalue
    refine ⟨(e.extend (value.code d.names)).emit .setLocal (.slot index), ?_, ?_⟩
    · rw [Stmt.uninterrupted, block_singleton, statement, refuse_eq_ok]
      simp only [store, bind_eq_ok, pure_eq_ok]
      exact ⟨_, hvalue', index, slot_of_names hslot hd.names_eq, rfl⟩
    · exact (hd.extend (Expr.plain_code _ value)).emit_plain ⟨by simp, by simp⟩
  | .declare name initializer, d, d', e, h, hd => by
    simp only [statement, refuse_eq_ok, declare, bind_eq_ok] at h
    obtain ⟨d₁, hinitializer, hfresh⟩ := h
    have hinitializer' := expression_of_names initializer hinitializer hd.names_eq
    obtain ⟨rfl, -⟩ := expression_eq_ok initializer hinitializer
    split at hfresh
    · cases hfresh
    · next hname =>
      cases hfresh
      have hpart := hd.extend (Expr.plain_code d.names initializer)
      refine ⟨_, ?_, (hpart.addName name).emit_plain ⟨by simp, by simp⟩⟩
      rw [Stmt.uninterrupted, block_singleton]
      simp only [statement, refuse_eq_ok, declare, bind_eq_ok]
      refine ⟨_, hinitializer', ?_⟩
      rw [addName, hpart.names_eq, if_neg hname]
  | .cond condition body, d, d', e, h, hd => by
    simp only [statement, refuse_eq_ok, bind_eq_ok, pure_eq_ok] at h
    obtain ⟨d₁, hcondition, d₂, hbody, rfl⟩ := h
    obtain ⟨e₁, e₂, hcondition', hbody', rfl, rfl, htested⟩ :=
      exists_tested hcondition hbody hd (block_uninterrupted body hbody)
    refine ⟨_, ?_, htested.cond⟩
    rw [Stmt.uninterrupted, block_singleton]
    simp only [statement, refuse_eq_ok, bind_eq_ok, pure_eq_ok]
    exact ⟨_, hcondition', e₂, hbody', rfl⟩
  | .loop condition body, d, d', e, h, hd => by
    simp only [statement, refuse_eq_ok, bind_eq_ok, pure_eq_ok] at h
    obtain ⟨d₁, hcondition, d₂, hbody, rfl⟩ := h
    obtain ⟨e₁, e₂, hcondition', hbody', rfl, rfl, htested⟩ :=
      exists_tested hcondition hbody hd (block_uninterrupted body hbody)
    refine ⟨_, ?_, htested.loop hd⟩
    rw [Stmt.uninterrupted, block_singleton]
    simp only [statement, refuse_eq_ok, bind_eq_ok, pure_eq_ok]
    exact ⟨_, hcondition', e₂, hbody', rfl⟩
  | .leave, d, d', e, h, hd => by
    cases h
    exact ⟨e.leave, rfl, hd.leave⟩
  | .suspend, d, d', e, h, hd => by
    cases h
    exact ⟨e, rfl, hd.emit_suspend⟩

/-- Whatever compiles also compiles without the statements that suspend, to the same code without
the instructions that suspend. -/
theorem block_uninterrupted {r : Registry} : ∀ (body : List Stmt) {d d' e : Draft},
    block r body d = .ok d' → d.Uninterrupted e →
      ∃ e', block r (Stmt.bodyUninterrupted body) e = .ok e' ∧ d'.Uninterrupted e'
  | [], d, d', e, h, hd => by
    cases h
    exact ⟨e, rfl, hd⟩
  | s :: body, d, d', e, h, hd => by
    simp only [block, bind_eq_ok] at h
    obtain ⟨d₁, hhead, htail⟩ := h
    obtain ⟨e₁, hhead', hd₁⟩ := statement_uninterrupted s hhead hd
    obtain ⟨e', htail', hd'⟩ := block_uninterrupted body htail hd₁
    exact ⟨e', block_append hhead' htail', hd'⟩

end

end Draft

/-- The program without its `yield` statements, at every depth. -/
def Program.uninterrupted (p : Program) : Program where
  statements := Stmt.bodyUninterrupted p.statements

/-- A program that compiles also compiles without its `yield` statements, to the same code without
the instructions that suspend. -/
theorem Program.compile_uninterrupted {p : Program} {r : Registry} {f : Function}
    (h : p.compile r = .ok f) : p.uninterrupted.compile r = .ok f.uninterrupted := by
  obtain ⟨d, hblock, rfl⟩ := compile_eq_ok.mp h
  have hempty : ({} : Draft).Uninterrupted {} :=
    ⟨rfl, rfl, rfl, fun i hi => by simp at hi, by simp⟩
  obtain ⟨e, hblock', hd⟩ := Draft.block_uninterrupted p.statements hblock hempty
  have hfinish : (d.emit .finish).Uninterrupted (e.emit .finish) :=
    hd.emit_plain ⟨by simp, by simp⟩
  refine compile_eq_ok.mpr ⟨e, hblock', ?_⟩
  rw [Draft.function, hfinish.code_eq, hd.names_eq]
  rfl

end FrameScript
