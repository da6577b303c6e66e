import FrameScript.Proofs.Compiler.Drafts
import FrameScript.Proofs.Result

/-!
# The walk of a compilation

A walk over a tree that succeeds is described by one rule for each kind of statement. From the rules
follow the length of the code, the order of the names, and what is known of the jump that waits.
-/

namespace FrameScript

namespace Draft

variable {d : Draft} {index : Nat}

/-- The slot of a variable is the position of its name. -/
theorem slot_eq_ok {name : String} (h : d.slot name = .ok index) :
    index = d.names.idxOf name ∧ name ∈ d.names := by
  unfold slot at h
  split at h
  · next found hfound =>
    cases h
    obtain ⟨hmem, hindex⟩ := idxOf?_eq_some.mp hfound
    exact ⟨hindex.symm, hmem⟩
  · cases h

mutual

/-- A compiled expression adds its code and nothing else, and all its variables are declared. -/
theorem expression_eq_ok {r : Registry} :
    ∀ (e : Expr) {d d' : Draft}, expression r e d = .ok d' →
      d' = d.extend (e.code d.names) ∧ ∀ v ∈ e.mentioned, v ∈ d.names
  | .number x, d, d', h => by
    simp only [expression, Except.ok.injEq] at h
    subst h
    simp [emit, extend, Expr.code, Expr.mentioned]
  | .bool b, d, d', h => by
    simp only [expression, Except.ok.injEq] at h
    subst h
    simp [emit, extend, Expr.code, Expr.mentioned]
  | .variable name, d, d', h => by
    simp only [expression, bind_eq_ok, pure_eq_ok] at h
    obtain ⟨index, hslot, rfl⟩ := h
    obtain ⟨rfl, hmem⟩ := slot_eq_ok hslot
    simpa [emit, extend, Expr.code, Expr.mentioned] using hmem
  | .binary left op right, d, d', h => by
    simp only [expression, bind_eq_ok, pure_eq_ok] at h
    obtain ⟨d₁, hleft, d₂, hright, rfl⟩ := h
    obtain ⟨rfl, hl⟩ := expression_eq_ok left hleft
    obtain ⟨rfl, hr⟩ := expression_eq_ok right hright
    refine ⟨by simp [emit, extend, Expr.code], fun v hv => ?_⟩
    rcases List.mem_append.mp hv with hv | hv
    · exact hl v hv
    · exact hr v hv
  | .call name args, d, d', h => by
    simp only [expression, bind_eq_ok, pure_eq_ok] at h
    obtain ⟨site, hsite, d₁, hargs, rfl⟩ := h
    obtain rfl := Registry.eq_of_resolve hsite
    obtain ⟨rfl, hvars⟩ := arguments_eq_ok args hargs
    exact ⟨by simp [emit, extend, Expr.code], hvars⟩

/-- Compiled arguments add their code and nothing else, and all their variables are declared. -/
theorem arguments_eq_ok {r : Registry} :
    ∀ (es : List Expr) {d d' : Draft}, arguments r es d = .ok d' →
      d' = d.extend (Expr.listCode d.names es) ∧ ∀ v ∈ Expr.listMentioned es, v ∈ d.names
  | [], d, d', h => by
    simp only [arguments, Except.ok.injEq] at h
    subst h
    simp [extend, Expr.listCode, Expr.listMentioned]
  | e :: es, d, d', h => by
    simp only [arguments, bind_eq_ok] at h
    obtain ⟨d₁, hhead, htail⟩ := h
    obtain ⟨rfl, hh⟩ := expression_eq_ok e hhead
    obtain ⟨rfl, ht⟩ := arguments_eq_ok es htail
    refine ⟨by simp [extend, Expr.listCode], fun v hv => ?_⟩
    rcases List.mem_append.mp hv with hv | hv
    · exact hh v hv
    · exact ht v hv

end

end Draft

/-- The draft from which statements are compiled, and the draft to which they lead. -/
inductive Emits : Draft → List Stmt → Draft → Prop where
  | nil {d} : Emits d [] d
  | call {d d' name args body}
      (declared : ∀ v ∈ Expr.listMentioned args, v ∈ d.names)
      (rest : Emits ((d.extend (Expr.listCode d.names args)).emit .call
        (.callee { name, arity := args.length, producesValue := false })) body d') :
      Emits d (.call name args :: body) d'
  | assign {d d' name value body}
      (declared : ∀ v ∈ name :: value.mentioned, v ∈ d.names)
      (rest : Emits ((d.extend (value.code d.names)).emit .setLocal
        (.slot (d.names.idxOf name))) body d') :
      Emits d (.assign name value :: body) d'
  | declare {d d' name initializer body}
      (declared : ∀ v ∈ initializer.mentioned, v ∈ d.names) (fresh : name ∉ d.names)
      (rest : Emits (((d.extend (initializer.code d.names)).addName name).emit .setLocal
        (.slot d.names.length)) body d') :
      Emits d (.declare name initializer :: body) d'
  | cond {d d₁ d' condition inner body}
      (declared : ∀ v ∈ condition.mentioned, v ∈ d.names)
      (within : Emits ((d.extend (condition.code d.names)).emit .branch) inner d₁)
      (rest : Emits (d₁.aim (d.here + condition.size) d₁.here) body d') :
      Emits d (.cond condition inner :: body) d'
  | loop {d d₁ d' condition inner body}
      (declared : ∀ v ∈ condition.mentioned, v ∈ d.names)
      (within : Emits ((d.extend (condition.code d.names)).emit .branch) inner d₁)
      (rest : Emits (((d₁.emit .goto (.jump d.here)).aim (d.here + condition.size)
        (d₁.here + 1)).endLoop) body d') :
      Emits d (.loop condition inner :: body) d'
  | leave {d d' body} (rest : Emits d.leave body d') : Emits d (.leave :: body) d'
  | suspend {d d' body} (rest : Emits (d.emit .suspend) body d') : Emits d (.suspend :: body) d'

namespace Emits

variable {d d' d'' : Draft} {first second body : List Stmt}

/-- A walk over some statements goes on with a walk over others. -/
theorem append (h : Emits d first d') (h' : Emits d' second d'') :
    Emits d (first ++ second) d'' := by
  induction h with
  | nil => exact h'
  | call declared _ ih => exact .call declared (ih h')
  | assign declared _ ih => exact .assign declared (ih h')
  | declare declared fresh _ ih => exact .declare declared fresh (ih h')
  | cond declared within _ _ ih => exact .cond declared within (ih h')
  | loop declared within _ _ ih => exact .loop declared within (ih h')
  | leave _ ih => exact .leave (ih h')
  | suspend _ ih => exact .suspend (ih h')

end Emits

namespace Draft

/-- Nothing is added to a step that succeeds. -/
theorem refuse_eq_ok {d d' : Draft} {result : Except ScriptError Draft} :
    d.refuse result = .ok d' ↔ result = .ok d' :=
  mapError_eq_ok

mutual

/-- A statement that compiles follows the rule for its kind. -/
theorem emits_of_statement {r : Registry} :
    ∀ (s : Stmt) {d d' : Draft}, statement r s d = .ok d' → Emits d [s] d'
  | .call name args, d, d', h => by
    simp only [statement, refuse_eq_ok, callStatement, bind_eq_ok, pure_eq_ok] at h
    obtain ⟨site, hsite, d₁, hargs, rfl⟩ := h
    obtain rfl := Registry.eq_of_resolve hsite
    obtain ⟨rfl, hdeclared⟩ := arguments_eq_ok args hargs
    exact .call hdeclared .nil
  | .assign name value, d, d', h => by
    simp only [statement, refuse_eq_ok, store, bind_eq_ok, pure_eq_ok] at h
    obtain ⟨d₁, hvalue, index, hslot, rfl⟩ := h
    obtain ⟨rfl, hdeclared⟩ := expression_eq_ok value hvalue
    obtain ⟨rfl, hname⟩ := slot_eq_ok hslot
    refine .assign (fun v hv => ?_) .nil
    rcases List.mem_cons.mp hv with rfl | hv
    · exact hname
    · exact hdeclared v hv
  | .declare name initializer, d, d', h => by
    simp only [statement, refuse_eq_ok, declare, bind_eq_ok] at h
    obtain ⟨d₁, hinitializer, hfresh⟩ := h
    obtain ⟨rfl, hdeclared⟩ := expression_eq_ok initializer hinitializer
    split at hfresh
    · cases hfresh
    · next hname =>
      cases hfresh
      exact .declare hdeclared (fun hmem => hname (List.contains_iff_mem.mpr hmem)) .nil
  | .cond condition body, d, d', h => by
    simp only [statement, refuse_eq_ok, bind_eq_ok, pure_eq_ok] at h
    obtain ⟨d₁, hcondition, d₂, hbody, rfl⟩ := h
    obtain ⟨rfl, hdeclared⟩ := expression_eq_ok condition hcondition
    rw [here_extend, Expr.length_code]
    exact .cond hdeclared (emits_of_block body hbody) .nil
  | .loop condition body, d, d', h => by
    simp only [statement, refuse_eq_ok, bind_eq_ok, pure_eq_ok] at h
    obtain ⟨d₁, hcondition, d₂, hbody, rfl⟩ := h
    obtain ⟨rfl, hdeclared⟩ := expression_eq_ok condition hcondition
    rw [here_extend, Expr.length_code, here_emit]
    exact .loop hdeclared (emits_of_block body hbody) .nil
  | .leave, d, d', h => by
    cases h
    exact .leave .nil
  | .suspend, d, d', h => by
    cases h
    exact .suspend .nil

/-- A walk over statements that succeeds follows the rules. -/
theorem emits_of_block {r : Registry} :
    ∀ (body : List Stmt) {d d' : Draft}, block r body d = .ok d' → Emits d body d'
  | [], d, d', h => by
    cases h
    exact .nil
  | s :: body, d, d', h => by
    simp only [block, bind_eq_ok] at h
    obtain ⟨d₁, hhead, htail⟩ := h
    exact (emits_of_statement s hhead).append (emits_of_block body htail)

end

end Draft

namespace Emits

variable {d d' : Draft} {body : List Stmt}

/-- The code grows by the size of the statements. -/
theorem here_eq (h : Emits d body d') : d'.here = d.here + Stmt.bodySize body := by
  induction h with
  | nil => rfl
  | call _ _ ih | assign _ _ ih | declare _ _ _ ih | leave _ ih | suspend _ ih =>
    simp [Stmt.bodySize, Stmt.size] at ih ⊢
    omega
  | cond _ _ _ ihWithin ih | loop _ _ _ ihWithin ih =>
    simp [Stmt.bodySize, Stmt.size] at ihWithin ih ⊢
    omega

/-- A body ends behind the condition, the jump behind that and its own code. -/
theorem here_within {d₁ : Draft} {inner : List Stmt} {names : List String} {condition : Expr}
    (h : Emits ((d.extend (condition.code names)).emit .branch) inner d₁) :
    d₁.here = d.here + condition.size + 1 + Stmt.bodySize inner := by
  rw [h.here_eq, Draft.here_emit, Draft.here_extend, Expr.length_code]

/-- Names are only added, behind the others. -/
theorem names_isPrefix (h : Emits d body d') : d.names <+: d'.names := by
  induction h with
  | nil => exact List.prefix_rfl
  | call _ _ ih | assign _ _ ih | leave _ ih | suspend _ ih => exact ih
  | declare _ _ _ ih => exact (List.prefix_append _ _).trans ih
  | cond _ _ _ ihWithin ih => exact ihWithin.trans ih
  | loop _ _ _ ihWithin ih =>
    rw [Draft.names_endLoop] at ih
    exact ihWithin.trans ih

/-- All variables are declared at the end. -/
theorem declared (h : Emits d body d') : ∀ v ∈ Stmt.bodyMentioned body, v ∈ d'.names := by
  induction h with
  | nil => simp [Stmt.bodyMentioned]
  | leave _ ih | suspend _ ih => exact ih
  | call hvars rest ih | assign hvars rest ih =>
    intro v hv
    rcases List.mem_append.mp hv with hv | hv
    · exact rest.names_isPrefix.subset (hvars v hv)
    · exact ih v hv
  | declare hvars _ rest ih =>
    intro v hv
    rcases List.mem_append.mp hv with hv | hv
    · refine rest.names_isPrefix.subset ?_
      rcases List.mem_cons.mp hv with rfl | hv
      · exact List.mem_append_right _ (List.mem_singleton_self _)
      · exact List.mem_append_left _ (hvars v hv)
    · exact ih v hv
  | cond hvars within rest ihWithin ih =>
    intro v hv
    rcases List.mem_append.mp hv with hv | hv
    · refine rest.names_isPrefix.subset ?_
      rcases List.mem_append.mp hv with hv | hv
      · exact within.names_isPrefix.subset (hvars v hv)
      · exact ihWithin v hv
    · exact ih v hv
  | loop hvars within rest ihWithin ih =>
    intro v hv
    rcases List.mem_append.mp hv with hv | hv
    · refine rest.names_isPrefix.subset ?_
      rw [Draft.names_endLoop]
      rcases List.mem_append.mp hv with hv | hv
      · exact within.names_isPrefix.subset (hvars v hv)
      · exact ihWithin v hv
    · exact ih v hv

/-- The jump that waits at the end was emitted on the way, or waited from the beginning. -/
theorem pending_of_mem {i : Nat} (h : Emits d body d') (hi : i ∈ d'.pending) :
    d.here ≤ i ∨ i ∈ d.pending := by
  induction h with
  | nil => exact .inr hi
  | call _ _ ih | assign _ _ ih | declare _ _ _ ih | suspend _ ih =>
    refine (ih hi).imp_left fun hle => ?_
    simp at hle
    omega
  | cond _ within _ ihWithin ih =>
    rcases ih hi with hle | hpending
    · left
      have hhere := within.here_within
      simp at hle
      omega
    · refine (ihWithin hpending).imp_left fun hle => ?_
      simp at hle
      omega
  | loop _ within _ _ ih =>
    left
    have hhere := within.here_within
    rcases ih hi with hle | hpending
    · simp at hle
      omega
    · simp at hpending
  | leave _ ih =>
    left
    rcases ih hi with hle | hpending
    · simp at hle
      omega
    · simp only [Draft.leave, Option.mem_def, Option.some.injEq] at hpending
      exact Nat.le_of_eq hpending

/-- A jump that was emitted before and does not wait will not wait later. -/
theorem notMem_pending {i : Nat} (h : Emits d body d') (hi : i < d.here)
    (hpending : i ∉ d.pending) : i ∉ d'.pending := by
  intro hmem
  rcases h.pending_of_mem hmem with hle | hwaits
  · omega
  · exact hpending hwaits

/-- Instructions that were emitted before stay as they are, apart from the jump that waits. -/
theorem code_eq {i : Nat} (h : Emits d body d') (hi : i < d.here) (hpending : i ∉ d.pending) :
    d'.code[i]? = d.code[i]? := by
  induction h with
  | nil => rfl
  | call _ _ ih | assign _ _ ih | declare _ _ _ ih =>
    rw [ih (by simp; omega) hpending, Draft.code_emit_of_lt (by simp; omega)]
    exact Draft.code_extend_of_lt hi
  | suspend _ ih => rw [ih (by simp; omega) hpending, Draft.code_emit_of_lt hi]
  | leave _ ih =>
    have hne : i ∉ (Draft.leave _).pending := fun heq => Nat.ne_of_gt hi (Option.some.inj heq)
    rw [ih (by simp; omega) hne]
    exact Draft.code_emit_of_lt hi
  | cond _ within _ ihWithin ih =>
    have hhere := within.here_within
    rw [ih (by simp; omega) (within.notMem_pending (by simp; omega) hpending),
      Draft.code_aim_of_ne (by omega), ihWithin (by simp; omega) hpending,
      Draft.code_emit_of_lt (by simp; omega), Draft.code_extend_of_lt hi]
  | loop _ within _ ihWithin ih =>
    have hhere := within.here_within
    rw [ih (by simp; omega) (by simp), Draft.code_endLoop_of_notMem,
      Draft.code_aim_of_ne (by omega), Draft.code_emit_of_lt (by omega),
      ihWithin (by simp; omega) hpending, Draft.code_emit_of_lt (by simp; omega),
      Draft.code_extend_of_lt hi]
    exact within.notMem_pending (by simp; omega) hpending

section

variable {d₁ : Draft} {inner : List Stmt} {names : List String} {condition : Expr}

/-- The jump behind a condition never waits, since it was emitted before the body. -/
theorem exit_notMem_pending (h : Emits ((d.extend (condition.code names)).emit .branch) inner d₁)
    (hw : d.Waiting) : d.here + condition.size ∉ d₁.pending := by
  refine h.notMem_pending (by simp) fun hmem => ?_
  have hlt := hw.lt_here hmem
  omega

/-- The jump behind a condition has no target before it is aimed. -/
theorem code_exit (h : Emits ((d.extend (condition.code names)).emit .branch) inner d₁)
    (hw : d.Waiting) : d₁.code[d.here + condition.size]? = some { op := .branch } := by
  have hexit : d.here + condition.size = (d.extend (condition.code names)).here := by simp
  have hpending : d.here + condition.size ∉ d.pending := fun hmem => by
    have hlt := hw.lt_here hmem
    omega
  rw [h.code_eq (by simp) hpending, hexit, Draft.code_emit_here]

end

/-- After every statement, the jump that waits is there and has no target yet. -/
theorem waiting (h : Emits d body d') (hw : d.Waiting) : d'.Waiting := by
  induction h with
  | nil => exact hw
  | call _ _ ih | assign _ _ ih => exact ih hw.extend.emit
  | declare _ _ _ ih => exact ih hw.extend.emit
  | cond _ within _ ihWithin ih =>
    exact ih ((ihWithin hw.extend.emit).aim (within.exit_notMem_pending hw))
  | loop _ _ _ _ ih => exact ih Draft.Waiting.endLoop
  | leave _ ih => exact ih Draft.Waiting.leave
  | suspend _ ih => exact ih hw.emit

/-- What may still change after some statements could change before them. -/
theorem opens {stays : Nat → Prop} (h : Emits d body d') (hopen : d.Open stays) :
    d'.Open stays where
  waits i hi := (h.pending_of_mem hi).elim (hopen.comes i) (hopen.waits i)
  comes i hi := hopen.comes i (by rw [h.here_eq] at hi; omega)

end Emits

/-- A program compiles to the function that the walk over it leads to. -/
theorem Program.compile_eq_ok {p : Program} {r : Registry} {f : Function} :
    p.compile r = .ok f ↔ ∃ d, Draft.block r p.statements {} = .ok d ∧ d.function = f := by
  unfold compile compilation
  cases Draft.block r p.statements {} with
  | error refusal => simp [Bind.bind, Except.bind]
  | ok d => simp [Bind.bind, Except.bind, pure, Except.pure]

/-- After a compilation, the compiler knows the names and the pending jump of the last draft. -/
theorem Compiler.block_of_compile {c c' : Compiler} {p : Program} {f : Function}
    (h : c.compile p = (.ok f, c')) : ∃ d, Draft.block c.registry p.statements {} = .ok d ∧
      d.function = f ∧ c'.names = d.names ∧ c'.pendingBreak = d.pending := by
  unfold compile at h
  split at h
  · cases h
  · next d hblock =>
    cases h
    exact ⟨d, hblock, rfl, rfl, rfl⟩

end FrameScript
