import FrameScript.Proofs.Compiler.Breaks
import FrameScript.Proofs.Compiler.Uninterrupted
import FrameScript.Proofs.Machine.Protocol

/-!
# Cooperative programs

A loop may run forever, but it need not keep the host waiting. If every loop has a `yield` among the
statements of its body, and every `break` leaves its own loop, then no call carries out an
instruction twice: one that goes back to the start of a loop stops at its `yield` before it can come
to where it was. Every call therefore ends within as many steps as the function has instructions.
-/

namespace FrameScript

/-! ### Cooperative trees -/

namespace Stmt

mutual

/-- Whether a loop starts in a statement. -/
def hasLoop : Stmt → Bool
  | .loop _ _ => true
  | .cond _ body => bodyHasLoop body
  | .call _ _ | .assign _ _ | .declare _ _ | .leave | .suspend => false

/-- Whether a loop starts in several statements. -/
def bodyHasLoop : List Stmt → Bool
  | [] => false
  | s :: body => s.hasLoop || bodyHasLoop body

end

mutual

/-- Whether no loop starts behind a `break` of a statement before the innermost loop around the
`break` ends, or else the program. A loop may start behind the statement itself. -/
def calm (loopAfter : Bool) : Stmt → Bool
  | .leave => !loopAfter
  | .cond _ body => bodyCalm loopAfter body
  | .loop _ body => bodyCalm false body
  | .call _ _ | .assign _ _ | .declare _ _ | .suspend => true

/-- The same for several statements. -/
def bodyCalm (loopAfter : Bool) : List Stmt → Bool
  | [] => true
  | s :: body => s.calm (bodyHasLoop body || loopAfter) && bodyCalm loopAfter body

end

/-- Whether a statement is a `yield`. -/
def suspends : Stmt → Bool
  | .suspend => true
  | _ => false

mutual

/-- Whether the body of every loop of a statement has a `yield` among its own statements. -/
def pausing : Stmt → Bool
  | .cond _ body => bodyPausing body
  | .loop _ body => body.any suspends && bodyPausing body
  | .call _ _ | .assign _ _ | .declare _ _ | .leave | .suspend => true

/-- The same for several statements. -/
def bodyPausing : List Stmt → Bool
  | [] => true
  | s :: body => s.pausing && bodyPausing body

end

/-- Only a `yield` suspends by itself. -/
theorem eq_suspend {s : Stmt} (h : s.suspends = true) : s = .suspend := by
  cases s with
  | suspend => rfl
  | _ => cases h

end Stmt

/-- Whether the body of every loop has a `yield` among its own statements, and no loop starts behind
a `break` before the innermost loop around the `break` ends, or else the program. -/
def Program.cooperative (p : Program) : Bool :=
  Stmt.bodyPausing p.statements && Stmt.bodyCalm false p.statements

namespace Stmt

mutual

/-- A statement in which a loop is closed contains a loop. -/
theorem hasLoop_of_mem_events {after : Nat} :
    ∀ (s : Stmt) {start : Nat}, .close after ∈ s.events start → s.hasLoop = true
  | .loop _ _, _, _ => rfl
  | .cond _ body, _, h => bodyHasLoop_of_mem_bodyEvents body h
  | .leave, _, h => by simp [events] at h
  | .call _ _, _, h | .assign _ _, _, h | .declare _ _, _, h | .suspend, _, h => by
    simp [events] at h

/-- Statements in which a loop is closed contain a loop. -/
theorem bodyHasLoop_of_mem_bodyEvents {after : Nat} : ∀ (body : List Stmt) {start : Nat},
    .close after ∈ bodyEvents start body → bodyHasLoop body = true
  | [], _, h => by simp [bodyEvents] at h
  | s :: body, start, h => by
    rw [bodyHasLoop, Bool.or_eq_true]
    rcases List.mem_append.mp h with h | h
    · exact .inl (hasLoop_of_mem_events s h)
    · exact .inr (bodyHasLoop_of_mem_bodyEvents body h)

end

mutual

/-- No other loop takes the jump of a `break` in a statement if none starts behind it. -/
theorem next_ne_close_of_calm {site : BreakSite} {after : Nat} : ∀ (s : Stmt) {loopAfter : Bool}
    {span? : Option LoopSpan} {later : List Event} {start : Nat}, s.calm loopAfter = true →
    (∀ after, .close after ∈ later → loopAfter = true) →
    site ∈ s.breakSites span? later start → site.next ≠ some (.close after)
  | .leave, loopAfter, span?, later, start, hcalm, hlater, hsite => by
    intro hnext
    cases List.mem_singleton.mp hsite
    rw [hlater after (List.mem_of_head? hnext)] at hcalm
    cases hcalm
  | .cond _ body, _, _, _, _, hcalm, hlater, hsite =>
    next_ne_close_of_bodyCalm body hcalm hlater hsite
  | .loop _ body, _, _, _, _, hcalm, _, hsite =>
    next_ne_close_of_bodyCalm body hcalm (by simp) hsite
  | .call _ _, _, _, _, _, _, _, hsite | .assign _ _, _, _, _, _, _, _, hsite
  | .declare _ _, _, _, _, _, _, _, hsite | .suspend, _, _, _, _, _, _, hsite => by
    simp [breakSites] at hsite

/-- No other loop takes the jump of a `break` if none starts behind it. -/
theorem next_ne_close_of_bodyCalm {site : BreakSite} {after : Nat} : ∀ (body : List Stmt)
    {loopAfter : Bool} {span? : Option LoopSpan} {later : List Event} {start : Nat},
    bodyCalm loopAfter body = true → (∀ after, .close after ∈ later → loopAfter = true) →
    site ∈ bodyBreakSites span? later start body → site.next ≠ some (.close after)
  | [], _, _, _, _, _, _, hsite => by simp [bodyBreakSites] at hsite
  | s :: body, loopAfter, span?, later, start, hcalm, hlater, hsite => by
    rw [bodyCalm, Bool.and_eq_true] at hcalm
    obtain ⟨hfirst, hrest⟩ := hcalm
    rcases List.mem_append.mp hsite with hsite | hsite
    · refine next_ne_close_of_calm s hfirst (fun after hafter => ?_) hsite
      rw [Bool.or_eq_true]
      exact (List.mem_append.mp hafter).imp (bodyHasLoop_of_mem_bodyEvents body) (hlater after)
    · exact next_ne_close_of_bodyCalm body hrest hlater hsite

end

end Stmt

/-! ### Calls that return -/

/-- A plain instruction leads only to the next one. -/
theorem Instruction.Plain.eq_of_mem_successors {i : Instruction} (h : i.Plain) {index next : Nat}
    (hnext : next ∈ i.successors index) : next = index + 1 := by
  have htarget : i.target? = none := by
    unfold target?
    split
    · next target hoperand => exact absurd hoperand (h.2 target)
    · rfl
  apply List.mem_singleton.mp
  unfold successors at hnext
  rw [htarget] at hnext
  split at hnext
  · cases hnext
  · cases hnext
  · cases hnext
  · exact hnext
  · exact hnext

namespace Function

variable {f : Function} {b c index start size size' : Nat}

/-- A call that comes to an index ends within a number of steps, whatever the machine and the
builtins. -/
def ReturnsWithin (f : Function) (bound index : Nat) : Prop :=
  ∀ (r : Registry) (m : Machine), m.function = f → m.ip = index →
    ∃ stop, Machine.execute r bound m = some stop

/-- A call that comes to a part of the code, or behind it, ends within a number of steps and one for
each instruction of the part. -/
def PartReturns (f : Function) (bound start size : Nat) : Prop :=
  ∀ index, start ≤ index → index ≤ start + size → f.ReturnsWithin (bound + size) index

/-- A call that ends within some steps ends within more. -/
theorem ReturnsWithin.mono (h : f.ReturnsWithin b index) (hle : b ≤ c) :
    f.ReturnsWithin c index := by
  intro r m hf hip
  obtain ⟨stop, hstop⟩ := h r m hf hip
  exact ⟨stop, Machine.execute_mono hstop hle⟩

/-- An instruction takes one step, and then the call is where the instruction leads. -/
theorem returnsWithin_of_successors {i : Instruction} (hi : f.instructions[index]? = some i)
    (h : ∀ next ∈ i.successors index, f.ReturnsWithin b next) : f.ReturnsWithin (b + 1) index := by
  rintro r m rfl rfl
  rw [Machine.execute]
  cases hstep : m.step r with
  | stop m' | abort m' fault => exact ⟨_, rfl⟩
  | next m' =>
    obtain ⟨j, hj, hcontinues⟩ := Machine.continues_of_step hstep
    rw [hi] at hj
    obtain rfl := Option.some.inj hj
    exact h m'.ip hcontinues.ip_mem r m' hcontinues.function_eq rfl

/-- A call that comes to the end of the code aborts at once. -/
theorem returnsWithin_pastEnd (h : f.instructions.size ≤ index) :
    f.ReturnsWithin (b + 1) index := by
  rintro r m rfl rfl
  rw [Machine.execute, Machine.step, Array.getElem?_eq_none h]
  exact ⟨_, rfl⟩

/-- A call that comes to a suspension ends there. -/
theorem returnsWithin_suspend {i : Instruction} (hi : f.instructions[index]? = some i)
    (hop : i.op = .suspend) : f.ReturnsWithin (b + 1) index :=
  returnsWithin_of_successors hi fun next hnext => by simp [Instruction.successors, hop] at hnext

/-- A call that comes to a jump returns one step later than from the target. -/
theorem returnsWithin_goto {target : Nat}
    (hi : f.instructions[index]? = some ⟨.goto, .jump target⟩)
    (htarget : f.ReturnsWithin b target) : f.ReturnsWithin (b + 1) index :=
  returnsWithin_of_successors hi fun next hnext => by
    cases List.mem_singleton.mp hnext
    exact htarget

/-- Calls return from the start of a part within its size and the steps behind it. -/
theorem PartReturns.first (h : f.PartReturns b start size) : f.ReturnsWithin (b + size) start :=
  h start (Nat.le_refl _) (Nat.le_add_right _ _)

/-- The part without instructions is what lies behind it. -/
theorem ReturnsWithin.partReturns (h : f.ReturnsWithin b start) : f.PartReturns b start 0 := by
  intro index hfirst hlast
  obtain rfl := Nat.le_antisymm hlast hfirst
  exact h

/-- Calls return from two parts in a row if they return from the second with its steps to spare. -/
theorem PartReturns.append (h : f.PartReturns (b + size') start size)
    (h' : f.PartReturns b (start + size) size') : f.PartReturns b start (size + size') := by
  intro index hfirst hlast
  by_cases hle : index ≤ start + size
  · exact (h index hfirst hle).mono (by omega)
  · exact (h' index (by omega) (by omega)).mono (by omega)

/-- Calls return from an instruction and the part behind it if they return from wherever it leads.
-/
theorem PartReturns.cons {i : Instruction} (hi : f.instructions[start]? = some i)
    (hnext : ∀ next ∈ i.successors start, f.ReturnsWithin (b + size) next)
    (hrest : f.PartReturns b (start + 1) size) : f.PartReturns b start (size + 1) := by
  intro index hfirst hlast
  rcases Nat.eq_or_lt_of_le hfirst with rfl | hlt
  · exact returnsWithin_of_successors hi hnext
  · exact (hrest index hlt (by omega)).mono (by omega)

/-- Instructions that do not jump lead to each other and then behind the last one. -/
theorem partReturns_of_plain {part : List Instruction} (hcode : CodeAt f.instructions start part)
    (hplain : ∀ i ∈ part, i.Plain) (hend : f.ReturnsWithin b (start + part.length)) :
    f.PartReturns b start part.length := by
  induction part generalizing start with
  | nil => exact hend.partReturns
  | cons i part ih =>
    obtain ⟨hi, hcode⟩ := codeAt_cons.mp hcode
    obtain ⟨hplain, hplains⟩ := List.forall_mem_cons.mp hplain
    rw [List.length_cons, Nat.add_comm part.length, ← Nat.add_assoc] at hend
    have hrest := ih hcode hplains hend
    refine .cons hi (fun next hnext => ?_) hrest
    rw [hplain.eq_of_mem_successors hnext]
    exact hrest.first

/-- A condition and the jump behind it lead to what follows or to the target of the jump. -/
theorem partReturns_test {names : List String} {condition : Expr} {target : Nat}
    (hcondition : CodeAt f.instructions start (condition.code names))
    (hbranch : f.instructions[start + condition.size]? = some ⟨.branch, .jump target⟩)
    (hnext : f.ReturnsWithin b (start + condition.size + 1)) (htarget : f.ReturnsWithin b target) :
    f.PartReturns b start (condition.size + 1) := by
  have hjump : f.PartReturns b (start + condition.size) 1 := by
    refine .cons hbranch (fun next hmem => ?_) hnext.partReturns
    rcases List.mem_cons.mp hmem with rfl | hmem
    · exact hnext
    · cases List.mem_singleton.mp hmem
      exact htarget
  have hlength := Expr.length_code names condition
  have hfirst := partReturns_of_plain hcondition (Expr.plain_code names condition)
    (hlength ▸ hjump.first)
  rw [hlength] at hfirst
  exact hfirst.append hjump

end Function

/-! ### Calls in the code of a tree -/

section

variable {f : Function} {names : List String} {aim : Nat → Operand} {span? : Option LoopSpan}
  {later : List Event} {start b : Nat} {body : List Stmt}

/-- A statement whose code lies in a function, where every loop pauses and every `break` leaves the
loop that it is in. -/
structure Stmt.Cooperates (f : Function) (names : List String) (aim : Nat → Operand)
    (span? : Option LoopSpan) (later : List Event) (start : Nat) (s : Stmt) : Prop where
  code : CodeAt f.instructions start (s.code names aim start)
  leaves : ∀ site ∈ s.breakSites span? later start, site.LeavesOwnLoop f
  pausing : s.pausing = true

/-- The same for several statements. -/
structure Stmt.BodyCooperates (f : Function) (names : List String) (aim : Nat → Operand)
    (span? : Option LoopSpan) (later : List Event) (start : Nat) (body : List Stmt) : Prop where
  code : CodeAt f.instructions start (bodyCode names aim start body)
  leaves : ∀ site ∈ bodyBreakSites span? later start body, site.LeavesOwnLoop f
  pausing : bodyPausing body = true

namespace Stmt

/-- If calls return behind a statement and behind the loop around it, then they do so from
everywhere in the statement, and no instruction of it takes more than one step. -/
def Returns (f : Function) (s : Stmt) : Prop :=
  ∀ {names : List String} {aim : Nat → Operand} {span? : Option LoopSpan} {later : List Event}
    {start b : Nat}, s.Cooperates f names aim span? later start →
    (∀ span ∈ span?, f.ReturnsWithin b span.after) → f.ReturnsWithin b (start + s.size) →
    f.PartReturns b start s.size

/-- Statements that cooperate do so as the first of them and the others. -/
theorem BodyCooperates.cons {s : Stmt}
    (h : BodyCooperates f names aim span? later start (s :: body)) :
    s.Cooperates f names aim span? (bodyEvents (start + s.size) body ++ later) start ∧
      BodyCooperates f names aim span? later (start + s.size) body := by
  obtain ⟨hcode, hleaves, hpausing⟩ := h
  rw [bodyCode, codeAt_append, length_code] at hcode
  rw [bodyPausing, Bool.and_eq_true] at hpausing
  exact ⟨⟨hcode.1, fun site hsite => hleaves site (List.mem_append_left _ hsite), hpausing.1⟩,
    hcode.2, fun site hsite => hleaves site (List.mem_append_right _ hsite), hpausing.2⟩

/-- Calls return from statements each of which returns, if they return from behind them and from
behind the loop around them. -/
theorem bodyReturns (hall : ∀ s ∈ body, s.Returns f)
    (h : BodyCooperates f names aim span? later start body)
    (hexit : ∀ span ∈ span?, f.ReturnsWithin b span.after)
    (hend : f.ReturnsWithin b (start + bodySize body)) :
    f.PartReturns b start (bodySize body) := by
  induction body generalizing start with
  | nil => exact hend.partReturns
  | cons s body ih =>
    obtain ⟨hs, hbody⟩ := h.cons
    obtain ⟨hreturns, hall⟩ := List.forall_mem_cons.mp hall
    rw [bodySize, ← Nat.add_assoc] at hend
    have hrest := ih hall hbody hend
    have hfirst := hreturns hs (fun span hspan => (hexit span hspan).mono (Nat.le_add_right _ _))
      hrest.first
    exact hfirst.append hrest

/-- Statements up to the first `yield` among them and those behind it. Calls return from the former
whatever is behind the statements, and from the latter if they return from there. -/
structure Pause (f : Function) (b start size before after : Nat) : Prop where
  sizes : before + after = size
  pos : 0 < before
  returns : ∀ index, start ≤ index → index < start + before → f.ReturnsWithin (b + before) index
  rest : ∀ c, b ≤ c → f.ReturnsWithin c (start + size) → f.PartReturns c (start + before) after

/-- Statements with a `yield` among them divide at the first one. -/
theorem exists_pause (hall : ∀ s ∈ body, s.Returns f)
    (h : BodyCooperates f names aim span? later start body) (hpause : body.any suspends = true)
    (hexit : ∀ span ∈ span?, f.ReturnsWithin b span.after) :
    ∃ before after, Pause f b start (bodySize body) before after := by
  induction body generalizing start with
  | nil => cases hpause
  | cons s body ih =>
    obtain ⟨hs, hbody⟩ := h.cons
    obtain ⟨hreturns, hrests⟩ := List.forall_mem_cons.mp hall
    by_cases hsuspend : s.suspends = true
    · obtain rfl := eq_suspend hsuspend
      have hi : f.instructions[start]? = some ⟨.suspend, .absent⟩ := (codeAt_cons.mp hs.code).1
      refine ⟨1, bodySize body, rfl, Nat.one_pos, fun index hfirst hlt => ?_, fun c hc hend => ?_⟩
      · obtain rfl := Nat.le_antisymm (Nat.le_of_lt_succ hlt) hfirst
        exact Function.returnsWithin_suspend hi rfl
      · rw [bodySize, ← Nat.add_assoc] at hend
        exact bodyReturns hrests hbody (fun span hspan => (hexit span hspan).mono hc) hend
    · -- the pause is behind this statement, which returns because what follows up to there does
      have hlater : body.any suspends = true := by
        rw [List.any_cons, Bool.or_eq_true] at hpause
        exact hpause.resolve_left hsuspend
      obtain ⟨before, after, hsizes, hpos, hbefore, hrest⟩ := ih hrests hbody hlater
      have hfirst := hreturns hs (fun span hspan => (hexit span hspan).mono (Nat.le_add_right _ _))
        (hbefore (start + s.size) (Nat.le_refl _) (by omega))
      refine ⟨s.size + before, after, ?_, by omega, fun index hstart hlt => ?_, fun c hc hend => ?_⟩
      · rw [bodySize, ← hsizes, Nat.add_assoc]
      · by_cases hle : index ≤ start + s.size
        · exact (hfirst index hstart hle).mono (by omega)
        · exact (hbefore index (by omega) (by omega)).mono (by omega)
      · rw [bodySize, ← Nat.add_assoc] at hend
        rw [← Nat.add_assoc]
        exact hrest c hc hend

/-- A conditional returns if the statements in it do. -/
theorem returns_cond {condition : Expr} (hall : ∀ s ∈ body, s.Returns f) :
    (Stmt.cond condition body).Returns f := by
  intro names aim span? later start b h hexit hend
  have hcode := h.code
  rw [code, codeAt_append, codeAt_cons, Expr.length_code] at hcode
  obtain ⟨htest, hbranch, hinner⟩ := hcode
  rw [size, ← Nat.add_assoc, ← Nat.add_assoc] at hend
  have hbody := bodyReturns hall ⟨hinner, h.leaves, h.pausing⟩ hexit hend
  rw [size]
  refine .append ?_ hbody
  exact Function.partReturns_test htest hbranch hbody.first (hend.mono (Nat.le_add_right _ _))

/-- Every call that comes to a loop returns if those behind it do. The body up to its `yield` is
left at the `yield` or behind the loop, so a call that goes back to the condition returns as well.
The rest of the body then leads to such a call. -/
theorem returns_loop {condition : Expr} (hall : ∀ s ∈ body, s.Returns f) :
    (Stmt.loop condition body).Returns f := by
  intro names aim span? later start b h _ hend
  have hcode := h.code
  rw [code, codeAt_append, codeAt_cons, codeAt_append, codeAt_cons, Expr.length_code,
    length_bodyCode] at hcode
  obtain ⟨htest, hbranch, hinner, hback, -⟩ := hcode
  have hpausing := h.pausing
  rw [pausing, Bool.and_eq_true] at hpausing
  rw [size, ← Nat.add_assoc, ← Nat.add_assoc, ← Nat.add_assoc] at hend
  have hbody : BodyCooperates f names aim
      (some { start, after := start + condition.size + 1 + bodySize body + 1 }) []
      (start + condition.size + 1) body := ⟨hinner, h.leaves, hpausing.2⟩
  obtain ⟨before, after, hsizes, hpos, hbefore, hrest⟩ :=
    exists_pause hall hbody hpausing.1 (by rintro _ ⟨⟩; exact hend)
  have hstart := hbefore (start + condition.size + 1) (Nat.le_refl _) (by omega)
  have hagain := Function.partReturns_test htest hbranch hstart (hend.mono (Nat.le_add_right _ _))
  have hlast := hrest (b + before + (condition.size + 1) + 1) (by omega)
    (Function.returnsWithin_goto hback hagain.first)
  rw [size]
  intro index hfirst hle
  -- the condition, the body up to its pause, the rest of the body, and what is behind the loop
  by_cases hcondition : index ≤ start + (condition.size + 1)
  · exact (hagain index hfirst hcondition).mono (by omega)
  by_cases hpause : index < start + condition.size + 1 + before
  · exact (hbefore index (by omega) hpause).mono (by omega)
  by_cases hbody : index ≤ start + condition.size + 1 + bodySize body
  · exact (hlast index (by omega) (by omega)).mono (by omega)
  · obtain rfl : index = start + condition.size + 1 + bodySize body + 1 := by omega
    exact hend.mono (Nat.le_add_right _ _)

/-- A `break` returns if calls return from behind its loop. -/
theorem returns_leave : Stmt.leave.Returns f := by
  intro names aim span? later start b h hexit hend
  have hi : f.instructions[start]? = some ⟨.goto, aim start⟩ := (codeAt_cons.mp h.code).1
  have hleaves := h.leaves _ (List.mem_singleton_self _)
  refine .cons hi (fun next hnext => ?_) hend.partReturns
  have htarget : f.targetAt? start = some next := by
    rw [Function.targetAt?, hi]
    exact Option.mem_toList.mp hnext
  obtain ⟨span, hspan, rfl⟩ := hleaves next htarget
  exact hexit span hspan

/-- A `yield` returns at once. -/
theorem returns_suspend : Stmt.suspend.Returns f := by
  intro names aim span? later start b h _ hend
  have hi : f.instructions[start]? = some ⟨.suspend, .absent⟩ := (codeAt_cons.mp h.code).1
  exact .cons hi (fun next hnext => by cases hnext) hend.partReturns

/-- A statement without instructions that jump or suspend. -/
theorem returns_plain {s : Stmt}
    (hplain : ∀ names aim start, ∀ i ∈ s.code names aim start, i.Plain) : s.Returns f := by
  intro names aim span? later start b h _ hend
  have hlength := length_code names aim start s
  have hpart := Function.partReturns_of_plain h.code (hplain names aim start) (hlength ▸ hend)
  rwa [hlength] at hpart

mutual

/-- Every statement returns if what is behind it and behind its loop does. -/
theorem returns : ∀ s : Stmt, s.Returns f
  | .call _ args => returns_plain fun names aim start => by
    rw [code]
    exact List.forall_mem_append.mpr ⟨Expr.plain_listCode names args,
      List.forall_mem_singleton.mpr ⟨by simp, by simp⟩⟩
  | .assign _ e | .declare _ e => returns_plain fun names aim start => by
    rw [code]
    exact List.forall_mem_append.mpr ⟨Expr.plain_code names e,
      List.forall_mem_singleton.mpr ⟨by simp, by simp⟩⟩
  | .cond _ body => returns_cond (forall_returns body)
  | .loop _ body => returns_loop (forall_returns body)
  | .leave => returns_leave
  | .suspend => returns_suspend

/-- Each of several statements returns. -/
theorem forall_returns : ∀ body : List Stmt, ∀ s ∈ body, s.Returns f
  | [] => by simp
  | s :: body => List.forall_mem_cons.mpr ⟨returns s, forall_returns body⟩

end

end Stmt

end

/-! ### Runs of cooperative programs -/

/-- In the code of a cooperative program, no call carries out more instructions than there are. -/
theorem Compiled.returnsWithin {p : Program} {names : List String} {f : Function}
    (h : Compiled p names f) (hcooperative : p.cooperative = true) (index : Nat) :
    f.ReturnsWithin f.instructions.size index := by
  rw [Program.cooperative, Bool.and_eq_true] at hcooperative
  obtain ⟨hpausing, hcalm⟩ := hcooperative
  have hleaves : ∀ site ∈ Stmt.bodyBreakSites none [] 0 p.statements, site.LeavesOwnLoop f := by
    intro site hsite
    apply (h.placed hsite).leavesOwnLoop_iff.mpr
    intro after
    exact Stmt.next_ne_close_of_bodyCalm p.statements hcalm (by simp) hsite
  have hfinish : f.ReturnsWithin 1 (0 + Stmt.bodySize p.statements) := by
    rw [Nat.zero_add]
    exact Function.returnsWithin_of_successors h.finish_at fun next hnext => by cases hnext
  have hparts := Stmt.bodyReturns (fun s _ => Stmt.returns s) ⟨h.codeAt, hleaves, hpausing⟩
    (by simp) hfinish
  by_cases hindex : index ≤ Stmt.bodySize p.statements
  · have hreturns := hparts index (Nat.zero_le index) (by omega)
    rwa [Nat.add_comm, ← h.size_eq] at hreturns
  · rw [h.size_eq]
    apply Function.returnsWithin_pastEnd
    rw [h.size_eq]
    omega

namespace Machine

variable {r : Registry} {f : Function} {m m' m₀ : Machine} {stop : Stop} {fuel n : Nat}

/-- Steps do not change the function. -/
theorem Steps.function_eq (h : Steps r n m m') : m'.function = m.function := by
  induction h with
  | refl => rfl
  | step first _ ih =>
    obtain ⟨i, -, hcontinues⟩ := continues_of_step first
    exact ih.trans hcontinues.function_eq

/-- A machine with nothing left to do, or in the middle of a function. -/
def Loaded (f : Function) (m : Machine) : Prop :=
  m.status = .finished ∨ m.function = f

/-- A call that ends leaves the machine finished or in its function. -/
theorem EndsAs.loaded (h : EndsAs m stop) (hm : m.function = f) : stop.2.Loaded f := by
  cases h with
  | suspended => exact .inr hm
  | finished => exact .inl rfl
  | aborted status_eq => exact .inl status_eq

/-- After a first call the machine is finished or in the function that it was given. -/
theorem loaded_of_run (h : m.run r fuel f = some stop) : stop.2.Loaded f := by
  have hanswer : m.answer r fuel (.run f) = some stop := h
  cases answersAs_of_answer hanswer with
  | runs _ steps ends => exact ends.loaded steps.function_eq

/-- After a resumed call the machine is finished or in the same function. -/
theorem Loaded.of_resume (hm : m.Loaded f) (h : m.resume r fuel = some stop) :
    stop.2.Loaded f := by
  rcases hm with hfinished | hfunction
  · rw [resume_of_rests (.inr hfinished)] at h
    cases h
    exact .inl hfinished
  · have hanswer : m.answer r fuel .resume = some stop := h
    cases answersAs_of_answer hanswer with
    | rests => exact .inr hfunction
    | runs _ steps ends => exact ends.loaded (steps.function_eq.trans hfunction)

/-- A machine in a function can be resumed if calls return from everywhere in it. -/
theorem Loaded.exists_resume (hm : m.Loaded f) {b : Nat} (h : ∀ index, f.ReturnsWithin b index) :
    ∃ stop, m.resume r b = some stop := by
  rcases hm with hfinished | hfunction
  · exact ⟨_, resume_of_rests (.inr hfinished) b⟩
  · unfold resume
    split
    · exact ⟨_, rfl⟩
    · exact ⟨_, rfl⟩
    · exact h m.ip r _ hfunction rfl
    · exact h m.ip r _ hfunction rfl

end Machine

/-- Every call of a run of a cooperative program returns within as many steps as the program has
instructions. -/
theorem Compiled.exists_nthStop? {p : Program} {names : List String} {f : Function}
    (h : Compiled p names f) (hcooperative : p.cooperative = true) (r : Registry) (m₀ : Machine)
    (n : Nat) : ∃ stop, m₀.nthStop? r f.instructions.size f n = some stop ∧ stop.2.Loaded f := by
  have hreturns := h.returnsWithin hcooperative
  induction n with
  | zero =>
    obtain ⟨stop, hstop⟩ := hreturns 0 r (m₀.load f) rfl rfl
    exact ⟨stop, hstop, Machine.loaded_of_run hstop⟩
  | succ n ih =>
    obtain ⟨before, hbefore, hloaded⟩ := ih
    obtain ⟨stop, hstop⟩ := hloaded.exists_resume (r := r) hreturns
    exact ⟨stop, (Machine.nthStop?_succ hbefore).trans hstop, hloaded.of_resume hstop⟩

/-- Every call of a run of a cooperative program returns, with whatever builtins and whatever the
values of its conditions, and carries out no more instructions than the program has. So does a call
that resumes a machine anywhere in the program, whatever was done to it in the meantime. -/
theorem Program.returns_of_cooperative {p : Program} {r₁ : Registry} {f : Function}
    (h : p.compile r₁ = .ok f) (hcooperative : p.cooperative = true) (r : Registry) (m : Machine) :
    (∀ n, ∃ stop, m.nthStop? r f.instructions.size f n = some stop) ∧
      (m.function = f → ∃ stop, m.resume r f.instructions.size = some stop) := by
  obtain ⟨names, hcompiled⟩ := compiled_of_compile h
  constructor
  · intro n
    obtain ⟨stop, hstop, -⟩ := hcompiled.exists_nthStop? hcooperative r m n
    exact ⟨stop, hstop⟩
  · intro hfunction
    have hloaded : m.Loaded f := .inr hfunction
    exact hloaded.exists_resume (hcompiled.returnsWithin hcooperative)

/-- A program that beats in a loop, and in another one inside it, until a condition fails. -/
def Program.heartbeat : Program where
  statements := [.declare "x" (.number 0), .loop (.bool true)
    [.loop (.binary (.variable "x") .less (.number 3)) [.suspend], .suspend,
      .cond (.binary (.variable "x") .greater (.number 3)) [.leave]]]

/-- Every beat returns within the size of the program, and so does a call that starts in the middle.
-/
theorem Program.returns_heartbeat :
    ∃ f, heartbeat.compile .standard = .ok f ∧ heartbeat.cooperative = true ∧
      ∀ r, (∀ n, ∃ stop, ({} : Machine).nthStop? r f.instructions.size f n = some stop) ∧
        ∃ stop, Machine.resume { function := f, ip := 5, status := .suspended } r
          f.instructions.size = some stop := by
  obtain ⟨f, hcompile⟩ : ∃ f, heartbeat.compile .standard = .ok f := ⟨_, rfl⟩
  have hcooperative : heartbeat.cooperative = true := by decide
  refine ⟨f, hcompile, hcooperative, fun r => ⟨?_, ?_⟩⟩
  · exact (returns_of_cooperative hcompile hcooperative r {}).1
  · exact (returns_of_cooperative hcompile hcooperative r _).2 rfl

end FrameScript
