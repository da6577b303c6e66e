import FrameScript.Proofs.Compiler.Emission
import FrameScript.Proofs.Compiler.Places

/-!
# Where `break` statements lead

Every `break` of a tree has a jump in the compiled code, and a place in the tree: the innermost loop
around it, if there is one, and what the walk meets next before that loop ends. The place alone
decides the target of the jump. It is the end of the loop around the `break` unless another loop is
closed first.
-/

namespace FrameScript

/-- The code of a loop: where the condition starts, and the index behind the closing jump. -/
structure LoopSpan where
  start : Nat
  after : Nat
  deriving DecidableEq, Repr

/-- A `break` in a program. -/
structure BreakSite where
  /-- The index of its jump. -/
  index : Nat
  /-- The innermost loop around it. -/
  loop : Option LoopSpan
  /-- What comes next before that loop, or else the program, ends. -/
  next : Option Event
  deriving DecidableEq, Repr

/-- The target that the jump of a `break` gets. -/
def BreakSite.target? (site : BreakSite) : Option Nat :=
  match site.next with
  | some (.close after) => some after
  | some (.leave _) => none
  | none => site.loop.map (·.after)

namespace Stmt

mutual

/-- The `break` statements of a statement whose code starts at an index, given the loop around it
and the events behind it in that loop. -/
def breakSites (loop : Option LoopSpan) (later : List Event) (start : Nat) :
    Stmt → List BreakSite
  | .leave => [{ index := start, loop, next := later.head? }]
  | .cond condition body => bodyBreakSites loop later (start + condition.size + 1) body
  | .loop condition body =>
    let inner := start + condition.size + 1
    bodyBreakSites (some { start, after := inner + bodySize body + 1 }) [] inner body
  | .call _ _ | .assign _ _ | .declare _ _ | .suspend => []

/-- The `break` statements of several statements. -/
def bodyBreakSites (loop : Option LoopSpan) (later : List Event) (start : Nat) :
    List Stmt → List BreakSite
  | [] => []
  | s :: body =>
    s.breakSites loop (bodyEvents (start + s.size) body ++ later) start ++
      bodyBreakSites loop later (start + s.size) body

end

mutual

/-- Every jump of a `break` belongs to one of the `break` statements. -/
theorem exists_breakSite {index : Nat} : ∀ (s : Stmt) {span? : Option LoopSpan}
    {later : List Event} {start : Nat}, .leave index ∈ s.events start →
    ∃ site ∈ s.breakSites span? later start, site.index = index
  | .leave, _, _, _, h => by
    cases List.mem_singleton.mp h
    exact ⟨_, List.mem_singleton_self _, rfl⟩
  | .cond condition body, _, _, _, h => exists_bodyBreakSite body h
  | .loop condition body, _, _, _, h => by
    rcases List.mem_append.mp h with h | h
    · exact exists_bodyBreakSite body h
    · simp at h
  | .call _ _, _, _, _, h | .assign _ _, _, _, _, h | .declare _ _, _, _, _, h
  | .suspend, _, _, _, h => by simp [events] at h

/-- Every jump of a `break` among statements belongs to a `break` among or in them. -/
theorem exists_bodyBreakSite {index : Nat} : ∀ (body : List Stmt) {span? : Option LoopSpan}
    {later : List Event} {start : Nat}, .leave index ∈ bodyEvents start body →
    ∃ site ∈ bodyBreakSites span? later start body, site.index = index
  | [], _, _, _, h => by simp [bodyEvents] at h
  | s :: body, _, _, _, h => by
    rcases List.mem_append.mp h with h | h
    · obtain ⟨site, hsite, hindex⟩ := exists_breakSite s h
      exact ⟨site, List.mem_append_left _ hsite, hindex⟩
    · obtain ⟨site, hsite, hindex⟩ := exists_bodyBreakSite body h
      exact ⟨site, List.mem_append_right _ hsite, hindex⟩

end

end Stmt

/-- Code around the instructions from `first` to `last`: the loop that is closed when the events
behind them are over, and the end of every loop among these events. -/
structure Around (code : Array Instruction) (loop : Option LoopSpan) (later outer : List Event)
    (first last : Nat) : Prop where
  outer_eq : outer.head? = loop.map fun span => .close span.after
  inside : ∀ span ∈ loop, span.start ≤ first ∧ last < span.after
  closing : ∀ span ∈ loop, code[span.after - 1]? = some ⟨.goto, .jump span.start⟩
  close_lt : ∀ span ∈ loop, ∀ after, .close after ∈ later → after < span.after

/-- Code that agrees with the place of a `break`. -/
structure BreakSite.Placed (code : Array Instruction) (site : BreakSite) : Prop where
  jump : code[site.index]? = some ⟨.goto, site.target?.elim .absent .jump⟩
  inside : ∀ span ∈ site.loop, span.start ≤ site.index ∧ site.index < span.after
  closing : ∀ span ∈ site.loop, code[span.after - 1]? = some ⟨.goto, .jump span.start⟩
  close_lt : ∀ span ∈ site.loop, ∀ after, site.next = some (.close after) → after < span.after

namespace Around

variable {code : Array Instruction} {loop : Option LoopSpan} {later outer : List Event}
  {first middle last : Nat} {s : Stmt} {body : List Stmt}

/-- The operand behind a `break` comes from the events in its loop, or else from the end of it. -/
theorem aim_eq (h : Around code loop later outer first last) :
    Event.aim (later ++ outer) =
      (BreakSite.target? { index := first, loop, next := later.head? }).elim .absent .jump := by
  cases later with
  | nil =>
    have houter := h.outer_eq
    cases loop with
    | none =>
      obtain rfl := List.head?_eq_none_iff.mp houter
      rfl
    | some span =>
      obtain ⟨rest, rfl⟩ := List.head?_eq_some_iff.mp houter
      rfl
  | cons event later => cases event <;> rfl

/-- At the place of a `break`, settled code agrees with what the code around says of it. -/
theorem placed_leave (h : Around code loop later outer first last) (hlt : first < last)
    (hsettled : Settled code (.leave first :: (later ++ outer))) :
    BreakSite.Placed code { index := first, loop, next := later.head? } where
  jump := by
    rw [← h.aim_eq]
    exact hsettled.1
  inside span hspan := by
    have hinside := h.inside span hspan
    exact ⟨hinside.1, Nat.lt_trans hlt hinside.2⟩
  closing := h.closing
  close_lt span hspan after hafter := by
    refine h.close_lt span hspan after ?_
    obtain ⟨rest, hrest⟩ := List.head?_eq_some_iff.mp hafter
    rw [hrest]
    exact List.mem_cons_self

/-- For the first of several statements, the events of the others come later in the same loop. -/
theorem head (h : Around code loop later outer first (first + Stmt.bodySize (s :: body))) :
    Around code loop (Stmt.bodyEvents (first + s.size) body ++ later) outer first
      (first + s.size) where
  outer_eq := h.outer_eq
  inside span hspan := by
    have hinside := h.inside span hspan
    rw [Stmt.bodySize] at hinside
    omega
  closing := h.closing
  close_lt span hspan after hafter := by
    rcases List.mem_append.mp hafter with hafter | hafter
    · have hbounds := Stmt.bounds_of_mem_bodyEvents hafter
      have hinside := h.inside span hspan
      rw [Event.emittedAt] at hbounds
      rw [Stmt.bodySize] at hinside
      omega
    · exact h.close_lt span hspan after hafter

/-- What holds around some instructions holds around a part of them. -/
theorem narrow (h : Around code loop later outer first last) {first' last' : Nat}
    (hfirst : first ≤ first') (hlast : last' ≤ last) :
    Around code loop later outer first' last' where
  outer_eq := h.outer_eq
  inside span hspan := by
    have hinside := h.inside span hspan
    omega
  closing := h.closing
  close_lt := h.close_lt

end Around

mutual

/-- Every `break` of a statement that lies in settled code has the jump that its place calls for. -/
theorem Stmt.placed_of_mem_breakSites {code : Array Instruction} {names : List String}
    {aim : Nat → Operand} {site : BreakSite} :
    ∀ (s : Stmt) {span? : Option LoopSpan} {later outer : List Event} {start : Nat},
      CodeAt code start (s.code names aim start) →
      Settled code (s.events start ++ (later ++ outer)) →
      Around code span? later outer start (start + s.size) →
      site ∈ s.breakSites span? later start → site.Placed code
  | .leave, span?, later, outer, start, _, hsettled, haround, hsite => by
    rw [breakSites, List.mem_singleton] at hsite
    subst hsite
    exact haround.placed_leave (by simp [size]) hsettled
  | .cond condition body, span?, later, outer, start, hcode, hsettled, haround, hsite => by
    rw [Stmt.code, codeAt_append, codeAt_cons, Expr.length_code] at hcode
    refine Stmt.placed_of_mem_bodyBreakSites body hcode.2.2 hsettled
      (haround.narrow (by omega) ?_) hsite
    rw [size]
    omega
  | .loop condition body, span?, later, outer, start, hcode, hsettled, haround, hsite => by
    rw [Stmt.code, codeAt_append, codeAt_cons, Expr.length_code, codeAt_append, length_bodyCode,
      codeAt_cons] at hcode
    obtain ⟨-, -, hinner, hback, -⟩ := hcode
    let after := start + condition.size + 1 + bodySize body + 1
    have hsettled' : Settled code (bodyEvents (start + condition.size + 1) body ++
        ([] ++ .close after :: (later ++ outer))) := by
      rwa [events, List.append_assoc] at hsettled
    have haround' : Around code (some { start, after }) [] (.close after :: (later ++ outer))
        (start + condition.size + 1) (start + condition.size + 1 + bodySize body) := {
      outer_eq := rfl
      inside := by
        rintro _ ⟨⟩
        exact ⟨by dsimp only; omega, Nat.lt_succ_self _⟩
      closing := by
        rintro _ ⟨⟩
        exact hback
      close_lt := by simp }
    exact Stmt.placed_of_mem_bodyBreakSites body hinner hsettled' haround' hsite
  | .call _ _, _, _, _, _, _, _, _, hsite | .assign _ _, _, _, _, _, _, _, _, hsite
  | .declare _ _, _, _, _, _, _, _, _, hsite | .suspend, _, _, _, _, _, _, _, hsite => by
    simp [breakSites] at hsite

/-- Every `break` of statements that lie in settled code has the jump that its place calls for. -/
theorem Stmt.placed_of_mem_bodyBreakSites {code : Array Instruction} {names : List String}
    {aim : Nat → Operand} {site : BreakSite} :
    ∀ (body : List Stmt) {span? : Option LoopSpan} {later outer : List Event} {start : Nat},
      CodeAt code start (Stmt.bodyCode names aim start body) →
      Settled code (Stmt.bodyEvents start body ++ (later ++ outer)) →
      Around code span? later outer start (start + Stmt.bodySize body) →
      site ∈ Stmt.bodyBreakSites span? later start body → site.Placed code
  | [], _, _, _, _, _, _, _, hsite => by simp [bodyBreakSites] at hsite
  | s :: body, span?, later, outer, start, hcode, hsettled, haround, hsite => by
    rw [bodyCode, codeAt_append, length_code] at hcode
    rw [bodyEvents, List.append_assoc] at hsettled
    rcases List.mem_append.mp hsite with hsite | hsite
    · refine Stmt.placed_of_mem_breakSites s hcode.1 ?_ haround.head hsite
      rwa [List.append_assoc]
    · refine Stmt.placed_of_mem_bodyBreakSites body hcode.2 hsettled.of_append
        (haround.narrow (by omega) ?_) hsite
      rw [bodySize]
      omega

end

/-- All `break` statements of a program, in the order of their jumps. -/
def Program.breakSites (p : Program) : List BreakSite :=
  Stmt.bodyBreakSites none [] 0 p.statements

/-- The target of the jump at an index, if there is such a jump and it has a target. -/
def Function.targetAt? (f : Function) (index : Nat) : Option Nat :=
  f.instructions[index]?.bind Instruction.target?

/-- The unresolved jumps of a function are its jumps without a target. -/
theorem Function.mem_unresolvedJumps_iff {f : Function} {index : Nat} :
    index ∈ f.unresolvedJumps ↔
      ∃ i, f.instructions[index]? = some i ∧ i.isJump = true ∧ i.target? = none := by
  simp [unresolvedJumps, List.mem_zipIdx_iff_getElem?]

/-- In a compiled function, every `break` has the jump that its place calls for. -/
theorem Compiled.placed {p : Program} {names : List String} {f : Function}
    (h : Compiled p names f) {site : BreakSite} (hsite : site ∈ p.breakSites) :
    site.Placed f.instructions := by
  have hsettled : Settled f.instructions (Stmt.bodyEvents 0 p.statements ++ ([] ++ [])) := by
    rw [List.append_nil, List.append_nil]
    exact h.settled
  have haround : Around f.instructions none [] [] 0 (0 + Stmt.bodySize p.statements) :=
    ⟨rfl, by simp, by simp, by simp⟩
  exact Stmt.placed_of_mem_bodyBreakSites p.statements h.codeAt hsettled haround hsite

/-- The jump of a `break` has the target that its place gives it. -/
theorem BreakSite.Placed.targetAt?_eq {f : Function} {site : BreakSite}
    (h : site.Placed f.instructions) : f.targetAt? site.index = site.target? := by
  rw [Function.targetAt?, h.jump]
  cases site.target? <;> rfl

/-- The jump of a `break` leads out of the loop around it, if it leads anywhere. -/
def BreakSite.LeavesOwnLoop (f : Function) (site : BreakSite) : Prop :=
  ∀ target, f.targetAt? site.index = some target →
    ∃ span, site.loop = some span ∧ target = span.after

/-- The jump of a `break` stays with its own loop exactly if no other loop is closed first. -/
theorem BreakSite.Placed.leavesOwnLoop_iff {f : Function} {site : BreakSite}
    (h : site.Placed f.instructions) :
    site.LeavesOwnLoop f ↔ ∀ after, site.next ≠ some (.close after) := by
  constructor
  · intro hleaves after hnext
    have htarget : site.target? = some after := by rw [target?, hnext]
    obtain ⟨span, hspan, rfl⟩ := hleaves after (h.targetAt?_eq.trans htarget)
    have hlt := h.close_lt span hspan span.after hnext
    omega
  · intro hnext target htarget
    rw [h.targetAt?_eq, target?] at htarget
    cases hevent : site.next with
    | none =>
      rw [hevent] at htarget
      obtain ⟨span, hspan, rfl⟩ := Option.map_eq_some_iff.mp htarget
      exact ⟨span, hspan, rfl⟩
    | some event =>
      cases event with
      | leave index => simp [hevent] at htarget
      | close after => exact absurd hevent (hnext after)

/-- The jump of a `break` has a target unless another `break` follows before a loop ends, or no loop
ends at all. It leads out of the loop around the `break` except where another loop is closed
first, which then takes it. -/
theorem Program.leavesOwnLoop_iff_of_compile {p : Program} {r : Registry} {f : Function}
    (h : p.compile r = .ok f) {site : BreakSite} (hsite : site ∈ p.breakSites) :
    (f.instructions[site.index]?.map (·.op) = some .goto ∧
      f.targetAt? site.index = site.target?) ∧
    (∀ span ∈ site.loop, span.start ≤ site.index ∧ site.index < span.after ∧
      f.instructions[span.after - 1]? = some ⟨.goto, .jump span.start⟩) ∧
    (site.LeavesOwnLoop f ↔ ∀ after, site.next ≠ some (.close after)) := by
  obtain ⟨names, hcompiled⟩ := compiled_of_compile h
  have hplaced := hcompiled.placed hsite
  refine ⟨⟨by rw [hplaced.jump]; rfl, hplaced.targetAt?_eq⟩, fun span hspan => ?_,
    hplaced.leavesOwnLoop_iff⟩
  obtain ⟨hstart, hafter⟩ := hplaced.inside span hspan
  exact ⟨hstart, hafter, hplaced.closing span hspan⟩

/-- A loop whose body holds another loop and then leaves its own. -/
def Program.leaveAfterLoop : Program where
  statements := [.loop (.bool true) [.loop (.bool false) [], .leave]]

/-- A loop that has ended before takes no `break` away. -/
theorem Program.leavesOwnLoop_leaveAfterLoop :
    ∃ f, leaveAfterLoop.compile {} = .ok f ∧
      ∃ site ∈ leaveAfterLoop.breakSites, site.next = none ∧ site.LeavesOwnLoop f := by
  obtain ⟨f, hcompile⟩ : ∃ f, leaveAfterLoop.compile {} = .ok f := ⟨_, rfl⟩
  have hsite : { index := 5, loop := some { start := 0, after := 7 }, next := none } ∈
      leaveAfterLoop.breakSites := by decide
  obtain ⟨-, -, hiff⟩ := leavesOwnLoop_iff_of_compile hcompile hsite
  exact ⟨f, hcompile, _, hsite, rfl, hiff.mpr (by simp)⟩

/-- A loop whose body leaves it and then holds another loop. -/
def Program.leaveBeforeLoop : Program where
  statements := [.loop (.bool true) [.leave, .loop (.bool false) []]]

/-- The inner loop takes the jump of the `break` before it, which then stays inside the outer
loop. -/
theorem Program.not_leavesOwnLoop_leaveBeforeLoop :
    ¬ ∀ (p : Program) (r : Registry) (f : Function), p.compile r = .ok f →
      ∀ site ∈ p.breakSites, site.LeavesOwnLoop f := by
  intro hall
  obtain ⟨f, hcompile, htarget⟩ :
      ∃ f, leaveBeforeLoop.compile {} = .ok f ∧ f.targetAt? 2 = some 6 := ⟨_, rfl, by decide⟩
  have hsite : { index := 2, loop := some { start := 0, after := 7 }, next := some (.close 6) } ∈
      leaveBeforeLoop.breakSites := by decide
  obtain ⟨span, hspan, hafter⟩ := hall _ {} f hcompile _ hsite 6 htarget
  cases hspan
  exact absurd hafter (by decide)

end FrameScript
