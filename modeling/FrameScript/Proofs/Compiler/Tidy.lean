import FrameScript.Proofs.Compiler.Breaks

/-!
# Programs whose `break` statements leave their loops

A `break` leaves its own loop if there is one and if neither another `break` nor another loop
follows in it. This can be seen from the tree alone.
-/

namespace FrameScript

namespace Stmt

mutual

/-- Whether a statement holds neither a `break` nor a loop. -/
def straight : Stmt → Bool
  | .leave | .loop _ _ => false
  | .cond _ body => bodyStraight body
  | .call _ _ | .assign _ _ | .declare _ _ | .suspend => true

/-- Whether several statements hold neither a `break` nor a loop. -/
def bodyStraight : List Stmt → Bool
  | [] => true
  | s :: body => s.straight && bodyStraight body

end

mutual

/-- Whether every `break` of a statement is in a loop and no other `break` and no loop follows
before the innermost loop around it ends. The statement itself may be in a loop, and all that
follows it in that loop may be straight. -/
def tidy (inLoop straightAfter : Bool) : Stmt → Bool
  | .leave => inLoop && straightAfter
  | .cond _ body => bodyTidy inLoop straightAfter body
  | .loop _ body => bodyTidy true true body
  | .call _ _ | .assign _ _ | .declare _ _ | .suspend => true

/-- The same for several statements. -/
def bodyTidy (inLoop straightAfter : Bool) : List Stmt → Bool
  | [] => true
  | s :: body =>
    s.tidy inLoop (bodyStraight body && straightAfter) && bodyTidy inLoop straightAfter body

end

mutual

/-- The jumps of the `break` statements of a statement at an index lead behind the innermost loop:
one inside the statement, or else one that ends before an exit. -/
def Aimed (aim : Nat → Operand) (exit : Option Nat) (start : Nat) : Stmt → Prop
  | .leave => ∃ target, exit = some target ∧ aim start = .jump target
  | .cond condition body => BodyAimed aim exit (start + condition.size + 1) body
  | .loop condition body =>
    let inner := start + condition.size + 1
    BodyAimed aim (some (inner + bodySize body + 1)) inner body
  | .call _ _ | .assign _ _ | .declare _ _ | .suspend => True

/-- The same for several statements. -/
def BodyAimed (aim : Nat → Operand) (exit : Option Nat) (start : Nat) : List Stmt → Prop
  | [] => True
  | s :: body => s.Aimed aim exit start ∧ BodyAimed aim exit (start + s.size) body

end

mutual

/-- A straight statement emits no jump of a `break` and closes no loop. -/
theorem events_of_straight : ∀ (s : Stmt) {start : Nat}, s.straight = true → s.events start = []
  | .cond condition body, _, h => bodyEvents_of_bodyStraight body h
  | .loop _ _, _, h | .leave, _, h => by simp [straight] at h
  | .call _ _, _, _ | .assign _ _, _, _ | .declare _ _, _, _ | .suspend, _, _ => rfl

/-- The same for several straight statements. -/
theorem bodyEvents_of_bodyStraight :
    ∀ (body : List Stmt) {start : Nat}, bodyStraight body = true → bodyEvents start body = []
  | [], _, _ => rfl
  | s :: body, start, h => by
    rw [bodyStraight, Bool.and_eq_true] at h
    rw [bodyEvents, events_of_straight s h.1, bodyEvents_of_bodyStraight body h.2, List.append_nil]

end

section

variable {code : Array Instruction}

mutual

/-- In settled code, the jumps of a tidy statement lead out of their loops. -/
theorem aimed_of_placed : ∀ (s : Stmt) {inLoop straightAfter : Bool} {span? : Option LoopSpan}
    {later : List Event} {start : Nat}, s.tidy inLoop straightAfter = true →
    (inLoop = true → span?.isSome = true) → (straightAfter = true → later = []) →
    (∀ site ∈ s.breakSites span? later start, site.Placed code) →
    s.Aimed (operandAt code) (span?.map (·.after)) start
  | .leave, _, _, span?, later, start, htidy, hspan, hlater, hplaced => by
    rw [tidy, Bool.and_eq_true] at htidy
    obtain ⟨span, rfl⟩ := Option.isSome_iff_exists.mp (hspan htidy.1)
    obtain rfl := hlater htidy.2
    have hjump := (hplaced _ (List.mem_singleton_self _)).jump
    refine ⟨span.after, rfl, ?_⟩
    rw [operandAt, hjump]
    rfl
  | .cond condition body, _, _, _, _, _, htidy, hspan, hlater, hplaced =>
    bodyAimed_of_placed body htidy hspan hlater hplaced
  | .loop condition body, _, _, _, _, _, htidy, _, _, hplaced =>
    bodyAimed_of_placed body htidy (fun _ => rfl) (fun _ => rfl) hplaced
  | .call _ _, _, _, _, _, _, _, _, _, _ | .assign _ _, _, _, _, _, _, _, _, _, _
  | .declare _ _, _, _, _, _, _, _, _, _, _ | .suspend, _, _, _, _, _, _, _, _, _ => trivial

/-- In settled code, the jumps of tidy statements lead out of their loops. -/
theorem bodyAimed_of_placed : ∀ (body : List Stmt) {inLoop straightAfter : Bool}
    {span? : Option LoopSpan} {later : List Event} {start : Nat},
    bodyTidy inLoop straightAfter body = true →
    (inLoop = true → span?.isSome = true) → (straightAfter = true → later = []) →
    (∀ site ∈ bodyBreakSites span? later start body, site.Placed code) →
    BodyAimed (operandAt code) (span?.map (·.after)) start body
  | [], _, _, _, _, _, _, _, _, _ => trivial
  | s :: body, _, _, _, later, start, htidy, hspan, hlater, hplaced => by
    rw [bodyTidy, Bool.and_eq_true] at htidy
    obtain ⟨hfirst, hrest⟩ := htidy
    constructor
    · refine aimed_of_placed s hfirst hspan (fun hstraight => ?_) fun site hsite =>
        hplaced site (List.mem_append_left _ hsite)
      rw [Bool.and_eq_true] at hstraight
      rw [bodyEvents_of_bodyStraight body hstraight.1, hlater hstraight.2, List.append_nil]
    · exact bodyAimed_of_placed body hrest hspan hlater fun site hsite =>
        hplaced site (List.mem_append_right _ hsite)

end

end

end Stmt

/-- Whether every `break` of a program is in a loop, with no other `break` and no loop behind it
before that loop ends. -/
def Program.tidy (p : Program) : Bool :=
  Stmt.bodyTidy false true p.statements

/-- The jumps of a tidy program lead out of their loops. -/
theorem Compiled.aimed {p : Program} {names : List String} {f : Function}
    (h : Compiled p names f) (htidy : p.tidy = true) :
    Stmt.BodyAimed (operandAt f.instructions) none 0 p.statements :=
  Stmt.bodyAimed_of_placed p.statements htidy (by simp) (fun _ => rfl) fun _ hsite =>
    h.placed hsite

end FrameScript
