import FrameScript.Proofs.Compiler.Layout

/-!
# Places in a program

Every statement and every expression of a program has a place, the index at which its code starts.
The places say where statements start and end, and in which order the events of the walk happen.
Where the code of a program lies, the code of what stands there lies at each place.
-/

namespace FrameScript

/-! ### Places -/

namespace Expr

mutual

/-- The parts of an expression, itself included, with the indices at which their code starts. -/
def places (start : Nat) : Expr → List (Nat × Expr)
  | .number x => [(start, .number x)]
  | .bool b => [(start, .bool b)]
  | .variable name => [(start, .variable name)]
  | .binary left op right =>
    (start, .binary left op right) :: (left.places start ++ right.places (start + left.size))
  | .call name args => (start, .call name args) :: listPlaces start args

/-- The parts of several expressions. -/
def listPlaces (start : Nat) : List Expr → List (Nat × Expr)
  | [] => []
  | e :: es => e.places start ++ listPlaces (start + e.size) es

end

end Expr

namespace Stmt

mutual

/-- A statement and all statements inside it, with the indices at which their code starts. -/
def places (start : Nat) : Stmt → List (Nat × Stmt)
  | .cond condition body =>
    (start, .cond condition body) :: bodyPlaces (start + condition.size + 1) body
  | .loop condition body =>
    (start, .loop condition body) :: bodyPlaces (start + condition.size + 1) body
  | s => [(start, s)]

/-- Several statements and all statements inside them. -/
def bodyPlaces (start : Nat) : List Stmt → List (Nat × Stmt)
  | [] => []
  | s :: body => s.places start ++ bodyPlaces (start + s.size) body

end

mutual

/-- The expressions of a statement and all their parts, with the indices at which their code
starts. -/
def expressionPlaces (start : Nat) : Stmt → List (Nat × Expr)
  | .call _ args => Expr.listPlaces start args
  | .assign _ e | .declare _ e => e.places start
  | .cond condition body | .loop condition body =>
    condition.places start ++ bodyExpressionPlaces (start + condition.size + 1) body
  | .leave | .suspend => []

/-- The expressions of several statements and all their parts. -/
def bodyExpressionPlaces (start : Nat) : List Stmt → List (Nat × Expr)
  | [] => []
  | s :: body => s.expressionPlaces start ++ bodyExpressionPlaces (start + s.size) body

end

end Stmt

namespace Program

/-- The statements of a program, at any depth, with the indices at which their code starts. -/
def places (p : Program) : List (Nat × Stmt) :=
  Stmt.bodyPlaces 0 p.statements

/-- The expressions of a program, at any depth, with the indices at which their code starts. -/
def expressionPlaces (p : Program) : List (Nat × Expr) :=
  Stmt.bodyExpressionPlaces 0 p.statements

end Program

mutual

/-- The code of a statement inside another one is part of the code of the latter. -/
theorem Stmt.bounds_of_mem_places {index : Nat} {inner : Stmt} : ∀ (s : Stmt) {start : Nat},
    (index, inner) ∈ s.places start → start ≤ index ∧ index + inner.size ≤ start + s.size
  | .cond condition body, start, h | .loop condition body, start, h => by
    rcases List.mem_cons.mp h with heq | h
    · cases heq
      exact ⟨Nat.le_refl _, Nat.le_refl _⟩
    · have hbounds := bounds_of_mem_bodyPlaces body h
      rw [size]
      omega
  | .call _ _, _, h | .assign _ _, _, h | .declare _ _, _, h | .leave, _, h | .suspend, _, h => by
    cases List.mem_singleton.mp h
    exact ⟨Nat.le_refl _, Nat.le_refl _⟩

/-- A statement among or in statements lies within the code of these. -/
theorem Stmt.bounds_of_mem_bodyPlaces {index : Nat} {inner : Stmt} :
    ∀ (body : List Stmt) {start : Nat}, (index, inner) ∈ Stmt.bodyPlaces start body →
      start ≤ index ∧ index + inner.size ≤ start + Stmt.bodySize body
  | [], _, h => by simp [bodyPlaces] at h
  | s :: body, start, h => by
    rw [bodySize]
    rcases List.mem_append.mp h with h | h
    · have hbounds := bounds_of_mem_places s h
      omega
    · have hbounds := bounds_of_mem_bodyPlaces body h
      omega

end

mutual

/-- A part of an expression lies within the code of the expression. -/
theorem Expr.bounds_of_mem_places {index : Nat} {inner : Expr} : ∀ (e : Expr) {start : Nat},
    (index, inner) ∈ e.places start → start ≤ index ∧ index + inner.size ≤ start + e.size
  | .binary left op right, start, h => by
    rcases List.mem_cons.mp h with heq | h
    · cases heq
      exact ⟨Nat.le_refl _, Nat.le_refl _⟩
    · rw [size]
      rcases List.mem_append.mp h with h | h
      · have hbounds := bounds_of_mem_places left h
        omega
      · have hbounds := bounds_of_mem_places right h
        omega
  | .call name args, start, h => by
    rcases List.mem_cons.mp h with heq | h
    · cases heq
      exact ⟨Nat.le_refl _, Nat.le_refl _⟩
    · have hbounds := bounds_of_mem_listPlaces args h
      rw [size]
      omega
  | .number _, _, h | .bool _, _, h | .variable _, _, h => by
    cases List.mem_singleton.mp h
    exact ⟨Nat.le_refl _, Nat.le_refl _⟩

/-- The code of a part of an expression is part of the code of the expression. -/
theorem Expr.bounds_of_mem_listPlaces {index : Nat} {inner : Expr} :
    ∀ (es : List Expr) {start : Nat}, (index, inner) ∈ Expr.listPlaces start es →
      start ≤ index ∧ index + inner.size ≤ start + Expr.listSize es
  | [], _, h => by simp [listPlaces] at h
  | e :: es, start, h => by
    rw [listSize]
    rcases List.mem_append.mp h with h | h
    · have hbounds := bounds_of_mem_places e h
      omega
    · have hbounds := bounds_of_mem_listPlaces es h
      omega

end

mutual

/-- An expression in a statement ends before the last instruction of the statement. -/
theorem Stmt.bounds_of_mem_expressionPlaces {index : Nat} {e : Expr} :
    ∀ (s : Stmt) {start : Nat}, (index, e) ∈ s.expressionPlaces start →
      start ≤ index ∧ index + e.size < start + s.size
  | .call _ args, start, h => by
    have hbounds := Expr.bounds_of_mem_listPlaces args h
    rw [size]
    omega
  | .assign _ value, start, h | .declare _ value, start, h => by
    have hbounds := Expr.bounds_of_mem_places value h
    rw [size]
    omega
  | .cond condition body, start, h | .loop condition body, start, h => by
    rw [size]
    rcases List.mem_append.mp h with h | h
    · have hbounds := Expr.bounds_of_mem_places condition h
      omega
    · have hbounds := bounds_of_mem_bodyExpressionPlaces body h
      omega
  | .leave, _, h | .suspend, _, h => by simp [expressionPlaces] at h

/-- The code of an expression in a statement ends before that of the statement. -/
theorem Stmt.bounds_of_mem_bodyExpressionPlaces {index : Nat} {e : Expr} :
    ∀ (body : List Stmt) {start : Nat}, (index, e) ∈ Stmt.bodyExpressionPlaces start body →
      start ≤ index ∧ index + e.size < start + Stmt.bodySize body
  | [], _, h => by simp [bodyExpressionPlaces] at h
  | s :: body, start, h => by
    rw [bodySize]
    rcases List.mem_append.mp h with h | h
    · have hbounds := bounds_of_mem_expressionPlaces s h
      omega
    · have hbounds := bounds_of_mem_bodyExpressionPlaces body h
      omega

end

/-! ### Boundaries -/

mutual

/-- The indices at which a statement inside another one starts or ends. -/
def Stmt.innerBoundaries (start : Nat) : Stmt → List Nat
  | .cond condition body | .loop condition body =>
    bodyBoundaries (start + condition.size + 1) body
  | .call _ _ | .assign _ _ | .declare _ _ | .leave | .suspend => []

/-- The indices at which one of several statements, or a statement inside one, starts or ends. -/
def Stmt.bodyBoundaries (start : Nat) : List Stmt → List Nat
  | [] => []
  | s :: body =>
    start :: (start + s.size) :: s.innerBoundaries start ++ bodyBoundaries (start + s.size) body

end

/-- The indices at which the statements of a program, at any depth, start or end. -/
def Program.boundaries (p : Program) : List Nat :=
  Stmt.bodyBoundaries 0 p.statements

mutual

/-- A statement or one inside it starts or ends exactly at its own ends and its inner boundaries. -/
theorem Stmt.mem_innerBoundaries_iff {b : Nat} : ∀ (s : Stmt) {start : Nat},
    b = start ∨ b = start + s.size ∨ b ∈ s.innerBoundaries start ↔
      ∃ index inner, (index, inner) ∈ s.places start ∧ (b = index ∨ b = index + inner.size)
  | .cond condition body, start | .loop condition body, start => by
    simp [innerBoundaries, places, mem_bodyBoundaries_iff body, or_and_right, exists_or,
      and_assoc, or_assoc]
  | .call _ _, _ | .assign _ _, _ | .declare _ _, _ | .leave, _ | .suspend, _ => by
    simp [innerBoundaries, places]

/-- A statement starts or ends exactly at the boundaries. -/
theorem Stmt.mem_bodyBoundaries_iff {b : Nat} : ∀ (body : List Stmt) {start : Nat},
    b ∈ Stmt.bodyBoundaries start body ↔
      ∃ index inner, (index, inner) ∈ Stmt.bodyPlaces start body ∧
        (b = index ∨ b = index + inner.size)
  | [], _ => by simp [bodyBoundaries, bodyPlaces]
  | s :: body, start => by
    have hhead := @mem_innerBoundaries_iff b s start
    rw [bodyBoundaries, bodyPlaces]
    simp only [List.mem_append, or_and_right, exists_or, ← hhead, ← mem_bodyBoundaries_iff body]
    simp [or_assoc]

end

/-- No boundary of statements lies behind their code. -/
theorem Stmt.le_of_mem_bodyBoundaries {b : Nat} {body : List Stmt} {start : Nat}
    (h : b ∈ Stmt.bodyBoundaries start body) : b ≤ start + Stmt.bodySize body := by
  obtain ⟨index, inner, hplace, hb⟩ := (mem_bodyBoundaries_iff body).mp h
  have hbounds := bounds_of_mem_bodyPlaces body hplace
  omega

mutual

/-- Where a statement inside another one starts or ends, no expression is begun whose value is still
to be used. -/
theorem Stmt.outside_of_mem_places {index bound : Nat} {inner : Stmt} {e : Expr}
    (hbound : bound = index ∨ bound = index + inner.size) {place : Nat} :
    ∀ (s : Stmt) {start : Nat}, (index, inner) ∈ s.places start →
      (place, e) ∈ s.expressionPlaces start → bound ≤ place ∨ place + e.size < bound
  | .cond condition body, start, hs, he | .loop condition body, start, hs, he => by
    rcases List.mem_cons.mp hs with heq | hs
    · cases heq
      have hbounds := bounds_of_mem_expressionPlaces _ he
      omega
    · rcases List.mem_append.mp he with he | he
      · have hcondition := Expr.bounds_of_mem_places condition he
        have hbody := bounds_of_mem_bodyPlaces body hs
        omega
      · exact outside_of_mem_bodyPlaces hbound body hs he
  | .call _ _, start, hs, he | .assign _ _, start, hs, he | .declare _ _, start, hs, he => by
    cases List.mem_singleton.mp hs
    have hbounds := bounds_of_mem_expressionPlaces _ he
    omega
  | .leave, _, _, he | .suspend, _, _, he => by simp [expressionPlaces] at he

/-- Where a statement starts or ends, no expression is begun whose value is still to be used. -/
theorem Stmt.outside_of_mem_bodyPlaces {index bound : Nat} {inner : Stmt} {e : Expr}
    (hbound : bound = index ∨ bound = index + inner.size) {place : Nat} :
    ∀ (body : List Stmt) {start : Nat}, (index, inner) ∈ Stmt.bodyPlaces start body →
      (place, e) ∈ Stmt.bodyExpressionPlaces start body →
      bound ≤ place ∨ place + e.size < bound
  | [], _, hs, _ => by simp [bodyPlaces] at hs
  | s :: body, start, hs, he => by
    rcases List.mem_append.mp hs with hs | hs <;> rcases List.mem_append.mp he with he | he
    · exact outside_of_mem_places hbound s hs he
    · have hstatement := bounds_of_mem_places s hs
      have hexpression := bounds_of_mem_bodyExpressionPlaces body he
      omega
    · have hstatement := bounds_of_mem_bodyPlaces body hs
      have hexpression := bounds_of_mem_expressionPlaces s he
      omega
    · exact outside_of_mem_bodyPlaces hbound body hs he

end

/-- No boundary lies in an expression or directly behind one. -/
theorem Program.outside_of_mem_boundaries {p : Program} {b place : Nat} {e : Expr}
    (hb : b ∈ p.boundaries) (he : (place, e) ∈ p.expressionPlaces) :
    b ≤ place ∨ place + e.size < b := by
  obtain ⟨index, inner, hplace, hbound⟩ := (Stmt.mem_bodyBoundaries_iff p.statements).mp hb
  exact Stmt.outside_of_mem_bodyPlaces hbound p.statements hplace he

/-! ### Events -/

/-- The index of the jump that is emitted when an event happens. -/
def Event.emittedAt : Event → Nat
  | .leave index => index
  | .close after => after - 1

/-- The event that belongs to a statement at a place. -/
def Event.ofPlace? : Nat × Stmt → Option Event
  | (index, .leave) => some (.leave index)
  | (start, .loop condition body) => some (.close (start + (Stmt.loop condition body).size))
  | _ => none

mutual

/-- An event happens in a statement exactly if it belongs to this or to a statement inside it. -/
theorem Stmt.mem_events_iff {event : Event} : ∀ (s : Stmt) {start : Nat},
    event ∈ s.events start ↔ ∃ place ∈ s.places start, Event.ofPlace? place = some event
  | .cond condition body, start => by
    have hbody := @mem_bodyEvents_iff event body (start + condition.size + 1)
    simpa [events, places, Event.ofPlace?] using hbody
  | .loop condition body, start => by
    have hbody := @mem_bodyEvents_iff event body (start + condition.size + 1)
    have hend : start + condition.size + 1 + bodySize body + 1 =
        start + (Stmt.loop condition body).size := by
      rw [size]
      omega
    rw [events, places, hend, List.mem_append, hbody, List.mem_singleton, or_comm]
    simp [Event.ofPlace?, eq_comm]
  | .call _ _, _ | .assign _ _, _ | .declare _ _, _ | .suspend, _ => by
    simp [events, places, Event.ofPlace?]
  | .leave, start => by simp [events, places, Event.ofPlace?, eq_comm]

/-- An event happens in statements exactly if it belongs to one of them. -/
theorem Stmt.mem_bodyEvents_iff {event : Event} : ∀ (body : List Stmt) {start : Nat},
    event ∈ Stmt.bodyEvents start body ↔
      ∃ place ∈ Stmt.bodyPlaces start body, Event.ofPlace? place = some event
  | [], _ => by simp [bodyEvents, bodyPlaces]
  | s :: body, start => by
    rw [bodyEvents, bodyPlaces, List.mem_append, mem_events_iff s, mem_bodyEvents_iff body]
    simp only [List.mem_append, or_and_right, exists_or]

end

/-- The jump of an event is part of the statement that the event belongs to. -/
theorem Event.bounds_of_ofPlace? {event : Event} {start : Nat} {s : Stmt}
    (h : Event.ofPlace? (start, s) = some event) :
    start ≤ event.emittedAt ∧ event.emittedAt < start + s.size := by
  cases s with
  | leave =>
    cases h
    exact ⟨Nat.le_refl _, Nat.lt_succ_self _⟩
  | loop condition body =>
    cases h
    rw [emittedAt, Stmt.size]
    omega
  | call | assign | declare | cond | suspend => cases h

/-- An event of a statement has its jump in the code of the statement. -/
theorem Stmt.bounds_of_mem_events {event : Event} {s : Stmt} {start : Nat}
    (h : event ∈ s.events start) :
    start ≤ event.emittedAt ∧ event.emittedAt < start + s.size := by
  obtain ⟨⟨index, inner⟩, hplace, hevent⟩ := s.mem_events_iff.mp h
  have hinner := bounds_of_mem_places s hplace
  have hjump := Event.bounds_of_ofPlace? hevent
  omega

/-- An event of statements has its jump in their code. -/
theorem Stmt.bounds_of_mem_bodyEvents {event : Event} {body : List Stmt} {start : Nat}
    (h : event ∈ Stmt.bodyEvents start body) :
    start ≤ event.emittedAt ∧ event.emittedAt < start + Stmt.bodySize body := by
  obtain ⟨⟨index, inner⟩, hplace, hevent⟩ := (mem_bodyEvents_iff body).mp h
  have hinner := bounds_of_mem_bodyPlaces body hplace
  have hjump := Event.bounds_of_ofPlace? hevent
  omega

/-- Events one after the other, in the order in which their jumps are emitted. -/
def Event.Ordered (events : List Event) : Prop :=
  events.Pairwise fun first second => first.emittedAt < second.emittedAt

mutual

/-- The events of a statement come in the order of their jumps. -/
theorem Stmt.events_ordered : ∀ (s : Stmt) (start : Nat), Event.Ordered (s.events start)
  | .cond condition body, start => bodyEvents_ordered body (start + condition.size + 1)
  | .loop condition body, start => by
    refine List.pairwise_append.mpr ⟨bodyEvents_ordered body _, List.pairwise_singleton _ _, ?_⟩
    intro event hevent last hlast
    have hbounds := bounds_of_mem_bodyEvents hevent
    rw [List.mem_singleton.mp hlast, Event.emittedAt]
    omega
  | .leave, _ => List.pairwise_singleton _ _
  | .call _ _, _ | .assign _ _, _ | .declare _ _, _ | .suspend, _ => List.Pairwise.nil

/-- The events of statements are in the order in which their jumps are emitted. -/
theorem Stmt.bodyEvents_ordered : ∀ (body : List Stmt) (start : Nat),
    Event.Ordered (Stmt.bodyEvents start body)
  | [], _ => List.Pairwise.nil
  | s :: body, start => by
    refine List.pairwise_append.mpr ⟨events_ordered s start, bodyEvents_ordered body _, ?_⟩
    intro first hfirst second hsecond
    have hbefore := bounds_of_mem_events hfirst
    have hbehind := bounds_of_mem_bodyEvents hsecond
    omega

end

/-! ### What lies at a place -/

section

variable {code : Array Instruction} {names : List String} {aim : Nat → Operand} {index : Nat}

mutual

/-- At the place of a part of an expression lies the code of this part. -/
theorem Expr.codeAt_of_mem_places {inner : Expr} : ∀ (e : Expr) {start : Nat},
    CodeAt code start (e.code names) → (index, inner) ∈ e.places start →
    CodeAt code index (inner.code names)
  | .number _, _, hcode, h | .bool _, _, hcode, h | .variable _, _, hcode, h => by
    cases List.mem_singleton.mp h
    exact hcode
  | .binary left op right, start, hcode, h => by
    rcases List.mem_cons.mp h with heq | h
    · cases heq
      exact hcode
    · rw [Expr.code, codeAt_append, codeAt_append, length_code] at hcode
      rcases List.mem_append.mp h with h | h
      · exact codeAt_of_mem_places left hcode.1.1 h
      · exact codeAt_of_mem_places right hcode.1.2 h
  | .call name args, start, hcode, h => by
    rcases List.mem_cons.mp h with heq | h
    · cases heq
      exact hcode
    · rw [Expr.code, codeAt_append] at hcode
      exact codeAt_of_mem_listPlaces args hcode.1 h

/-- At the place of a part of an expression lies its code. -/
theorem Expr.codeAt_of_mem_listPlaces {inner : Expr} : ∀ (es : List Expr) {start : Nat},
    CodeAt code start (Expr.listCode names es) → (index, inner) ∈ Expr.listPlaces start es →
    CodeAt code index (inner.code names)
  | [], _, _, h => by simp [listPlaces] at h
  | e :: es, start, hcode, h => by
    rw [listCode, codeAt_append, length_code] at hcode
    rcases List.mem_append.mp h with h | h
    · exact codeAt_of_mem_places e hcode.1 h
    · exact codeAt_of_mem_listPlaces es hcode.2 h

end

mutual

/-- At the place of a statement inside another one lies the code of this statement. -/
theorem Stmt.codeAt_of_mem_places {inner : Stmt} : ∀ (s : Stmt) {start : Nat},
    CodeAt code start (s.code names aim start) → (index, inner) ∈ s.places start →
    CodeAt code index (inner.code names aim index)
  | .cond condition body, start, hcode, h => by
    rcases List.mem_cons.mp h with heq | h
    · cases heq
      exact hcode
    · rw [Stmt.code, codeAt_append, codeAt_cons, Expr.length_code] at hcode
      exact codeAt_of_mem_bodyPlaces body hcode.2.2 h
  | .loop condition body, start, hcode, h => by
    rcases List.mem_cons.mp h with heq | h
    · cases heq
      exact hcode
    · rw [Stmt.code, codeAt_append, codeAt_cons, codeAt_append, Expr.length_code] at hcode
      exact codeAt_of_mem_bodyPlaces body hcode.2.2.1 h
  | .call _ _, _, hcode, h | .assign _ _, _, hcode, h | .declare _ _, _, hcode, h
  | .leave, _, hcode, h | .suspend, _, hcode, h => by
    cases List.mem_singleton.mp h
    exact hcode

/-- At the place of a statement lies its code. -/
theorem Stmt.codeAt_of_mem_bodyPlaces {inner : Stmt} : ∀ (body : List Stmt) {start : Nat},
    CodeAt code start (Stmt.bodyCode names aim start body) →
    (index, inner) ∈ Stmt.bodyPlaces start body → CodeAt code index (inner.code names aim index)
  | [], _, _, h => by simp [bodyPlaces] at h
  | s :: body, start, hcode, h => by
    rw [bodyCode, codeAt_append, length_code] at hcode
    rcases List.mem_append.mp h with h | h
    · exact codeAt_of_mem_places s hcode.1 h
    · exact codeAt_of_mem_bodyPlaces body hcode.2 h

end

mutual

/-- At the place of an expression in a statement lies the code of this expression. -/
theorem Stmt.codeAt_of_mem_expressionPlaces {e : Expr} : ∀ (s : Stmt) {start : Nat},
    CodeAt code start (s.code names aim start) → (index, e) ∈ s.expressionPlaces start →
    CodeAt code index (e.code names)
  | .call _ args, start, hcode, h =>
    Expr.codeAt_of_mem_listPlaces args (codeAt_append.mp hcode).1 h
  | .assign _ value, start, hcode, h | .declare _ value, start, hcode, h =>
    Expr.codeAt_of_mem_places value (codeAt_append.mp hcode).1 h
  | .cond condition body, start, hcode, h => by
    rw [Stmt.code, codeAt_append, codeAt_cons, Expr.length_code] at hcode
    rcases List.mem_append.mp h with h | h
    · exact Expr.codeAt_of_mem_places condition hcode.1 h
    · exact codeAt_of_mem_bodyExpressionPlaces body hcode.2.2 h
  | .loop condition body, start, hcode, h => by
    rw [Stmt.code, codeAt_append, codeAt_cons, codeAt_append, Expr.length_code] at hcode
    rcases List.mem_append.mp h with h | h
    · exact Expr.codeAt_of_mem_places condition hcode.1 h
    · exact codeAt_of_mem_bodyExpressionPlaces body hcode.2.2.1 h
  | .leave, _, _, h | .suspend, _, _, h => by simp [expressionPlaces] at h

/-- At the place of an expression of a statement lies its code. -/
theorem Stmt.codeAt_of_mem_bodyExpressionPlaces {e : Expr} : ∀ (body : List Stmt) {start : Nat},
    CodeAt code start (Stmt.bodyCode names aim start body) →
    (index, e) ∈ Stmt.bodyExpressionPlaces start body → CodeAt code index (e.code names)
  | [], _, _, h => by simp [bodyExpressionPlaces] at h
  | s :: body, start, hcode, h => by
    rw [bodyCode, codeAt_append, length_code] at hcode
    rcases List.mem_append.mp h with h | h
    · exact codeAt_of_mem_expressionPlaces s hcode.1 h
    · exact codeAt_of_mem_bodyExpressionPlaces body hcode.2 h

end

end

end FrameScript
