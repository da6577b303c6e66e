import FrameScript.Proofs.Compiler.Breaks
import FrameScript.Proofs.Compiler.Origins

/-!
# Which `break` gets a target

The walk over a program emits the jumps of `break` statements and closes loops. In the order in
which it does so, a jump gets a target exactly if a loop is closed before the next `break` is
emitted, and the jump then leads behind that loop. Of the jumps that are left without a target, the
compiler names the last one if nothing is closed behind it.
-/

namespace FrameScript

/-- The events of the walk over a program. -/
def Program.events (p : Program) : List Event :=
  Stmt.bodyEvents 0 p.statements

/-! ### The jump that waits -/

/-- The jump that waits after an event. -/
def Event.waiting (_ : Option Nat) : Event → Option Nat
  | .leave index => some index
  | .close _ => none

/-- The walk over statements changes the jump that waits with each of its events, and with nothing
else. -/
theorem Emits.pending_eq {d d' : Draft} {body : List Stmt} (h : Emits d body d') :
    d'.pending = (Stmt.bodyEvents d.here body).foldl Event.waiting d.pending := by
  induction h with
  | nil => rfl
  | call _ _ ih | assign _ _ ih | declare _ _ _ ih | suspend _ ih =>
    refine ih.trans ?_
    simp only [Draft.here_emit, Draft.here_extend, Draft.here_addName, Expr.length_code,
      Expr.length_listCode, Stmt.bodyEvents, Stmt.events, Stmt.size, Nat.add_assoc,
      List.nil_append]
    rfl
  | leave _ ih =>
    refine ih.trans ?_
    rw [Draft.here_leave]
    rfl
  | @cond d d₁ d' condition inner body _ within _ ihWithin ih =>
    rw [Draft.here_emit, Draft.here_extend, Expr.length_code] at ihWithin
    have hend : d₁.here = d.here + (Stmt.cond condition inner).size := by
      rw [within.here_within, Stmt.size]
      omega
    rw [Draft.here_aim, hend] at ih
    have hinner : d₁.pending =
        (Stmt.bodyEvents (d.here + condition.size + 1) inner).foldl Event.waiting d.pending :=
      ihWithin
    rw [ih, Stmt.bodyEvents, Stmt.events, List.foldl_append, ← hinner]
    rfl
  | @loop d d₁ d' condition inner body _ within _ ihWithin ih =>
    have hend : d₁.here + 1 = d.here + (Stmt.loop condition inner).size := by
      rw [within.here_within, Stmt.size]
      omega
    rw [Draft.here_endLoop, Draft.here_aim, Draft.here_emit, Draft.pending_endLoop, hend] at ih
    rw [ih, Stmt.bodyEvents, Stmt.events, List.foldl_append, List.foldl_append]
    rfl

/-- A `break` is emitted at an index, and certain events come after it. -/
def Program.Leaves (p : Program) (index : Nat) (later : List Event) : Prop :=
  ∃ before, p.events = before ++ .leave index :: later

/-- Among events, a loop that ends before an index is closed before a `break` is emitted. -/
def Event.Closes (events : List Event) (after : Nat) : Prop :=
  ∃ between rest, events = between ++ .close after :: rest ∧ ∀ index, .leave index ∉ between

/-- Among events, a loop that ends before an index is closed first of all loops, and before a
`break` is emitted. -/
def Event.ClosesFirst (events : List Event) (after : Nat) : Prop :=
  ∃ between rest, events = between ++ .close after :: rest ∧ (∀ index, .leave index ∉ between) ∧
    ∀ other, .close other ∉ between

/-- There is nothing but `break` jumps and loop ends among events. -/
theorem Event.eq_nil_of_notMem {events : List Event} (hleave : ∀ index, .leave index ∉ events)
    (hclose : ∀ after, .close after ∉ events) : events = [] := by
  by_contra hne
  obtain ⟨event, rest, rfl⟩ := List.exists_cons_of_ne_nil hne
  cases event with
  | leave index => exact hleave index List.mem_cons_self
  | close after => exact hclose after List.mem_cons_self

/-- The first loop to be closed, if no `break` comes before, is what happens first. -/
theorem Event.closesFirst_iff {events : List Event} {after : Nat} :
    ClosesFirst events after ↔ events.head? = some (.close after) := by
  constructor
  · rintro ⟨between, rest, rfl, hleave, hclose⟩
    rw [eq_nil_of_notMem hleave hclose]
    rfl
  · intro h
    obtain ⟨rest, rfl⟩ := List.head?_eq_some_iff.mp h
    exact ⟨[], rest, rfl, by simp, by simp⟩

/-- If a loop is closed before a `break` is emitted, then one is closed first. -/
theorem Event.exists_closes_iff {events : List Event} :
    (∃ after, Closes events after) ↔ ∃ after, ClosesFirst events after := by
  constructor
  · rintro ⟨after, between, rest, rfl, hleave⟩
    cases between with
    | nil => exact ⟨after, [], rest, rfl, by simp, by simp⟩
    | cons event between =>
      cases event with
      | leave index => exact absurd List.mem_cons_self (hleave index)
      | close first => exact ⟨first, closesFirst_iff.mpr rfl⟩
  · rintro ⟨after, between, rest, heq, hleave, -⟩
    exact ⟨after, between, rest, heq, hleave⟩

/-- What the events of a program say about its compiled code and about the jump that still waits at
the end of the walk. -/
structure Program.Resolves (p : Program) (f : Function) (pending : Option Nat) : Prop where
  /-- The events are in the order in which their jumps are emitted. -/
  ordered : Event.Ordered p.events
  leave_mem_iff : ∀ index, .leave index ∈ p.events ↔ (index, .leave) ∈ p.places
  close_mem_iff : ∀ after, .close after ∈ p.events ↔ ∃ start condition body,
    (start, .loop condition body) ∈ p.places ∧ after = start + (Stmt.loop condition body).size
  /-- The jumps that are emitted for `break` statements and at the ends of loops are all there
  are. -/
  goto_at_iff : ∀ index, (∃ operand, f.instructions[index]? = some ⟨.goto, operand⟩) ↔
    ∃ event ∈ p.events, event.emittedAt = index
  /-- A loop ends behind a jump that leads back to its start. -/
  back_at : ∀ {start condition body}, (start, .loop condition body) ∈ p.places →
    ∃ index, index + 1 = start + (Stmt.loop condition body).size ∧
      f.instructions[index]? = some ⟨.goto, .jump start⟩
  has_target_iff : ∀ {index later}, p.Leaves index later →
    ((∃ target, f.targetAt? index = some target) ↔ ∃ after, Event.Closes later after)
  target_iff : ∀ {index later}, p.Leaves index later →
    ∀ target, f.targetAt? index = some target ↔ Event.ClosesFirst later target
  unresolved_sorted : f.unresolvedJumps.Pairwise (· < ·)
  unresolved_iff : ∀ index, index ∈ f.unresolvedJumps ↔
    .leave index ∈ p.events ∧ f.targetAt? index = none
  pending_iff : ∀ index, pending = some index ↔ ∃ later, p.Leaves index later ∧
    (∀ other, .leave other ∉ later) ∧ ∀ after, .close after ∉ later

/-! ### The jumps of compiled code -/

namespace Compiled

variable {p : Program} {names : List String} {f : Function} {r : Registry} {index : Nat}
  {later : List Event}

/-- The jump of a `break` has the operand that the events behind it give it. -/
theorem leave_at (h : Compiled p names f) (hleaves : p.Leaves index later) :
    f.instructions[index]? = some ⟨.goto, Event.aim later⟩ := by
  obtain ⟨before, hevents⟩ := hleaves
  have hsettled : Settled f.instructions p.events := h.settled
  rw [hevents] at hsettled
  exact hsettled.of_append.1

/-- The jump of a `break` has as its target the end of the loop that is closed first behind it. -/
theorem targetAt?_iff (h : Compiled p names f) (hleaves : p.Leaves index later) {target : Nat} :
    f.targetAt? index = some target ↔ Event.ClosesFirst later target := by
  rw [Event.closesFirst_iff, Function.targetAt?, h.leave_at hleaves]
  cases later with
  | nil => simp [Event.aim, Instruction.target?]
  | cons event later =>
    cases event <;> simp [Event.aim, Instruction.target?, Instruction.isJump]

/-- The code of a loop ends with a jump back to its start. -/
theorem back_at (h : Compiled p names f) {start : Nat} {condition : Expr} {body : List Stmt}
    (hplace : (start, .loop condition body) ∈ p.places) :
    f.instructions[start + condition.size + 1 + Stmt.bodySize body]? =
      some ⟨.goto, .jump start⟩ := by
  have hcode := h.codeAt_of_mem_places hplace
  rw [Stmt.code, codeAt_append, codeAt_cons, codeAt_append, codeAt_cons, Expr.length_code,
    Stmt.length_bodyCode] at hcode
  exact hcode.2.2.2.1

end Compiled

/-- Every `break` of the events is followed by the events behind it. -/
theorem Program.exists_leaves {p : Program} {index : Nat} (h : .leave index ∈ p.events) :
    ∃ later, p.Leaves index later := by
  obtain ⟨before, later, hevents⟩ := List.append_of_mem h
  exact ⟨later, before, hevents⟩

/-- The `break` jumps among the events are those at the places of `break` statements. -/
theorem Program.leave_mem_events_iff {p : Program} {index : Nat} :
    .leave index ∈ p.events ↔ (index, .leave) ∈ p.places := by
  rw [events, Stmt.mem_bodyEvents_iff]
  constructor
  · rintro ⟨⟨start, s⟩, hplace, hevent⟩
    cases s with
    | leave =>
      cases hevent
      exact hplace
    | loop | call | assign | declare | cond | suspend => cases hevent
  · exact fun hplace => ⟨_, hplace, rfl⟩

/-- The loop ends among the events are those of the loops of the program. -/
theorem Program.close_mem_events_iff {p : Program} {after : Nat} :
    .close after ∈ p.events ↔ ∃ start condition body, (start, .loop condition body) ∈ p.places ∧
      after = start + (Stmt.loop condition body).size := by
  rw [events, Stmt.mem_bodyEvents_iff]
  constructor
  · rintro ⟨⟨start, s⟩, hplace, hevent⟩
    cases s with
    | loop condition body =>
      cases hevent
      exact ⟨start, condition, body, hplace, rfl⟩
    | leave | call | assign | declare | cond | suspend => cases hevent
  · rintro ⟨start, condition, body, hplace, rfl⟩
    exact ⟨_, hplace, rfl⟩

/-- The jump that waits at the end is that of a `break` behind which nothing happens. -/
theorem Event.foldl_waiting_eq_some_iff {events : List Event} {index : Nat} :
    events.foldl Event.waiting none = some index ↔ ∃ before, events = before ++ [.leave index] := by
  rcases List.eq_nil_or_concat events with rfl | ⟨before, last, rfl⟩
  · simp
  · cases last <;> simp [Event.waiting]

/-- The jumps without a target are listed in the order of their indices. -/
theorem Function.unresolvedJumps_sorted (f : Function) : f.unresolvedJumps.Pairwise (· < ·) := by
  have hindices : (f.instructions.toList.zipIdx.map Prod.snd).Pairwise (· < ·) := by
    rw [List.zipIdx_map_snd]
    exact List.pairwise_lt_range'
  exact hindices.sublist (List.filter_sublist.map Prod.snd)

namespace Compiled

variable {p : Program} {names : List String} {f : Function} {r : Registry} {index : Nat}

/-- The jumps of a `break` and the closing jumps of loops are where the events say. -/
theorem goto_at_iff (h : Compiled p names f) (hsound : p.violations r = []) :
    (∃ operand, f.instructions[index]? = some ⟨.goto, operand⟩) ↔
      ∃ event ∈ p.events, event.emittedAt = index := by
  constructor
  · rintro ⟨operand, hi⟩
    rcases h.origin hsound hi with ⟨-, hfinish⟩ | horigin
    · cases hfinish
    · rcases horigin.goto_cases with ⟨start, condition, body, hplace, -, hlast, -⟩ | ⟨hplace, -⟩
      · refine ⟨_, Program.close_mem_events_iff.mpr ⟨start, condition, body, hplace, rfl⟩, ?_⟩
        rw [Event.emittedAt]
        omega
      · exact ⟨_, Program.leave_mem_events_iff.mpr hplace, rfl⟩
  · rintro ⟨event, hevent, rfl⟩
    cases event with
    | leave index =>
      obtain ⟨later, hleaves⟩ := Program.exists_leaves hevent
      exact ⟨_, h.leave_at hleaves⟩
    | close after =>
      obtain ⟨start, condition, body, hplace, rfl⟩ := Program.close_mem_events_iff.mp hevent
      have hlast : (Event.close (start + (Stmt.loop condition body).size)).emittedAt =
          start + condition.size + 1 + Stmt.bodySize body := by
        rw [Event.emittedAt, Stmt.size]
        omega
      rw [hlast]
      exact ⟨_, h.back_at hplace⟩

/-- The jumps that are listed as unresolved are those of `break` statements without a target. -/
theorem mem_unresolvedJumps_iff (h : Compiled p names f) (hsound : p.violations r = []) :
    index ∈ f.unresolvedJumps ↔ .leave index ∈ p.events ∧ f.targetAt? index = none := by
  rw [Function.mem_unresolvedJumps_iff]
  constructor
  · rintro ⟨i, hi, hjump, htarget⟩
    have hnone : f.targetAt? index = none := by
      rw [Function.targetAt?, hi]
      exact htarget
    refine ⟨?_, hnone⟩
    rcases h.origin hsound hi with ⟨-, rfl⟩ | horigin
    · cases hjump
    · cases horigin with
      | leave place => exact Program.leave_mem_events_iff.mpr place
      | cond | loop | back => cases htarget
      | @binary start left op => cases op <;> cases hjump
      | number | bool | get | value | effect | assign | declare | suspend => cases hjump
  · rintro ⟨hevent, htarget⟩
    obtain ⟨later, hleaves⟩ := Program.exists_leaves hevent
    have hcode := h.leave_at hleaves
    refine ⟨_, hcode, rfl, ?_⟩
    rw [Function.targetAt?, hcode] at htarget
    exact htarget

end Compiled

/-- Of the `break` jumps and the loop ends of a program, in the order in which the walk emits the
one and comes to the other, each jump gets the end of the first loop that is closed before the next
`break` is emitted. The jumps that get none are listed, and the last jump is remembered if no loop
is closed behind it. -/
theorem Compiler.resolves_of_compile {c c' : Compiler} {p : Program} {f : Function}
    (h : c.compile p = (.ok f, c')) : p.Resolves f c'.pendingBreak := by
  obtain ⟨d, hblock, rfl, -, hpending⟩ := block_of_compile h
  have hcompiled := Program.compiled_of_block hblock
  have hsound := Program.violations_eq_nil_of_block hblock
  refine {
    ordered := Stmt.bodyEvents_ordered p.statements 0
    leave_mem_iff := fun index => Program.leave_mem_events_iff
    close_mem_iff := fun after => Program.close_mem_events_iff
    goto_at_iff := fun index => hcompiled.goto_at_iff hsound
    back_at := fun hplace => ⟨_, ?_, hcompiled.back_at hplace⟩
    has_target_iff := fun hleaves => ?_
    target_iff := fun hleaves target => hcompiled.targetAt?_iff hleaves
    unresolved_sorted := Function.unresolvedJumps_sorted _
    unresolved_iff := fun index => hcompiled.mem_unresolvedJumps_iff hsound
    pending_iff := fun index => ?_ }
  · rw [Stmt.size]
    omega
  · rw [Event.exists_closes_iff]
    exact exists_congr fun target => hcompiled.targetAt?_iff hleaves
  · rw [hpending, (Draft.emits_of_block p.statements hblock).pending_eq]
    refine Event.foldl_waiting_eq_some_iff.trans ⟨?_, ?_⟩
    · rintro ⟨before, hevents⟩
      exact ⟨[], ⟨before, hevents⟩, by simp, by simp⟩
    · rintro ⟨later, ⟨before, hevents⟩, hleave, hclose⟩
      rw [Event.eq_nil_of_notMem hleave hclose] at hevents
      exact ⟨before, hevents⟩

/-- Three `break` statements, of which the second replaces the first, a loop takes the second, and
the third stays behind. -/
def Program.leftBehind : Program where
  statements := [.loop (.bool true) [.leave, .leave, .loop (.bool false) []], .leave]

/-- The jumps of the first and the third `break` have no target, and the third still waits. -/
theorem Compiler.resolves_leftBehind :
    ∃ f c', ({ registry := {} } : Compiler).compile .leftBehind = (.ok f, c') ∧
      Program.Resolves .leftBehind f c'.pendingBreak ∧ f.unresolvedJumps = [2, 8] ∧
      f.targetAt? 3 = some 7 ∧ c'.pendingBreak = some 8 := by
  obtain ⟨f, c', hcompile⟩ :
      ∃ f c', ({ registry := {} } : Compiler).compile .leftBehind = (.ok f, c') := ⟨_, _, rfl⟩
  have hresolves := resolves_of_compile hcompile
  cases hcompile
  exact ⟨_, _, rfl, hresolves, by decide, by decide, by decide⟩

end FrameScript
