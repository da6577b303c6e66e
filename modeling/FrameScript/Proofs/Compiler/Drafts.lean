import FrameScript.Proofs.Compiler.Layout

/-!
# Drafts and finished code

A draft grows at its end and is changed in two places only: a jump of an `if` or a loop is aimed
when its statement ends, and the one jump that waits is aimed when a loop ends. Finished code can
therefore be compared with every draft on the way, and what it says about a later draft gives what
it says about an earlier one.
-/

namespace FrameScript

namespace Draft

/-- A draft with further instructions. -/
def extend (d : Draft) (part : List Instruction) : Draft :=
  { d with code := d.code ++ part.toArray }

/-- Nothing is added. -/
@[simp] theorem extend_nil (d : Draft) : d.extend [] = d := by
  simp [extend]

/-- A draft with one more name. -/
def addName (d : Draft) (name : String) : Draft :=
  { d with names := d.names ++ [name] }

variable {d : Draft} {op : Opcode} {operand : Operand} {part : List Instruction}
  {index target i : Nat}

/-! ### The next index, the names and the jump that waits -/

/-- The next index moves by what was added. -/
@[simp] theorem here_extend : (d.extend part).here = d.here + part.length := by
  simp [here, extend]

/-- Names take no room in the code. -/
@[simp] theorem here_addName {name : String} : (d.addName name).here = d.here :=
  rfl

/-- An instruction takes one index. -/
@[simp] theorem here_emit : (d.emit op operand).here = d.here + 1 := by
  simp [here, emit]

/-- Aiming a jump adds nothing. -/
@[simp] theorem here_aim : (d.aim index target).here = d.here := by
  simp [here, aim]

/-- The jump of a `break` takes one index. -/
@[simp] theorem here_leave : d.leave.here = d.here + 1 := by
  simp [here, leave, emit]

/-- The end of a loop adds nothing. -/
@[simp] theorem here_endLoop : d.endLoop.here = d.here := by
  unfold endLoop
  split
  · rfl
  · exact here_aim

/-- The end of a loop declares nothing. -/
@[simp] theorem names_endLoop : d.endLoop.names = d.names := by
  unfold endLoop
  split <;> rfl

/-- No jump waits longer than to the end of a loop. -/
@[simp] theorem pending_endLoop : d.endLoop.pending = none := by
  unfold endLoop
  split
  · assumption
  · rfl

/-! ### The instructions -/

/-- What was there stays when a part is added. -/
@[simp] theorem code_extend_of_lt (h : i < d.here) : (d.extend part).code[i]? = d.code[i]? := by
  have hi : i < d.code.size := h
  simp [extend, Array.getElem?_append, hi]

/-- What was there stays when an instruction is added. -/
@[simp] theorem code_emit_of_lt (h : i < d.here) : (d.emit op operand).code[i]? = d.code[i]? := by
  have hi : i ≠ d.code.size := Nat.ne_of_lt h
  simp [emit, Array.getElem?_push, hi]

/-- A new instruction lies at what was the next index. -/
@[simp] theorem code_emit_here : (d.emit op operand).code[d.here]? = some { op, operand } := by
  simp [emit, here]

/-- Aiming a jump changes no other instruction. -/
@[simp] theorem code_aim_of_ne (h : i ≠ index) : (d.aim index target).code[i]? = d.code[i]? := by
  simp [aim, Array.getElem?_modify, Ne.symm h]

/-- Aiming a jump changes its operand. -/
@[simp] theorem code_aim_self :
    (d.aim index target).code[index]? = d.code[index]?.map (·.aimedAt target) := by
  simp [aim, Array.getElem?_modify]

/-- The end of a loop changes only the jump that waits. -/
theorem code_endLoop_of_notMem (h : i ∉ d.pending) : d.endLoop.code[i]? = d.code[i]? := by
  unfold endLoop
  split
  · rfl
  · next index hindex =>
    refine code_aim_of_ne fun heq => h ?_
    rw [heq, hindex]
    exact rfl

/-- The jump that waits is there and has no target yet. -/
def Waiting (d : Draft) : Prop :=
  ∀ i ∈ d.pending, d.code[i]? = some { op := .goto }

/-- The jump that waits was emitted before. -/
theorem Waiting.lt_here (h : d.Waiting) (hi : i ∈ d.pending) : i < d.here := by
  have hcode := h i hi
  rw [Array.getElem?_eq_some_iff] at hcode
  exact hcode.1

/-- The jump that waits is not touched by what is added. -/
theorem Waiting.extend (h : d.Waiting) : (d.extend part).Waiting := fun _ hi => by
  rw [code_extend_of_lt (h.lt_here hi)]
  exact h _ hi

/-- The jump that waits is not touched by an instruction behind it. -/
theorem Waiting.emit (h : d.Waiting) : (d.emit op operand).Waiting := fun _ hi => by
  rw [code_emit_of_lt (h.lt_here hi)]
  exact h _ hi

/-- The jump that waits is not touched when another one is aimed. -/
theorem Waiting.aim (h : d.Waiting) (hindex : index ∉ d.pending) :
    (d.aim index target).Waiting := fun i hi => by
  have hne : i ≠ index := fun heq => hindex (heq ▸ hi)
  rw [code_aim_of_ne hne]
  exact h _ hi

/-- The jump of a `break` is the one that waits, whatever waited before. -/
theorem Waiting.leave : d.leave.Waiting := fun i hi => by
  simp only [Draft.leave, Option.mem_def, Option.some.injEq] at hi
  subst hi
  exact code_emit_here

/-- Nothing waits behind a loop. -/
theorem Waiting.endLoop : d.endLoop.Waiting := fun i hi => by
  simp at hi

/-- A set of indices holds all that may still change in a draft: the jump that waits, and whatever
comes next. -/
structure Open (stays : Nat → Prop) (d : Draft) : Prop where
  waits : ∀ i ∈ d.pending, stays i
  comes : ∀ i, d.here ≤ i → stays i

namespace Open

variable {stays : Nat → Prop}

/-- What is added leaves less to come. -/
theorem extend (h : d.Open stays) : (d.extend part).Open stays where
  waits := h.waits
  comes i hi := h.comes i (Nat.le_trans (by simp) hi)

/-- A name changes nothing in the code. -/
theorem addName (h : d.Open stays) {name : String} : (d.addName name).Open stays where
  waits := h.waits
  comes := h.comes

/-- An instruction leaves less to come. -/
theorem emit (h : d.Open stays) : (d.emit op operand).Open stays where
  waits := h.waits
  comes i hi := h.comes i (Nat.le_trans (by simp) hi)

/-- Aiming a jump leaves as much to come as before. -/
theorem aim (h : d.Open stays) : (d.aim index target).Open stays where
  waits := h.waits
  comes i hi := h.comes i (by rwa [here_aim] at hi)

/-- The jump of a `break` was yet to come before it waits. -/
theorem leave (h : d.Open stays) : d.leave.Open stays where
  waits i hi := h.comes i (Nat.le_of_eq (Option.some.inj hi))
  comes i hi := h.comes i (Nat.le_trans (by simp) hi)

/-- Behind a loop there is only what comes next. -/
theorem endLoop (h : d.Open stays) : d.endLoop.Open stays where
  waits i hi := by simp at hi
  comes i hi := h.comes i (by rwa [here_endLoop] at hi)

/-- The jump behind a condition does not change in the body. -/
theorem body (h : d.Open stays) (hw : d.Waiting) {names : List String} {condition : Expr} :
    ((d.extend (condition.code names)).emit .branch).Open
      fun i => stays i ∧ i ≠ d.here + condition.size where
  waits i hi := by
    have hlt := hw.lt_here hi
    exact ⟨h.waits i hi, by omega⟩
  comes i hi := by
    rw [here_emit, here_extend, Expr.length_code] at hi
    exact ⟨h.comes i (by omega), by omega⟩

end Open

end Draft

/-! ### Finished code -/

/-- The operand that the jump of a `break` gets from the events behind it: only the loop that is
closed next aims it. -/
def Event.aim : List Event → Operand
  | .close after :: _ => .jump after
  | _ => .absent

/-- The jump of every `break` among the events has the operand that the next event gives it. -/
def Settled (code : Array Instruction) : List Event → Prop
  | [] => True
  | .leave i :: events =>
    code[i]? = some { op := .goto, operand := Event.aim events } ∧ Settled code events
  | .close _ :: events => Settled code events

/-- What holds of the jumps among the events holds of those among the later ones. -/
theorem Settled.of_append {code : Array Instruction} {first second : List Event}
    (h : Settled code (first ++ second)) : Settled code second := by
  induction first with
  | nil => exact h
  | cons event first ih =>
    cases event with
    | leave i => exact ih h.2
    | close after => exact ih h

/-- The jump of a `break` leads to the end of a loop, or it has no target. -/
theorem Settled.jump_at {code : Array Instruction} {events : List Event} {index : Nat}
    (h : Settled code events) (hindex : .leave index ∈ events) :
    (∃ after, .close after ∈ events ∧
      code[index]? = some { op := .goto, operand := .jump after }) ∨
      code[index]? = some { op := .goto } := by
  induction events with
  | nil => simp at hindex
  | cons event events ih =>
    cases event with
    | close after =>
      have hmem : .leave index ∈ events := by simpa using hindex
      exact (ih h hmem).imp_left fun ⟨target, htarget, hcode⟩ =>
        ⟨target, List.mem_cons_of_mem _ htarget, hcode⟩
    | leave first =>
      by_cases hmem : .leave index ∈ events
      · exact (ih h.2 hmem).imp_left fun ⟨target, htarget, hcode⟩ =>
          ⟨target, List.mem_cons_of_mem _ htarget, hcode⟩
      · obtain rfl : index = first := by simpa [hmem] using hindex
        have hcode := h.1
        match events with
        | [] | .leave _ :: _ => exact .inr hcode
        | .close after :: _ => exact .inl ⟨after, by simp, hcode⟩

/-- At the indices of a set, finished code has the instructions of a draft; the jump that waits may
still be aimed. -/
def Draft.Fixed (code : Array Instruction) (stays : Nat → Prop) (d : Draft) : Prop :=
  ∀ i, stays i → i < d.here → i ∉ d.pending → code[i]? = d.code[i]?

/-- In finished code, the jump that waits in a draft and all later ones have the operands that the
events to come give them. -/
def Draft.Foretold (code : Array Instruction) (events : List Event) (d : Draft) : Prop :=
  (∀ i ∈ d.pending, code[i]? = some { op := .goto, operand := Event.aim events }) ∧
    Settled code events

namespace Draft.Fixed

variable {code : Array Instruction} {stays : Nat → Prop} {d : Draft} {op : Opcode}
  {operand : Operand} {part : List Instruction}

/-- Code that agrees with a draft agrees with it before its last instruction. -/
theorem of_emit (h : (d.emit op operand).Fixed code stays) : d.Fixed code stays := by
  intro i hi hlt hpending
  rw [h i hi (by simp; omega) hpending, code_emit_of_lt hlt]

/-- An instruction is found in finished code where it was emitted. -/
theorem emitted (h : (d.emit op operand).Fixed code stays) (hw : d.Waiting)
    (hstays : stays d.here) : code[d.here]? = some { op, operand } := by
  rw [h d.here hstays (by simp) fun hmem => absurd (hw.lt_here hmem) (Nat.lt_irrefl _),
    code_emit_here]

/-- Code that agrees with a draft agrees with it before its last part. -/
theorem of_extend (h : (d.extend part).Fixed code stays) : d.Fixed code stays := by
  intro i hi hlt hpending
  rw [h i hi (by simp; omega) hpending, code_extend_of_lt hlt]

/-- A part is found in finished code where it was added. -/
theorem extended (h : (d.extend part).Fixed code stays) (hw : d.Waiting)
    (hstays : ∀ k, k < part.length → stays (d.here + k)) : CodeAt code d.here part := by
  intro k i hk
  have hlt : k < part.length := by
    rw [List.getElem?_eq_some_iff] at hk
    exact hk.1
  rw [h _ (hstays k hlt) (by simpa using hlt) fun hmem => ?_]
  · simpa [extend, here, Array.getElem?_append] using hk
  · have hbelow := hw.lt_here hmem
    omega

/-- Before a jump is aimed, a draft agrees with finished code everywhere else. -/
theorem of_aim {index target : Nat} (h : (d.aim index target).Fixed code stays) :
    d.Fixed code fun i => stays i ∧ i ≠ index := by
  rintro i ⟨hi, hne⟩ hlt hpending
  rw [h i hi (by simpa using hlt) hpending, code_aim_of_ne hne]

/-- A jump that was aimed has its target in finished code. -/
theorem aimed {index target : Nat} {i : Instruction} (h : (d.aim index target).Fixed code stays)
    (hstays : stays index) (hpending : index ∉ d.pending) (hindex : d.code[index]? = some i) :
    code[index]? = some (i.aimedAt target) := by
  have hlt : index < d.here := (Array.getElem?_eq_some_iff.mp hindex).1
  rw [h index hstays (by simpa using hlt) hpending, code_aim_self, hindex]
  rfl

/-- Code that agrees with a draft agrees with it before its last `break`. -/
theorem of_leave (h : d.leave.Fixed code stays) : d.Fixed code stays := by
  intro i hi hlt _
  have hne : i ≠ d.here := Nat.ne_of_lt hlt
  rw [h i hi (by simp; omega) (by simpa [leave] using hne.symm)]
  exact code_emit_of_lt hlt

/-- A jump that waits when another `break` comes stays without a target. -/
theorem superseded (h : d.leave.Fixed code stays) (hw : d.Waiting) {i : Nat}
    (hi : i ∈ d.pending) (hstays : stays i) : code[i]? = some { op := .goto } := by
  have hlt := hw.lt_here hi
  have hne : i ≠ d.here := Nat.ne_of_lt hlt
  rw [h i hstays (by simp; omega) (by simpa [leave] using hne.symm), ← hw i hi]
  exact code_emit_of_lt hlt

/-- Code that agrees with a draft agrees with it before the loop ended, but for the jump that
waits. -/
theorem of_endLoop (h : d.endLoop.Fixed code stays) : d.Fixed code stays := by
  intro i hi hlt hpending
  rw [h i hi (by simpa using hlt) (by simp), code_endLoop_of_notMem hpending]

/-- A jump that waits when a loop ends leaves that loop. -/
theorem closed (h : d.endLoop.Fixed code stays) (hw : d.Waiting) {i : Nat} (hi : i ∈ d.pending)
    (hstays : stays i) : code[i]? = some { op := .goto, operand := .jump d.here } := by
  have hcode := hw i hi
  rw [h i hstays (by simpa using hw.lt_here hi) (by simp)]
  unfold endLoop
  rw [Option.mem_def] at hi
  simp only [hi]
  change (d.aim i d.here).code[i]? = _
  rw [code_aim_self, hcode]
  rfl

/-- When a loop ends, the jump that waits has the operand that this event gives it. -/
theorem foretold_close {events : List Event} (h : d.endLoop.Fixed code stays) (hw : d.Waiting)
    (hwaits : ∀ i ∈ d.pending, stays i) (hlater : Settled code events) :
    d.Foretold code (.close d.here :: events) :=
  ⟨fun i hi => h.closed hw hi (hwaits i hi), hlater⟩

end Draft.Fixed

end FrameScript
