import FrameScript.Proofs.Decimal.Comparison
import FrameScript.Proofs.Machine.Faults
import FrameScript.Proofs.Simulation.Partition

/-!
# Drawn colours

A triangle comes from a call with six numbers, and its colour from the last three of them. A
component is moved into the displayable range if it is a number. What is not a number stays as it
is, and reaches the host.
-/

namespace FrameScript

/-! ### Displayable components -/

/-- A component is in the displayable range. -/
def Color.Displayable (component : Float) : Prop :=
  0.0 ≤ component ∧ component ≤ 1.0

instance (component : Float) : Decidable (Color.Displayable component) :=
  inferInstanceAs (Decidable (_ ∧ _))

/-- Every number is moved into the displayable range, and nothing else is. -/
theorem Color.displayable_clampComponent_iff {x : Float} :
    Displayable (clampComponent x) ↔ x.isNaN = false := by
  unfold clampComponent
  split
  · next hlow =>
    have hzero : Displayable 0.0 := by decide
    exact iff_of_true hzero (Decimal.isNaN_eq_false_of_lt hlow).1
  · next hlow =>
    split
    · next hhigh =>
      have hone : Displayable 1.0 := by decide
      exact iff_of_true hone (Decimal.isNaN_eq_false_of_lt hhigh).2
    · next hhigh =>
      constructor
      · intro hdisplayable
        exact (Decimal.isNaN_eq_false_of_le hdisplayable.1).2
      · intro hnumber
        exact ⟨Decimal.le_of_not_lt hnumber (by decide) hlow,
          Decimal.le_of_not_lt (by decide) hnumber hhigh⟩

/-! ### What a call of a builtin draws -/

namespace Builtin

variable {args : List Value} {triangle : Triangle}

/-- A triangle is made of six numbers. -/
theorem triangleOf_eq_ok_iff : triangleOf args = .ok triangle ↔
    ∃ x y radius red green blue : Float,
      args.take 6 = [x, y, radius, red, green, blue].map Value.number ∧
      triangle = { x, y, radius, color := Color.clamped { red, green, blue } } := by
  simp only [triangleOf, bind_eq_ok, pure_eq_ok, numberArgument_eq_ok_iff]
  constructor
  · rintro ⟨x, hx, y, hy, radius, hradius, red, hred, green, hgreen, blue, hblue, rfl⟩
    refine ⟨x, y, radius, red, green, blue, List.ext_getElem? fun position => ?_, rfl⟩
    rw [List.getElem?_take]
    rcases position with _ | _ | _ | _ | _ | _ | position
    · exact hx
    · exact hy
    · exact hradius
    · exact hred
    · exact hgreen
    · exact hblue
    · rw [if_neg (by omega)]
      rfl
  · rintro ⟨x, y, radius, red, green, blue, hargs, rfl⟩
    have hat (position : Nat) (hlt : position < 6) :
        args[position]? = ([x, y, radius, red, green, blue].map Value.number)[position]? := by
      rw [← hargs, List.getElem?_take_of_lt hlt]
    exact ⟨x, hat 0 (by decide), y, hat 1 (by decide), radius, hat 2 (by decide), red,
      hat 3 (by decide), green, hat 4 (by decide), blue, hat 5 (by decide), rfl⟩

end Builtin

/-- A call of a standard builtin adds no triangle but the one that its six numbers describe. -/
theorem Registry.mem_triangles_call {name : String} {output : Output} {args : List Value}
    {triangle : Triangle}
    (h : triangle ∈ (Registry.standard.call name output args).1.triangles) :
    triangle ∈ output.triangles ∨
      name = Builtin.drawTriangle.name ∧ Builtin.triangleOf args = .ok triangle := by
  unfold call at h
  cases hfind : Registry.standard.find? name with
  | none =>
    rw [hfind] at h
    exact .inl h
  | some b =>
    rw [hfind] at h
    dsimp only at h
    have hname := name_of_find? hfind
    have hmem : b ∈ Builtin.standard := mem_standard (List.mem_of_find?_eq_some hfind)
    simp only [Builtin.standard, List.mem_cons, List.not_mem_nil, or_false] at hmem
    rcases hmem with rfl | rfl | rfl | rfl | rfl | rfl | rfl
    · cases args with
      | nil => exact .inl h
      | cons value args => exact .inl h
    · simp only [Builtin.drawTriangle] at h
      cases htriangle : Builtin.triangleOf args with
      | error error =>
        rw [htriangle] at h
        exact .inl h
      | ok drawn =>
        rw [htriangle] at h
        rcases Array.mem_push.mp h with hbefore | rfl
        · exact .inl hbefore
        · exact .inr ⟨hname.symm, rfl⟩
    all_goals exact .inl h

namespace Machine

/-! ### What an instruction adds to the output -/

/-- The machine behind a step. -/
def Step.machine : Step → Machine
  | .next m | .stop m | .abort m _ => m

section

variable {m : Machine} {r : Registry}

/-- Popping adds nothing to the output, if what follows adds nothing. -/
theorem pop_output {continuation : Value → Machine → Step}
    (h : ∀ value rest, (continuation value { m with stack := rest }).machine.output = m.output) :
    (m.pop continuation).machine.output = m.output := by
  unfold pop
  split
  · rfl
  · exact h _ _

/-- Combining two numbers adds nothing to the output. -/
theorem combine_output (f : Float → Float → Value) :
    (m.combine f).machine.output = m.output := by
  unfold combine popNumber
  refine pop_output fun right rest => ?_
  dsimp only
  split
  · rfl
  · refine (pop_output fun left rest => ?_).trans rfl
    dsimp only
    split
    · rfl
    · rfl

/-- A jump adds nothing to the output. -/
theorem jump_output (i : Instruction) : (m.jump i).machine.output = m.output := by
  unfold jump
  split <;> rfl

/-- A call that comes to its builtin leaves what the builtin makes of the output. -/
theorem call_output (site : CallSite) : (m.call r site).machine.output = m.output ∨
    site.arity ≤ m.stack.length ∧ (m.call r site).machine.output =
      (r.call site.name m.output (m.stack.take site.arity).reverse).1 := by
  by_cases hlow : m.stack.length < site.arity
  · rw [call, if_pos hlow]
    exact .inl rfl
  · have henough : site.arity ≤ m.stack.length := Nat.le_of_not_lt hlow
    refine .inr ⟨henough, ?_⟩
    rcases hcall : r.call site.name m.output (m.stack.take site.arity).reverse with
      ⟨output, error | value?⟩
    · rw [call_error henough hcall]
      rfl
    · cases hsite : site.producesValue with
      | false =>
        rw [call_dropped henough hcall hsite]
        rfl
      | true =>
        cases value? with
        | none =>
          rw [call_none henough hcall hsite]
          rfl
        | some value =>
          rw [call_value henough hcall hsite]
          rfl

/-- Only a call changes the output. -/
theorem perform_output (i : Instruction) : (m.perform r i).machine.output = m.output ∨
    ∃ site, i = ⟨.call, .callee site⟩ ∧ site.arity ≤ m.stack.length ∧
      (m.perform r i).machine.output =
        (r.call site.name m.output (m.stack.take site.arity).reverse).1 := by
  obtain ⟨op, operand⟩ := i
  cases op with
  | call =>
    cases operand with
    | callee site =>
      rcases m.call_output (r := r) site with hsame | ⟨henough, hcall⟩
      · exact .inl hsame
      · exact .inr ⟨site, rfl, henough, hcall⟩
    | _ => exact .inl rfl
  | add | sub | mul | div | less | greater => exact .inl (combine_output _)
  | goto => exact .inl (jump_output _)
  | suspend | finish => exact .inl rfl
  | constNumber | constBool => exact .inl (by cases operand <;> rfl)
  | getLocal =>
    left
    unfold perform
    dsimp only
    split <;> rfl
  | setLocal =>
    left
    unfold perform
    dsimp only
    split
    · rfl
    · exact pop_output fun _ _ => rfl
  | branch =>
    left
    unfold perform
    refine pop_output fun value rest => ?_
    split
    · rfl
    · exact jump_output _
    · rfl

end

/-! ### What a run draws -/

/-- A machine is about to draw with six numbers, the last of them on top of the stack but for
arguments that a call passes too many. -/
def Draws (m : Machine) (x y radius red green blue : Float) : Prop :=
  ∃ site, m.function.instructions[m.ip]? = some ⟨.call, .callee site⟩ ∧
    site.name = "DrawTriangle" ∧ site.arity ≤ m.stack.length ∧
    (m.stack.take site.arity).reverse.take 6 =
      [x, y, radius, red, green, blue].map Value.number

/-- A triangle was drawn in a run of a function, by a machine that was about to draw it. -/
def Drawn (f : Function) (m₀ : Machine) (triangle : Triangle) : Prop :=
  ∃ m x y radius red green blue, Reaches .standard f m₀ m ∧ m.Draws x y radius red green blue ∧
    triangle = { x, y, radius, color := Color.clamped { red, green, blue } }

variable {m m₀ m' : Machine} {f : Function} {triangle : Triangle} {r : Registry} {fuel n : Nat}

/-- A step of a run leaves the triangles that were there and those that it draws. -/
theorem Reaches.drawn_of_step (h : Reaches .standard f m₀ m) {output : Output}
    (hstep : (m.step .standard).machine.output = output) (htriangle : triangle ∈ output.triangles) :
    triangle ∈ m.output.triangles ∨ Drawn f m₀ triangle := by
  subst hstep
  cases hi : m.function.instructions[m.ip]? with
  | none =>
    rw [step, hi] at htriangle
    exact .inl htriangle
  | some i =>
    rw [step_eq hi] at htriangle
    rcases m.perform_output (r := .standard) i with hsame | ⟨site, rfl, henough, hcall⟩
    · rw [hsame] at htriangle
      exact .inl htriangle
    · rw [hcall] at htriangle
      rcases Registry.mem_triangles_call htriangle with hbefore | ⟨hname, hdrawn⟩
      · exact .inl hbefore
      · obtain ⟨x, y, radius, red, green, blue, hargs, rfl⟩ :=
          Builtin.triangleOf_eq_ok_iff.mp hdrawn
        exact .inr ⟨m, x, y, radius, red, green, blue, h, ⟨site, hi, hname, henough, hargs⟩, rfl⟩

/-- Every triangle of a machine was drawn on the way to it, if none was there at first. -/
theorem Reaches.drawn (h : Reaches .standard f m₀ m) (hnone : m₀.output.triangles = #[]) :
    ∀ triangle ∈ m.output.triangles, Drawn f m₀ triangle := by
  induction h with
  | start =>
    intro triangle htriangle
    have hempty : triangle ∈ m₀.output.triangles := htriangle
    simp [hnone] at hempty
  | next before hstep ih =>
    intro triangle htriangle
    exact (before.drawn_of_step (by rw [hstep, Step.machine]) htriangle).elim (ih triangle) id
  | resume before hstep _ ih =>
    intro triangle htriangle
    exact (before.drawn_of_step (by rw [hstep, Step.machine]) htriangle).elim (ih triangle) id

/-- Every call of a run ends where a machine of the run ends, perhaps in an earlier call. -/
theorem exists_ends_of_nthStop? {stop : Stop} (h : m₀.nthStop? r fuel f n = some stop) :
    ∃ m earlier, Reaches r f m₀ m ∧ Ends r m earlier ∧ stop.2 = earlier.2 := by
  induction n generalizing stop with
  | zero =>
    obtain ⟨k, m, hsteps, hends⟩ := exists_of_execute h
    exact ⟨m, stop, Reaches.start.steps hsteps, hends, rfl⟩
  | succ n ih =>
    obtain ⟨before, hbefore, hresume⟩ := Option.bind_eq_some_iff.mp h
    obtain ⟨m, earlier, hreaches, hends, hsame⟩ := ih hbefore
    rcases hends.endsAs.status with hsuspended | hfinished
    · have hstep : m.step r = .stop earlier.2 := by
        cases hends with
        | stop hstep => exact hstep
        | abort hstep => cases hsuspended
      rw [hsame, resume_of_suspended hsuspended] at hresume
      obtain ⟨k, m', hsteps, hends'⟩ := exists_of_execute hresume
      exact ⟨m', stop, (hreaches.resume hstep hsuspended).steps hsteps, hends', rfl⟩
    · rw [hsame, resume_of_rests (.inr hfinished)] at hresume
      cases hresume
      exact ⟨m, earlier, hreaches, hends, rfl⟩

/-- Every triangle at the end of a call was drawn by the run, if none was there at first. -/
theorem drawn_of_nthStop? {stop : Stop} (h : m₀.nthStop? .standard fuel f n = some stop)
    (hnone : m₀.output.triangles = #[]) :
    ∀ triangle ∈ stop.2.output.triangles, Drawn f m₀ triangle := by
  obtain ⟨m, earlier, hreaches, hends, hsame⟩ := exists_ends_of_nthStop? h
  intro triangle htriangle
  have hstep : (m.step .standard).machine.output = earlier.2.output := by
    cases hends with
    | stop hstep => rw [hstep, Step.machine]
    | abort hstep => rw [hstep, Step.machine]
  rw [hsame] at htriangle
  exact (hreaches.drawn_of_step hstep htriangle).elim (hreaches.drawn hnone triangle) id

end Machine

/-- Whatever a host with the standard builtins plays, a triangle of a frame was drawn with six
numbers, and a component of its colour is displayable exactly if it was drawn with a number. -/
theorem Host.displayable_iff_of_play {host last : Host} {fuel n : Nat} {f : Function}
    {frames : List Frame} (hregistry : host.registry = .standard)
    (hplay : host.play fuel f n = some (frames, last)) :
    ∀ frame ∈ frames, ∀ triangle ∈ frame.triangles,
      ∃ m x y radius red green blue,
        Machine.Reaches .standard f {} m ∧ m.Draws x y radius red green blue ∧
        triangle = { x, y, radius, color := Color.clamped { red, green, blue } } ∧
        (Color.Displayable triangle.color.red ↔ red.isNaN = false) ∧
        (Color.Displayable triangle.color.green ↔ green.isNaN = false) ∧
        (Color.Displayable triangle.color.blue ↔ blue.isNaN = false) := by
  intro frame hframe triangle htriangle
  have happends : host.registry.OnlyAppends := hregistry ▸ Registry.standard_onlyAppends
  obtain ⟨stop, hcalls⟩ := exists_showsCalls happends hplay
  have hreturns := hcalls.returns
  rw [hregistry, Nat.zero_add] at hreturns
  have hshown : triangle ∈ stop.2.output.triangles := by
    rw [← Array.mem_toList_iff, hcalls.triangles]
    exact List.mem_append_right _ (List.mem_flatMap.mpr ⟨frame, hframe, htriangle⟩)
  obtain ⟨m, x, y, radius, red, green, blue, hreaches, hdraws, rfl⟩ :=
    Machine.drawn_of_nthStop? hreturns rfl triangle hshown
  exact ⟨m, x, y, radius, red, green, blue, hreaches, hdraws, rfl,
    Color.displayable_clampComponent_iff, Color.displayable_clampComponent_iff,
    Color.displayable_clampComponent_iff⟩

/-- A program that draws once in colours out of range, and once in one that is no number. -/
def Program.garish : Program where
  statements := [
    .call "DrawTriangle" [.number 0.0, .number 0.0, .number 1.0, .number 2.0,
      .binary (.number 0.0) .sub (.number 3.0), .number 0.5],
    .suspend,
    .call "DrawTriangle" [.number 0.0, .number 0.0, .number 1.0,
      .binary (.number 0.0) .div (.number 0.0), .number 0.0, .number 0.0]]

/-- The first triangle that the program draws is displayable, and the second is not. -/
theorem Host.displayable_iff_of_play_garish :
    ∃ f, Program.garish.compile .standard = .ok f ∧
      ∃ frames last, play { registry := .standard } 40 f 1 = some (frames, last) ∧
        frames.map (fun frame => frame.triangles.map fun triangle =>
          decide (Color.Displayable triangle.color.red)) = [[true], [false]] ∧
        ∀ frame ∈ frames, ∀ triangle ∈ frame.triangles, ∃ m x y radius red green blue,
          Machine.Reaches .standard f {} m ∧ m.Draws x y radius red green blue ∧
          (Color.Displayable triangle.color.red ↔ red.isNaN = false) := by
  obtain ⟨f, hcompile, frames, last, hplay, hshown⟩ :
      ∃ f, Program.garish.compile .standard = .ok f ∧
      ∃ frames last, play { registry := .standard } 40 f 1 = some (frames, last) ∧
        frames.map (fun frame => frame.triangles.map fun triangle =>
          decide (Color.Displayable triangle.color.red)) = [[true], [false]] :=
    ⟨_, rfl, _, _, rfl, rfl⟩
  refine ⟨f, hcompile, frames, last, hplay, hshown, fun frame hframe triangle htriangle => ?_⟩
  obtain ⟨m, x, y, radius, red, green, blue, hreaches, hdraws, -, hred, -⟩ :=
    displayable_iff_of_play rfl hplay frame hframe triangle htriangle
  exact ⟨m, x, y, radius, red, green, blue, hreaches, hdraws, hred⟩

/-- A component that is no number reaches the host. -/
theorem Host.not_displayable_garish :
    ¬ ∀ (p : Program) (f : Function), p.compile .standard = .ok f →
      ∀ fuel n frames last, play { registry := .standard } fuel f n = some (frames, last) →
        ∀ frame ∈ frames, ∀ triangle ∈ frame.triangles, Color.Displayable triangle.color.red ∧
          Color.Displayable triangle.color.green ∧ Color.Displayable triangle.color.blue := by
  intro hall
  obtain ⟨f, hcompile, frames, last, hplay, hshown⟩ :
      ∃ f, Program.garish.compile .standard = .ok f ∧
      ∃ frames last, play { registry := .standard } 40 f 1 = some (frames, last) ∧
        (frames.flatMap (·.triangles)).any (fun triangle =>
          !decide (Color.Displayable triangle.color.red)) = true := ⟨_, rfl, _, _, rfl, rfl⟩
  obtain ⟨triangle, htriangle, hred⟩ := List.any_eq_true.mp hshown
  obtain ⟨frame, hframe, htriangle⟩ := List.mem_flatMap.mp htriangle
  obtain ⟨hdisplayable, -⟩ :=
    hall _ f hcompile 40 1 frames last hplay frame hframe triangle htriangle
  simp [hdisplayable] at hred

end FrameScript
