import FrameScript.Registry.Standard
import Mathlib.Logic.Basic

/-!
# Builtins that only append

A builtin need not look at the pending output. If it only adds to it, and if what it adds and what
it returns depend on its arguments alone, then output that was taken away before is not missed.
-/

namespace FrameScript

/-- Pending output with more behind it. -/
instance : Append Output where
  append first second := {
    console := first.console ++ second.console
    triangles := first.triangles ++ second.triangles }

namespace Output

/-- Output in a row prints first what comes first. -/
@[simp] theorem console_append (first second : Output) :
    (first ++ second).console = first.console ++ second.console :=
  rfl

/-- Output in a row draws first what comes first. -/
@[simp] theorem triangles_append (first second : Output) :
    (first ++ second).triangles = first.triangles ++ second.triangles :=
  rfl

/-- No further output changes nothing. -/
theorem append_empty (output : Output) : output ++ ({} : Output) = output := by
  cases output
  exact congrArg₂ mk Array.append_empty Array.append_empty

/-- No earlier output changes nothing. -/
theorem empty_append (output : Output) : ({} : Output) ++ output = output := by
  cases output
  exact congrArg₂ mk Array.empty_append Array.empty_append

/-- Output in a row may be grouped in any way. -/
theorem append_assoc (first second third : Output) :
    first ++ second ++ third = first ++ (second ++ third) :=
  congrArg₂ mk Array.append_assoc Array.append_assoc

end Output

/-- What a builtin adds to the output and what it returns depend on its arguments alone. -/
def Action.OnlyAppends (action : Action) : Prop :=
  ∀ args, ∃ piece result, ∀ output, action output args = (output ++ piece, result)

/-- All builtins only append to the output and depend on their arguments alone. -/
def Registry.OnlyAppends (r : Registry) : Prop :=
  ∀ b ∈ r.builtins, b.action.OnlyAppends

/-- A call by name adds the same and returns the same whatever output was there before. -/
theorem Registry.OnlyAppends.call {r : Registry} (h : r.OnlyAppends) (name : String)
    (taken output : Output) (args : List Value) :
    r.call name (taken ++ output) args =
      (taken ++ (r.call name output args).1, (r.call name output args).2) := by
  unfold Registry.call
  cases hfind : r.find? name with
  | none => rfl
  | some b =>
    obtain ⟨piece, result, haction⟩ := h b (List.mem_of_find?_eq_some hfind) args
    dsimp only
    rw [haction, haction, Output.append_assoc]

/-! ### The standard builtins -/

/-- The standard registry holds the standard builtins only. -/
theorem Registry.mem_standard {b : Builtin} (h : b ∈ Registry.standard.builtins) :
    b ∈ Builtin.standard := by
  have hall : Registry.standard.builtins = Builtin.standard.reverse := rfl
  rwa [hall, List.mem_reverse] at h

namespace Builtin

/-- A builtin that only computes a result adds nothing. -/
theorem onlyAppends_of_result {action : Action}
    {result : List Value → Except ScriptError (Option Value)}
    (h : ∀ output args, action output args = (output, result args)) : action.OnlyAppends :=
  fun args => ⟨{}, result args, fun output => by rw [h, Output.append_empty]⟩

/-- `Print` adds one line, or nothing if it has no argument. -/
theorem print_onlyAppends : print.action.OnlyAppends := by
  rintro (_ | ⟨value, args⟩)
  · refine ⟨{}, .error (.fault .nothingToPrint), fun output => ?_⟩
    rw [Output.append_empty]
    rfl
  · refine ⟨{ console := #[value.text] }, .ok none, fun output => Prod.ext ?_ rfl⟩
    exact congrArg₂ Output.mk Array.push_eq_append Array.append_empty.symm

/-- `DrawTriangle` adds one triangle, or nothing if an argument is wrong. -/
theorem drawTriangle_onlyAppends : drawTriangle.action.OnlyAppends := by
  intro args
  simp only [drawTriangle]
  cases triangleOf args with
  | error error => exact ⟨{}, .error error, fun output => by rw [Output.append_empty]⟩
  | ok triangle =>
    refine ⟨{ triangles := #[triangle] }, .ok none, fun output => Prod.ext ?_ rfl⟩
    exact congrArg₂ Output.mk Array.append_empty.symm Array.push_eq_append

/-- The standard builtins only append. -/
theorem onlyAppends_of_mem_standard {b : Builtin} (h : b ∈ standard) : b.action.OnlyAppends := by
  simp only [standard, List.mem_cons, List.not_mem_nil, or_false] at h
  rcases h with rfl | rfl | rfl | rfl | rfl | rfl | rfl
  · exact print_onlyAppends
  · exact drawTriangle_onlyAppends
  all_goals exact onlyAppends_of_result fun _ _ => rfl

end Builtin

/-- The standard builtins only append. -/
theorem Registry.standard_onlyAppends : Registry.standard.OnlyAppends :=
  fun _ hb => Builtin.onlyAppends_of_mem_standard (mem_standard hb)

end FrameScript
