import FrameScript.Proofs.Machine.Appending
import FrameScript.Proofs.Machine.Instructions

/-!
# Machines at other places

Apart from jumps, an instruction does not depend on the code that it is in, on its index, or on the
output that is already pending. It does the same for a machine at another place of other code, with
earlier output in front of its own.
-/

namespace FrameScript.Machine

/-- The machine at another place of other code, with earlier output in front of its own. -/
def relocate (code : Function → Function) (place : Function → Nat → Nat) (earlier : Output)
    (m : Machine) : Machine :=
  { m with
    function := code m.function
    ip := place m.function m.ip
    output := earlier ++ m.output }

/-- The same step of another machine. -/
def Step.map (φ : Machine → Machine) : Step → Step
  | .next m => .next (φ m)
  | .stop m => .stop (φ m)
  | .abort m fault => .abort (φ m) fault

section

variable {m : Machine} {φ : Machine → Machine}

/-- Another machine pops the same value if it has the same stack. -/
theorem pop_map {continuation continuation' : Value → Machine → Step}
    (hstack : (φ m).stack = m.stack)
    (h : ∀ value rest, continuation' value { φ m with stack := rest } =
      (continuation value { m with stack := rest }).map φ) :
    (φ m).pop continuation' = (m.pop continuation).map φ := by
  unfold pop
  rw [hstack]
  cases m.stack with
  | nil => rfl
  | cons value rest => exact h value rest

/-- Another machine combines the same numbers if it goes on in the same way. -/
theorem combine_map (hstack : ∀ stack, φ { m with stack } = { φ m with stack })
    (hpush : ∀ stack value, push { φ m with stack } value = (push { m with stack } value).map φ)
    (f : Float → Float → Value) : (φ m).combine f = (m.combine f).map φ := by
  have hsame (stack : List Value) : (φ { m with stack }).stack = stack := by rw [hstack]
  unfold combine popNumber
  refine pop_map (hsame m.stack) fun right rest => ?_
  cases right.number? with
  | none => exact congrArg (Step.abort · _) (hstack rest).symm
  | some y =>
    rw [← hstack rest]
    refine pop_map (hsame rest) fun left under => ?_
    rw [hstack rest]
    cases left.number? with
    | none => exact congrArg (Step.abort · _) (hstack under).symm
    | some x => exact hpush under (f x y)

end

section

variable {m : Machine} {code : Function → Function} {place : Function → Nat → Nat}
  {earlier : Output}

/-- A relocated machine pops the same value. -/
theorem pop_relocate {continuation continuation' : Value → Machine → Step}
    (h : ∀ value rest, continuation' value (relocate code place earlier { m with stack := rest }) =
      (continuation value { m with stack := rest }).map (relocate code place earlier)) :
    (relocate code place earlier m).pop continuation' =
      (m.pop continuation).map (relocate code place earlier) :=
  pop_map rfl h

variable (hnext : place m.function (m.ip + 1) = place m.function m.ip + 1)

include hnext

/-- A relocated machine pushes the same value. -/
theorem push_relocate (value : Value) : (relocate code place earlier m).push value =
    (m.push value).map (relocate code place earlier) := by
  simp only [push, advance, Step.map, relocate, hnext]

/-- A relocated machine combines the same two numbers. -/
theorem combine_relocate (f : Float → Float → Value) : (relocate code place earlier m).combine f =
    (m.combine f).map (relocate code place earlier) := by
  refine combine_map (fun _ => rfl) (fun stack value => ?_) f
  exact @push_relocate { m with stack } code place earlier hnext value

/-- A call adds the same output behind what was pending. -/
theorem call_relocate {r : Registry} (happends : r.OnlyAppends) (site : CallSite) :
    (relocate code place earlier m).call r site =
      (m.call r site).map (relocate code place earlier) := by
  by_cases hlow : m.stack.length < site.arity
  · have hlow' : (relocate code place earlier m).stack.length < site.arity := hlow
    rw [call, call, if_pos hlow, if_pos hlow']
    rfl
  · have hhigh : site.arity ≤ m.stack.length := Nat.le_of_not_lt hlow
    have hhigh' : site.arity ≤ (relocate code place earlier m).stack.length := hhigh
    rcases hcall : r.call site.name m.output (m.stack.take site.arity).reverse with ⟨output, result⟩
    have hcall' : r.call site.name (relocate code place earlier m).output
        ((relocate code place earlier m).stack.take site.arity).reverse =
          (earlier ++ output, result) := by
      have happend := happends.call site.name earlier m.output (m.stack.take site.arity).reverse
      rwa [hcall] at happend
    cases result with
    | error error =>
      rw [call_error hhigh hcall, call_error hhigh' hcall']
      rfl
    | ok value? =>
      cases hsite : site.producesValue with
      | false =>
        rw [call_dropped hhigh hcall hsite, call_dropped hhigh' hcall' hsite]
        simp only [Step.map, relocate, hnext]
      | true =>
        cases value? with
        | none =>
          rw [call_none hhigh hcall hsite, call_none hhigh' hcall' hsite]
          rfl
        | some value =>
          rw [call_value hhigh hcall hsite, call_value hhigh' hcall' hsite]
          simp only [Step.map, relocate, hnext]

end

end FrameScript.Machine
