import Mathlib

/-!
# Comparing numbers

Two numbers are always comparable, in one direction or the other. What is not a number compares with
nothing.
-/

namespace FrameScript.Decimal

open Float.Model Float.Model.UnpackedFloat

/-! ### Numbers in parts -/

variable {u v : UnpackedFloat} {x y : Float}

/-- Only what is not a number has no place in the order. -/
theorem compare_isSome_iff : (u.compare v).isSome = true ↔ u.isNaN = false ∧ v.isNaN = false := by
  cases u with
  | notANumber => cases v <;> simp [UnpackedFloat.compare, UnpackedFloat.isNaN]
  | infinity s | zero s | finite s =>
    cases s <;> cases v with
    | notANumber => simp [UnpackedFloat.compare, UnpackedFloat.isNaN]
    | infinity s' | zero s' | finite s' =>
      cases s' <;> simp [UnpackedFloat.compare, UnpackedFloat.isNaN]

/-- Exponents and mantissas in the other order compare the other way round. -/
theorem swap_parts (m m' : Nat) (e e' : Int) :
    (compare e' e).then (compare m' m) = ((compare e e').then (compare m m')).swap := by
  rw [Ordering.swap_then, Int.compare_swap, Nat.compare_swap]

/-- Two numbers compare the other way round when they change places. -/
theorem compare_swap_eq : v.compare u = (u.compare v).map Ordering.swap := by
  cases u with
  | notANumber => cases v <;> rfl
  | infinity s | zero s =>
    cases s <;> cases v with
    | notANumber => rfl
    | infinity s' | zero s' | finite s' => cases s' <;> rfl
  | finite s m e =>
    cases v with
    | notANumber => cases s <;> rfl
    | infinity s' | zero s' => cases s <;> cases s' <;> rfl
    | finite s' m' e' =>
      have hswap := swap_parts m m' e e'
      cases s <;> cases s' <;> simp [UnpackedFloat.compare, hswap]

/-! ### Numbers -/

/-- A number is below another one if their parts compare so. -/
theorem lt_iff : x < y ↔ x.toModel.unpack.compare y.toModel.unpack = some .lt := by
  change Float.lt x y = true ↔ _
  rw [Float.lt, decide_eq_true_iff]
  change Float.Model.lt x.toModel y.toModel = true ↔ _
  rw [Float.Model.lt, UnpackedFloat.lt, beq_iff_eq]

/-- A number is at most another one if their parts compare as less or equal. -/
theorem le_iff : x ≤ y ↔
    ∃ order, x.toModel.unpack.compare y.toModel.unpack = some order ∧ order.isLE = true := by
  change Float.le x y = true ↔ _
  rw [Float.le, decide_eq_true_iff]
  change Float.Model.le x.toModel y.toModel = true ↔ _
  rw [Float.Model.le, UnpackedFloat.le, Option.any_eq_true]

/-- What is at most something is a number, and so is that. -/
theorem isNaN_eq_false_of_le (h : x ≤ y) : x.isNaN = false ∧ y.isNaN = false := by
  obtain ⟨order, horder, -⟩ := le_iff.mp h
  exact compare_isSome_iff.mp (Option.isSome_of_eq_some horder)

/-- What is below something is a number, and so is that. -/
theorem isNaN_eq_false_of_lt (h : x < y) : x.isNaN = false ∧ y.isNaN = false :=
  compare_isSome_iff.mp (Option.isSome_of_eq_some (lt_iff.mp h))

/-- Of two numbers, one is at most the other. -/
theorem le_of_not_lt (hx : x.isNaN = false) (hy : y.isNaN = false) (h : ¬ x < y) : y ≤ x := by
  obtain ⟨order, horder⟩ := Option.isSome_iff_exists.mp (compare_isSome_iff.mpr ⟨hx, hy⟩)
  have hback : y.toModel.unpack.compare x.toModel.unpack = some order.swap := by
    rw [compare_swap_eq, horder]
    rfl
  rw [lt_iff, horder] at h
  refine le_iff.mpr ⟨order.swap, hback, ?_⟩
  cases order with
  | lt => exact absurd rfl h
  | eq | gt => rfl

end FrameScript.Decimal
