import FrameScript.Proofs.Decimal.Packing

/-!
# Rounding to a binary number

A mantissa with two residual bits stands for every number between it and the next one, told apart by
how they compare with the middle. Shifting keeps what it stands for, so that rounding at the end
gives the nearest mantissa. Whatever lies in the span of a binary number is rounded to that number.
-/

namespace FrameScript.Decimal

open Float.Model Float.Model.UnpackedFloat

/-- A number lies where the residual bits behind a mantissa say. -/
def StandsFor (em : ExtendedMantissa) (x : ℚ) : Prop :=
  match em.roundBit, em.stickyBit with
  | false, false => x = em.mantissa
  | false, true => em.mantissa < x ∧ x < em.mantissa + 1 / 2
  | true, false => x = em.mantissa + 1 / 2
  | true, true => em.mantissa + 1 / 2 < x ∧ x < em.mantissa + 1

/-- A whole number is nearest to a number, and even if another one is as near. -/
structure Nearest (x : ℚ) (n : Nat) : Prop where
  low : n - 1 / 2 ≤ x
  high : x ≤ n + 1 / 2
  even : x = n - 1 / 2 ∨ x = n + 1 / 2 → n % 2 = 0

/-- No number has two nearest ones, since of two that are as near only one is even. -/
theorem Nearest.unique {x : ℚ} {n k : Nat} (h : Nearest x n) (h' : Nearest x k) : n = k := by
  have hle : (n : ℚ) ≤ k + 1 := by linarith [h.low, h'.high]
  have hge : (k : ℚ) ≤ n + 1 := by linarith [h'.low, h.high]
  have hle' : n ≤ k + 1 := by exact_mod_cast hle
  have hge' : k ≤ n + 1 := by exact_mod_cast hge
  rcases (by omega : n = k ∨ n = k + 1 ∨ k = n + 1) with heq | heq | heq
  · exact heq
  · -- a number half way between two neighbours is nearest to the even one
    have hcast : (n : ℚ) = k + 1 := by exact_mod_cast heq
    have hx : x = k + 1 / 2 := by linarith [h.low, h'.high]
    have hn := h.even (.inl (by linarith))
    have hk := h'.even (.inr hx)
    omega
  · have hcast : (k : ℚ) = n + 1 := by exact_mod_cast heq
    have hx : x = n + 1 / 2 := by linarith [h'.low, h.high]
    have hn := h.even (.inr hx)
    have hk := h'.even (.inl (by linarith))
    omega

namespace StandsFor

variable {em : ExtendedMantissa} {x : ℚ}

/-- A mantissa is the whole part of what it stands for with its residual bits. -/
theorem floor (h : StandsFor em x) : (em.mantissa : ℚ) ≤ x ∧ x < em.mantissa + 1 := by
  rcases em with ⟨m, r, s⟩
  cases r <;> cases s <;> simp only [StandsFor] at h ⊢ <;> constructor <;> linarith

/-- A mantissa without residual bits stands for itself. -/
theorem exact (m : Nat) : StandsFor (.ofMantissaAndAccuracy m .exact) m :=
  rfl

/-- A quotient is its whole part with the accuracy of the remainder. -/
theorem quotient (a : Nat) {b : Nat} (hb : 0 < b) :
    StandsFor (.ofMantissaAndAccuracy (a / b) (accuracyOfFraction (a % b) b)) ((a : ℚ) / b) := by
  have hb' : (0 : ℚ) < b := by exact_mod_cast hb
  have hdiv : (a : ℚ) = b * (a / b : Nat) + (a % b : Nat) := by
    exact_mod_cast (Nat.div_add_mod a b).symm
  have hlt : ((a % b : Nat) : ℚ) < b := by exact_mod_cast Nat.mod_lt a hb
  have hx : (a : ℚ) / b = (a / b : Nat) + ((a % b : Nat) : ℚ) / b := by
    rw [div_eq_iff (ne_of_gt hb'), add_mul, div_mul_cancel₀ _ (ne_of_gt hb')]
    linarith
  rw [hx]
  unfold accuracyOfFraction
  by_cases hzero : a % b = 0
  · rw [if_pos hzero, hzero]
    simp [StandsFor, ExtendedMantissa.ofMantissaAndAccuracy]
  · have hpos : (0 : ℚ) < ((a % b : Nat) : ℚ) / b :=
      div_pos (by exact_mod_cast Nat.pos_of_ne_zero hzero) hb'
    rw [if_neg hzero]
    cases hcompare : compare (2 * (a % b)) b with
    | lt =>
      have hhalf : ((2 * (a % b) : Nat) : ℚ) < b := by exact_mod_cast Nat.compare_eq_lt.mp hcompare
      have hfraction : ((a % b : Nat) : ℚ) / b < 1 / 2 := by
        rw [div_lt_iff₀ hb']
        push_cast at hhalf
        linarith
      change ((a / b : Nat) : ℚ) < _ ∧ _ < ((a / b : Nat) : ℚ) + 1 / 2
      exact ⟨by linarith, by linarith⟩
    | eq =>
      have hhalf : ((2 * (a % b) : Nat) : ℚ) = b := by exact_mod_cast Nat.compare_eq_eq.mp hcompare
      have hfraction : ((a % b : Nat) : ℚ) / b = 1 / 2 := by
        rw [div_eq_iff (ne_of_gt hb')]
        push_cast at hhalf
        linarith
      rw [hfraction]
      rfl
    | gt =>
      have hhalf : (b : ℚ) < (2 * (a % b) : Nat) := by exact_mod_cast Nat.compare_eq_gt.mp hcompare
      have hfraction : 1 / 2 < ((a % b : Nat) : ℚ) / b := by
        rw [lt_div_iff₀ hb']
        push_cast at hhalf
        linarith
      have hone : ((a % b : Nat) : ℚ) / b < 1 := by rwa [div_lt_one hb']
      change ((a / b : Nat) : ℚ) + 1 / 2 < _ ∧ _ < ((a / b : Nat) : ℚ) + 1
      exact ⟨by linarith, by linarith⟩

/-- Shifting by one bit halves what a mantissa stands for. -/
theorem shiftRightOne (h : StandsFor em x) : StandsFor em.shiftRightOne (x / 2) := by
  rcases em with ⟨m, r, s⟩
  have hdiv : (m : ℚ) = 2 * (m / 2 : Nat) + (m % 2 : Nat) := by
    exact_mod_cast (Nat.div_add_mod m 2).symm
  rcases Nat.mod_two_eq_zero_or_one m with hm | hm
  · rw [hm] at hdiv
    cases r <;> cases s <;> simp [StandsFor, ExtendedMantissa.shiftRightOne, hm] at h ⊢
    · linarith
    · constructor <;> linarith
    · constructor <;> linarith
    · constructor <;> linarith
  · rw [hm] at hdiv
    cases r <;> cases s <;> simp [StandsFor, ExtendedMantissa.shiftRightOne, hm] at h ⊢
    · linarith
    · constructor <;> linarith
    · constructor <;> linarith
    · constructor <;> linarith

/-- Shifting divides by a power of two. -/
theorem shiftRight (h : StandsFor em x) (n : Nat) : StandsFor (em >>> n) (x / 2 ^ n) := by
  change StandsFor (n.repeat ExtendedMantissa.shiftRightOne em) _
  induction n with
  | zero => simpa [Nat.repeat] using h
  | succ n ih =>
    rw [Nat.repeat, pow_succ, ← div_div]
    exact ih.shiftRightOne

/-- The rounded mantissa is nearest to what the mantissa stands for. -/
theorem nearest (h : StandsFor em x) : Nearest x em.roundedMantissa := by
  rcases em with ⟨m, r, s⟩
  cases r <;> cases s <;> simp only [StandsFor] at h
  · change Nearest x m
    exact ⟨by linarith, by linarith, fun hx => by rcases hx with hx | hx <;> linarith⟩
  · change Nearest x m
    exact ⟨by linarith, by linarith, fun hx => by rcases hx with hx | hx <;> linarith⟩
  · change Nearest x (m + m % 2)
    rcases Nat.mod_two_eq_zero_or_one m with hm | hm
    · rw [hm]
      exact ⟨by push_cast; linarith, by push_cast; linarith, fun _ => hm⟩
    · rw [hm]
      exact ⟨by push_cast; linarith, by push_cast; linarith, fun _ => by omega⟩
  · change Nearest x (m + 1)
    refine ⟨by push_cast; linarith, by push_cast; linarith, fun hx => ?_⟩
    push_cast at hx
    rcases hx with hx | hx <;> linarith

end StandsFor

end FrameScript.Decimal
