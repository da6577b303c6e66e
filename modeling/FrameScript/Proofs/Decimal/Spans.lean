import FrameScript.Proofs.Decimal.Rounding

/-!
# Spans and rounding

Whatever lies in the span of a binary number is rounded to that number, also where the span reaches
below a power of two and the grid there is finer.
-/

namespace FrameScript.Decimal

open Float.Model Float.Model.UnpackedFloat

/-- A number is among those that round to `m * 2 ^ e`. -/
def InSpan (m : Nat) (e : Int) (x : ℚ) : Prop :=
  let span := Span.of m e
  if span.closed then span.low * (2 : ℚ) ^ (e - 2) ≤ x ∧ x ≤ span.high * (2 : ℚ) ^ (e - 2)
  else span.low * (2 : ℚ) ^ (e - 2) < x ∧ x < span.high * (2 : ℚ) ^ (e - 2)

namespace InSpan

variable {m : Nat} {e : Int} {x : ℚ}

/-- Spans are measured in quarters of the last binary place. -/
theorem quarter_eq : (2 : ℚ) ^ (e - 2) = 2 ^ e / 4 := by
  rw [zpow_sub₀ (by norm_num)]
  norm_num

/-- The span ends half way to the next binary number. -/
theorem high_eq : (Span.of m e).high * (2 : ℚ) ^ (e - 2) = (m + 1 / 2) * 2 ^ e := by
  rw [quarter_eq, Span.of]
  push_cast
  ring

/-- The span starts half way from the binary number below. -/
theorem low_eq (hpos : 0 < m) : (Span.of m e).low * (2 : ℚ) ^ (e - 2) =
    (if m = 2 ^ 52 ∧ -1074 < e then (m : ℚ) - 1 / 4 else (m : ℚ) - 1 / 2) * 2 ^ e := by
  have hshift : (1 : Nat) <<< 52 = 2 ^ 52 := rfl
  rw [quarter_eq, Span.of]
  dsimp only
  rw [hshift]
  by_cases hdense : m = 2 ^ 52 ∧ -1074 < e
  · have hcast : ((4 * m - 1 : Nat) : ℚ) = 4 * m - 1 := by
      rw [Nat.cast_sub (by omega)]
      push_cast
      rfl
    rw [if_pos hdense, if_pos hdense, hcast]
    ring
  · have hcast : ((4 * m - 2 : Nat) : ℚ) = 4 * m - 2 := by
      rw [Nat.cast_sub (by omega)]
      push_cast
      rfl
    rw [if_neg hdense, if_neg hdense, hcast]
    ring

/-- Nothing in a span is more than half a place above the binary number. -/
theorem le_high (h : InSpan m e x) : x ≤ (m + 1 / 2) * (2 : ℚ) ^ e := by
  unfold InSpan at h
  dsimp only at h
  rw [high_eq] at h
  split at h
  · exact h.2
  · exact h.2.le

/-- Nothing in a span is below its low end. -/
theorem low_le (h : InSpan m e x) : (Span.of m e).low * (2 : ℚ) ^ (e - 2) ≤ x := by
  unfold InSpan at h
  dsimp only at h
  split at h
  · exact h.1
  · exact h.1.le

/-- The ends belong to the span of an even mantissa only. -/
theorem even_of_eq (h : InSpan m e x) (hx : x = (Span.of m e).low * (2 : ℚ) ^ (e - 2) ∨
    x = (m + 1 / 2) * (2 : ℚ) ^ e) : m % 2 = 0 := by
  unfold InSpan at h
  dsimp only at h
  rw [high_eq] at h
  split at h
  · next hclosed => simpa [Span.of] using hclosed
  · exfalso
    rcases hx with hx | hx
    · exact absurd hx h.1.ne'
    · exact absurd hx h.2.ne

/-- Nothing in a span is more than half a place below the binary number. -/
theorem half_le (h : InSpan m e x) (hpos : 0 < m) : (m - 1 / 2) * (2 : ℚ) ^ e ≤ x := by
  have hlow := h.low_le
  have hpower : (0 : ℚ) < 2 ^ e := by positivity
  rw [low_eq hpos] at hlow
  split at hlow
  · have hle : ((m : ℚ) - 1 / 2) * 2 ^ e ≤ (m - 1 / 4) * 2 ^ e := by
      apply mul_le_mul_of_nonneg_right _ hpower.le
      linarith
    linarith
  · exact hlow

/-- Nothing in the span of a legal mantissa has one more bit before the point. -/
theorem lt_top (h : InSpan m e x) (hlegal : Legal m e) : x < 2 ^ 53 * (2 : ℚ) ^ e := by
  have hhigh := h.le_high
  have hpower : (0 : ℚ) < 2 ^ e := by positivity
  have hm : (m : ℚ) + 1 ≤ 2 ^ 53 := by exact_mod_cast hlegal.lt
  have hlt : ((m : ℚ) + 1 / 2) * 2 ^ e < 2 ^ 53 * 2 ^ e := by
    apply mul_lt_mul_of_pos_right _ hpower
    linarith
  linarith

/-- On the grid of the binary number itself, its mantissa is nearest to all of the span. -/
theorem nearest (h : InSpan m e x) (hlegal : Legal m e) : Nearest (x / 2 ^ e) m := by
  have hpower : (0 : ℚ) < 2 ^ e := by positivity
  refine ⟨?_, ?_, fun htie => ?_⟩
  · rw [le_div_iff₀ hpower]
    exact h.half_le hlegal.pos
  · rw [div_le_iff₀ hpower]
    exact h.le_high
  · refine h.even_of_eq ?_
    rw [div_eq_iff (ne_of_gt hpower), div_eq_iff (ne_of_gt hpower)] at htie
    rcases htie with htie | htie
    · left
      rw [low_eq hlegal.pos]
      split
      · next hdense =>
        -- half a place below a power of two is outside the span
        have hlow := h.low_le
        rw [low_eq hlegal.pos, if_pos hdense] at hlow
        have hlt : ((m : ℚ) - 1 / 2) * 2 ^ e < (m - 1 / 4) * 2 ^ e := by
          apply mul_lt_mul_of_pos_right _ hpower
          linarith
        linarith
      · exact htie
    · exact .inr htie

/-- Below a power of two, the next finer grid holds, and there the power of two is nearest. -/
theorem nearest_below (h : InSpan m e x) (hlegal : Legal m e) (hx : x < 2 ^ 52 * (2 : ℚ) ^ e)
    (he : -1074 < e) :
    m = 2 ^ 52 ∧ 2 ^ 51 * (2 : ℚ) ^ e ≤ x ∧ Nearest (x / 2 ^ (e - 1)) (2 ^ 53) := by
  have hpower : (0 : ℚ) < 2 ^ e := by positivity
  have hnormal : 2 ^ 52 ≤ m := by
    by_contra hlt
    have := hlegal.subnormal (by omega)
    omega
  have hm : m = 2 ^ 52 := by
    by_contra hne
    have hgt : (2 : ℚ) ^ 52 + 1 ≤ m := by exact_mod_cast (by omega : 2 ^ 52 + 1 ≤ m)
    have hle : (2 : ℚ) ^ 52 * 2 ^ e ≤ (m - 1 / 2) * 2 ^ e := by
      apply mul_le_mul_of_nonneg_right _ hpower.le
      linarith
    linarith [h.half_le hlegal.pos]
  have hlow := h.low_le
  rw [low_eq hlegal.pos, if_pos ⟨hm, he⟩, hm] at hlow
  have hhalf : (2 : ℚ) ^ (e - 1) = 2 ^ e / 2 := by
    rw [zpow_sub₀ (by norm_num)]
    norm_num
  push_cast at hlow
  refine ⟨hm, by linarith, ?_, ?_, fun _ => by decide⟩
  · rw [hhalf, le_div_iff₀ (by positivity)]
    push_cast
    linarith
  · rw [hhalf, div_le_iff₀ (by positivity)]
    push_cast
    linarith

end InSpan

/-! ### Rounding into the format -/

/-- The exponent to round to leaves 53 bits, but does not go below that of the smallest numbers. -/
theorem targetExponent_eq (m : Nat) (e : Int) :
    Float.Model.Format.binary64.targetExponent (totalExponent m e) =
      max (m.log2 + 1 + e - 53) (-1074) := by
  simp only [Float.Model.Format.targetExponent, totalExponent, Float.Model.Format.mantissaBits,
    Float.Model.Format.minExponent]
  norm_num

/-- A mantissa below a power of two is short enough. -/
theorem log2_lt_of_lt {M k : Nat} (h : M < 2 ^ (k + 1)) : M.log2 < k + 1 := by
  by_cases hzero : M = 0
  · rw [hzero]
    exact Nat.succ_pos k
  · exact (Nat.log2_lt hzero).mpr h

/-- The first shift leads to the grid of a nearest mantissa, and the second ends the rounding. -/
theorem roundWithAccuracy_eq {M R : Nat} {E t : Int} {acc : Accuracy} {x : ℚ} {sign : Sign}
    (hstands : StandsFor (.ofMantissaAndAccuracy M acc) (x / 2 ^ E))
    (htarget : Float.Model.Format.binary64.targetExponent (totalExponent M E) = t) (hE : E ≤ t)
    (hnearest : Nearest (x / 2 ^ t) R) :
    roundWithAccuracy Float.Model.Format.binary64 sign M E acc =
      let final := shiftToTargetExponent Float.Model.Format.binary64 R t .exact
      if h : final.1.mantissa = 0 then .zero sign
      else .finite sign final.1.mantissa final.2 (Nat.pos_of_ne_zero h) := by
  have hexponent : E + ((t - E).toNat : Int) = t := by omega
  have hpower : (2 : ℚ) ^ E * 2 ^ (t - E).toNat = 2 ^ t := by
    rw [← zpow_natCast, ← zpow_add₀ (by norm_num), hexponent]
  have hshift := hstands.shiftRight (t - E).toNat
  rw [div_div, hpower] at hshift
  have hrounded := hshift.nearest.unique hnearest
  unfold roundWithAccuracy
  rw [shiftToTargetExponent, htarget, shiftToExponent]
  dsimp only
  rw [hrounded, hexponent]

/-- A mantissa is shifted up to the exponent that it is to have. -/
theorem shiftToTargetExponent_eq {m : Nat} {e t : Int} {acc : Accuracy}
    (h : Float.Model.Format.binary64.targetExponent (totalExponent m e) = t) :
    shiftToTargetExponent Float.Model.Format.binary64 m e acc =
      (ExtendedMantissa.ofMantissaAndAccuracy m acc >>> (t - e).toNat, e + (t - e).toNat) := by
  rw [shiftToTargetExponent, h]
  rfl

/-- A mantissa that has its exponent already is not shifted. -/
theorem shiftToTargetExponent_legal {m : Nat} {e : Int} (h : Legal m e) :
    shiftToTargetExponent Float.Model.Format.binary64 m e .exact = (⟨m, false, false⟩, e) := by
  have htarget : Float.Model.Format.binary64.targetExponent (totalExponent m e) = e := by
    have hlog := log2_lt_of_lt h.lt
    have hle := h.le
    rw [targetExponent_eq]
    by_cases hsub : m < 2 ^ 52
    · have hshort := log2_lt_of_lt hsub
      have he := h.subnormal hsub
      omega
    · have hlong := (Nat.le_log2 (Nat.ne_of_gt h.pos)).mpr (Nat.le_of_not_lt hsub)
      omega
  have hzero : (e - e).toNat = 0 := by omega
  have hexponent : e + ((0 : Nat) : Int) = e := by omega
  rw [shiftToTargetExponent_eq htarget, hzero, hexponent]
  rfl

/-- A mantissa that rounding made one bit too long is shifted by one. -/
theorem shiftToTargetExponent_overflow {e : Int} (he : -1074 < e) :
    shiftToTargetExponent Float.Model.Format.binary64 (2 ^ 53) (e - 1) .exact =
      (⟨2 ^ 52, false, false⟩, e) := by
  have htarget :
      Float.Model.Format.binary64.targetExponent (totalExponent (2 ^ 53) (e - 1)) = e := by
    rw [targetExponent_eq, Nat.log2_two_pow]
    omega
  have hone : (e - (e - 1)).toNat = 1 := by omega
  have hexponent : e - 1 + ((1 : Nat) : Int) = e := by omega
  rw [shiftToTargetExponent_eq htarget, hone, hexponent]
  rfl

section

variable {M k : Nat} {e E : Int} {x : ℚ}

/-- On a finer grid a bound has as many more bits as the grid is finer. -/
theorem two_pow_mul_two_zpow (k : Nat) (hE : E ≤ e) :
    (2 : ℚ) ^ k * 2 ^ e = 2 ^ (k + (e - E).toNat) * 2 ^ E := by
  have hexponent : e = ((e - E).toNat : Int) + E := by omega
  rw [pow_add, mul_assoc, ← zpow_natCast (2 : ℚ) (e - E).toNat, ← zpow_add₀ (by norm_num),
    ← hexponent]

/-- The whole part of a number below a power of two has at most the bits of that bound. -/
theorem log2_floor_lt (hfloor : (M : ℚ) ≤ x / 2 ^ E) (hE : E ≤ e)
    (hlt : x < 2 ^ (k + 1) * (2 : ℚ) ^ e) : M.log2 < k + (e - E).toNat + 1 := by
  rw [two_pow_mul_two_zpow (k + 1) hE, ← div_lt_iff₀ (by positivity), Nat.add_right_comm] at hlt
  refine log2_lt_of_lt ?_
  have hcast : (M : ℚ) < ((2 ^ (k + (e - E).toNat + 1) : Nat) : ℚ) := by
    push_cast
    exact lt_of_le_of_lt hfloor hlt
  exact_mod_cast hcast

/-- The whole part of a number has as many bits as the number. -/
theorem log2_floor_eq (hfloor : (M : ℚ) ≤ x / 2 ^ E ∧ x / 2 ^ E < M + 1) (hE : E ≤ e)
    (hle : 2 ^ k * (2 : ℚ) ^ e ≤ x) (hlt : x < 2 ^ (k + 1) * (2 : ℚ) ^ e) :
    M.log2 = k + (e - E).toNat := by
  have hhigh := log2_floor_lt hfloor.1 hE hlt
  rw [two_pow_mul_two_zpow k hE, ← le_div_iff₀ (by positivity)] at hle
  have hM : 2 ^ (k + (e - E).toNat) < M + 1 := by
    have hcast : ((2 ^ (k + (e - E).toNat) : Nat) : ℚ) < ((M + 1 : Nat) : ℚ) := by
      push_cast
      exact lt_of_le_of_lt hle hfloor.2
    exact_mod_cast hcast
  have hpos : 0 < 2 ^ (k + (e - E).toNat) := Nat.two_pow_pos _
  have hlow := (Nat.le_log2 (by omega : M ≠ 0)).mpr (Nat.le_of_lt_succ hM)
  omega

end

/-- What is known of a number in a span well enough is rounded to the binary number. -/
theorem InSpan.roundWithAccuracy {m M : Nat} {e E : Int} {acc : Accuracy} {x : ℚ} (sign : Sign)
    (h : InSpan m e x) (hlegal : Legal m e)
    (hstands : StandsFor (.ofMantissaAndAccuracy M acc) (x / 2 ^ E)) (hE : E ≤ e)
    (hbelow : x < 2 ^ 52 * (2 : ℚ) ^ e → -1074 < e → E < e) :
    UnpackedFloat.roundWithAccuracy Float.Model.Format.binary64 sign M E acc =
      .finite sign m e hlegal.pos := by
  have hfloor : (M : ℚ) ≤ x / 2 ^ E ∧ x / 2 ^ E < M + 1 := by
    have hfloor := hstands.floor
    rcases acc with _ | (_ | _ | _) <;> exact hfloor
  have hle := hlegal.le
  -- on the grid of the binary number itself, its mantissa is the nearest one
  have hown (htarget : Float.Model.Format.binary64.targetExponent (totalExponent M E) = e) :
      UnpackedFloat.roundWithAccuracy Float.Model.Format.binary64 sign M E acc =
        .finite sign m e hlegal.pos := by
    rw [roundWithAccuracy_eq hstands htarget hE (h.nearest hlegal),
      shiftToTargetExponent_legal hlegal]
    exact dif_neg (Nat.ne_of_gt hlegal.pos)
  by_cases hnormal : 2 ^ 52 * (2 : ℚ) ^ e ≤ x
  · -- the whole part has as many bits as the mantissa with its exponent
    refine hown ?_
    rw [targetExponent_eq, log2_floor_eq hfloor hE hnormal (h.lt_top hlegal)]
    omega
  · have hlt : x < 2 ^ 52 * (2 : ℚ) ^ e := not_le.mp hnormal
    rcases hle.lt_or_eq with he | he
    · -- the number lies below a power of two, on the finer grid
      obtain ⟨rfl, hhalf, hnearest⟩ := h.nearest_below hlegal hlt he
      have hstrict := hbelow hlt he
      have htarget : Float.Model.Format.binary64.targetExponent (totalExponent M E) = e - 1 := by
        rw [targetExponent_eq, log2_floor_eq hfloor hE hhalf hlt]
        omega
      rw [roundWithAccuracy_eq hstands htarget (by omega) hnearest,
        shiftToTargetExponent_overflow he]
      rfl
    · -- at the bottom of the exponent range the grid does not get finer
      have hlog : M.log2 < 51 + (e - E).toNat + 1 := log2_floor_lt hfloor.1 hE hlt
      refine hown ?_
      rw [targetExponent_eq]
      omega

end FrameScript.Decimal
