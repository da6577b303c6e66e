import FrameScript.Proofs.Decimal.Spans

/-!
# Shortest decimals read back

The shortest decimal of a binary number lies in its span, because the search only takes grid points
that do and ends with the number itself. A decimal in the span is read as the binary number.
-/

namespace FrameScript.Decimal

open Float.Model Float.Model.UnpackedFloat

/-! ### Decimals in a span -/

/-- A power is what its positive part leaves over its negative part. -/
theorem zpow_mul_toNat {b : ℚ} (hb : b ≠ 0) (n : Int) : b ^ n * b ^ (-n).toNat = b ^ n.toNat := by
  rw [← zpow_natCast, ← zpow_natCast, ← zpow_add₀ hb]
  congr 1
  omega

/-- The exact comparison in natural numbers decides whether a grid point is in the span. -/
theorem inSpan_of_contains {m c : Nat} {e s : Int}
    (h : (Span.of m e).contains (Nat.pow 10 s.toNat * Nat.pow 2 (2 - e).toNat)
      (Nat.pow 10 (-s).toNat * Nat.pow 2 (e - 2).toNat) c = true) :
    InSpan m e (c * (10 : ℚ) ^ s) := by
  have hten := zpow_mul_toNat (by norm_num : (10 : ℚ) ≠ 0) s
  have htwo := zpow_mul_toNat (by norm_num : (2 : ℚ) ≠ 0) (e - 2)
  rw [Int.neg_sub] at htwo
  have hscale : (0 : ℚ) < 10 ^ (-s).toNat * 2 ^ (2 - e).toNat := by positivity
  have hpoint : ((c * (Nat.pow 10 s.toNat * Nat.pow 2 (2 - e).toNat) : Nat) : ℚ) =
      c * (10 : ℚ) ^ s * (10 ^ (-s).toNat * 2 ^ (2 - e).toNat) := by
    simp only [Nat.pow_eq]
    push_cast
    rw [← hten]
    ring
  have hend (a : Nat) : ((a * (Nat.pow 10 (-s).toNat * Nat.pow 2 (e - 2).toNat) : Nat) : ℚ) =
      a * (2 : ℚ) ^ (e - 2) * (10 ^ (-s).toNat * 2 ^ (2 - e).toNat) := by
    simp only [Nat.pow_eq]
    push_cast
    rw [← htwo]
    ring
  unfold Span.contains at h
  unfold InSpan
  dsimp only
  split at h
  · next hclosed =>
    simp only [Bool.and_eq_true, decide_eq_true_eq] at h
    obtain ⟨hlow, hhigh⟩ := h
    rw [if_pos hclosed]
    rw [← Nat.cast_le (α := ℚ), hpoint, hend, mul_le_mul_iff_of_pos_right hscale] at hlow hhigh
    exact ⟨hlow, hhigh⟩
  · next hclosed =>
    simp only [Bool.and_eq_true, decide_eq_true_eq] at h
    obtain ⟨hlow, hhigh⟩ := h
    rw [if_neg hclosed]
    rw [← Nat.cast_lt (α := ℚ), hpoint, hend, mul_lt_mul_iff_of_pos_right hscale] at hlow hhigh
    exact ⟨hlow, hhigh⟩

/-- A grid point is only taken if it lies in the span. -/
theorem onGrid_inSpan {tie : Tie} {m c : Nat} {e s : Int} (h : onGrid tie m e s = some c) :
    InSpan m e (c * (10 : ℚ) ^ s) := by
  unfold onGrid at h
  dsimp only at h
  split at h
  · next hfirst hsecond =>
    cases h
    unfold Span.nearer
    dsimp only
    split
    · exact inSpan_of_contains hfirst
    · split
      · exact inSpan_of_contains hsecond
      · split
        · exact inSpan_of_contains hsecond
        · split
          · exact inSpan_of_contains hfirst
          · exact inSpan_of_contains hsecond
  · next hfirst _ =>
    cases h
    exact inSpan_of_contains hfirst
  · next _ hsecond =>
    cases h
    exact inSpan_of_contains hsecond
  · cases h

/-- A binary number is in its span. -/
theorem inSpan_self {m : Nat} (hpos : 0 < m) (e : Int) : InSpan m e (m * (2 : ℚ) ^ e) := by
  have hpower : (0 : ℚ) < 2 ^ e := by positivity
  have hlow : (Span.of m e).low * (2 : ℚ) ^ (e - 2) < m * (2 : ℚ) ^ e := by
    rw [InSpan.low_eq hpos]
    apply mul_lt_mul_of_pos_right _ hpower
    split <;> linarith
  have hhigh : m * (2 : ℚ) ^ e < (Span.of m e).high * (2 : ℚ) ^ (e - 2) := by
    rw [InSpan.high_eq]
    apply mul_lt_mul_of_pos_right _ hpower
    linarith
  unfold InSpan
  dsimp only
  split
  · exact ⟨hlow.le, hhigh.le⟩
  · exact ⟨hlow, hhigh⟩

/-- The exact decimal of a binary number is the number, so it lies in its span. -/
theorem exact_inSpan {m : Nat} (hpos : 0 < m) (e : Int) :
    InSpan m e ((exact m e).1 * (10 : ℚ) ^ (exact m e).2) := by
  have hself := inSpan_self hpos e
  unfold exact
  split
  · next he =>
    have hpower : (2 : ℚ) ^ e = 2 ^ e.toNat := by
      rw [← zpow_natCast, Int.toNat_of_nonneg he]
    rw [hpower] at hself
    push_cast
    simpa using hself
  · next he =>
    have hten : (10 : ℚ) ^ e = 2 ^ e * 5 ^ e := by
      rw [← mul_zpow]
      norm_num
    have hfive : (5 : ℚ) ^ e * 5 ^ (-e).toNat = 1 := by
      rw [zpow_mul_toNat (by norm_num), show e.toNat = 0 by omega, pow_zero]
    have hvalue : ((m * Nat.pow 5 (-e).toNat : Nat) : ℚ) * 10 ^ e = m * 2 ^ e := by
      rw [Nat.pow_eq, hten]
      push_cast
      calc (m : ℚ) * 5 ^ (-e).toNat * (2 ^ e * 5 ^ e)
          = m * 2 ^ e * (5 ^ e * 5 ^ (-e).toNat) := by ring
        _ = m * 2 ^ e := by rw [hfive, mul_one]
    rw [hvalue]
    exact hself

/-- Whichever grid the search ends with, it ends in the span. -/
theorem search_inSpan {tie : Tie} {m : Nat} (hpos : 0 < m) (e : Int) (grids : Nat) (s : Int) :
    InSpan m e ((search tie m e grids s).1 * (10 : ℚ) ^ (search tie m e grids s).2) := by
  induction grids generalizing s with
  | zero => exact exact_inSpan hpos e
  | succ grids ih =>
    rw [search]
    split
    · next c hc => exact onGrid_inSpan hc
    · exact ih (s - 1)

/-- The shortest decimal rounds to the binary number. -/
theorem shortest_inSpan {tie : Tie} {m : Nat} (hpos : 0 < m) (e : Int) :
    InSpan m e ((shortest tie m e).1 * (10 : ℚ) ^ (shortest tie m e).2) :=
  search_inSpan hpos e _ _

/-! ### Reading a decimal in a span -/

section

variable {m c : Nat} {e : Int}

/-- Nothing below half of the smallest number is in a span. -/
theorem InSpan.tiny_le {x : ℚ} (h : InSpan m e x) (hlegal : Legal m e) :
    (2 : ℚ) ^ (-1075 : Int) ≤ x := by
  have hhalf := h.half_le hlegal.pos
  have hm : (1 : ℚ) ≤ m := by exact_mod_cast hlegal.pos
  have hle : (2 : ℚ) ^ (-1074 : Int) ≤ 2 ^ e := zpow_le_zpow_right₀ (by norm_num) hlegal.le
  have htiny : (2 : ℚ) ^ (-1074 - 1 : Int) = 1 / 2 * 2 ^ (-1074 : Int) := by
    rw [zpow_sub_one₀ (by norm_num)]
    ring
  have hpower : (0 : ℚ) < 2 ^ e := by positivity
  change (2 : ℚ) ^ (-1074 - 1 : Int) ≤ x
  rw [htiny]
  calc 1 / 2 * (2 : ℚ) ^ (-1074 : Int) ≤ 1 / 2 * 2 ^ e := by linarith
    _ ≤ (m - 1 / 2) * 2 ^ e := mul_le_mul_of_nonneg_right (by linarith) hpower.le
    _ ≤ x := hhalf

/-- A whole number in a span is read as the binary number. -/
theorem ofScientific_whole (hlegal : Legal m e) (hc : 0 < c) (h : InSpan m e c) :
    UnpackedFloat.ofScientific Float.Model.Format.binary64 c 0 =
      .finite .positive m e hlegal.pos := by
  have hone : (1 : ℚ) ≤ c := by exact_mod_cast hc
  have hexponent : -53 < e := by
    have htop := h.lt_top hlegal
    rw [← zpow_natCast, ← zpow_add₀ (by norm_num)] at htop
    have hlt : (2 : ℚ) ^ (0 : Int) < 2 ^ (((53 : Nat) : Int) + e) := by
      rw [zpow_zero]
      linarith
    have hpos := (zpow_lt_zpow_iff_right₀ (by norm_num : (1 : ℚ) < 2)).mp hlt
    omega
  have hvalue : (c : ℚ) / 2 ^ (-53 : Int) = ((c <<< 53 * 10 ^ 0 : Nat) : ℚ) := by
    rw [Nat.shiftLeft_eq, zpow_neg, div_inv_eq_mul]
    push_cast
    norm_num
  have hstands := StandsFor.exact (c <<< 53 * 10 ^ 0)
  rw [← hvalue] at hstands
  have hround := h.roundWithAccuracy .positive hlegal hstands (by omega) fun _ _ => hexponent
  rw [UnpackedFloat.ofScientific, dif_neg (by omega), if_neg (by decide),
    if_neg (by have hnn := Int.natCast_nonneg c.log2; change ¬ (0 : Int) < -(2048 + c.log2); omega),
    if_pos (by decide)]
  exact hround

/-- A quotient is more than the power of two below it. -/
theorem zpow_lt_quotient {a b : Nat} (ha : 0 < a) (hb : 0 < b) :
    (2 : ℚ) ^ ((a.log2 : Int) - b.log2 - 1) < a / b := by
  have hlow : (2 : ℚ) ^ a.log2 ≤ a := by
    exact_mod_cast Nat.log2_self_le (Nat.ne_of_gt ha)
  have hhigh : (b : ℚ) < 2 ^ (b.log2 + 1) := by exact_mod_cast Nat.lt_log2_self
  have hb' : (0 : ℚ) < b := by exact_mod_cast hb
  have hpower : (2 : ℚ) ^ ((a.log2 : Int) - b.log2 - 1) * 2 ^ (b.log2 + 1) = 2 ^ a.log2 := by
    rw [← zpow_natCast, ← zpow_natCast, ← zpow_add₀ (by norm_num)]
    congr 1
    push_cast
    ring
  rw [lt_div_iff₀ hb']
  calc (2 : ℚ) ^ ((a.log2 : Int) - b.log2 - 1) * b
      < (2 : ℚ) ^ ((a.log2 : Int) - b.log2 - 1) * 2 ^ (b.log2 + 1) :=
        mul_lt_mul_of_pos_left hhigh (by positivity)
    _ = 2 ^ a.log2 := hpower
    _ ≤ a := hlow

/-- A decimal fraction in a span is not so small that it would be read as zero. -/
theorem log2_of_tiny {k : Nat} (hlegal : Legal m e) (h : InSpan m e (c / (10 : ℚ) ^ k)) :
    k < c.log2 + 1076 := by
  have htiny := h.tiny_le hlegal
  have hten : (0 : ℚ) < 10 ^ k := by positivity
  have hc : (c : ℚ) < 2 ^ (c.log2 + 1) := by exact_mod_cast Nat.lt_log2_self
  have hpower : (2 : ℚ) ^ k ≤ 10 ^ k := pow_le_pow_left₀ (by norm_num) (by norm_num) k
  rw [le_div_iff₀ hten] at htiny
  have hscale : (2 : ℚ) ^ (-1075 : Int) * 2 ^ k < 2 ^ (c.log2 + 1) := by
    have hle : (2 : ℚ) ^ (-1075 : Int) * 2 ^ k ≤ 2 ^ (-1075 : Int) * 10 ^ k :=
      mul_le_mul_of_nonneg_left hpower (by positivity)
    linarith
  rw [← zpow_natCast, ← zpow_natCast, ← zpow_add₀ (by norm_num)] at hscale
  have hlt := (zpow_lt_zpow_iff_right₀ (by norm_num : (1 : ℚ) < 2)).mp hscale
  push_cast at hlt
  omega

/-- A quotient of natural numbers is computed with the bits that its size asks for. -/
theorem divCore_eq (a b : Nat) :
    divCore Float.Model.Format.binary64 a 0 b 0 =
      let T : Int := min 0 (max ((a.log2 : Int) - b.log2 - 53) (-1074))
      (a <<< (0 - T).toNat / b, T, accuracyOfFraction (a <<< (0 - T).toNat % b) b) := by
  have htarget : min ((0 : Int) - 0) (Float.Model.Format.binary64.targetExponent
      (totalExponent a 0 - totalExponent b 0)) =
      min 0 (max ((a.log2 : Int) - b.log2 - 53) (-1074)) := by
    change min ((0 : Int) - 0) (max ((a.log2 : Int) + 1 + 0 - (b.log2 + 1 + 0) - 53) (-1074)) = _
    omega
  unfold divCore
  simp only [htarget]
  rfl

/-- A decimal fraction in a span is read as the binary number. -/
theorem ofScientific_fraction {k : Nat} (hlegal : Legal m e) (hc : 0 < c) (hk : 0 < k)
    (h : InSpan m e (c / (10 : ℚ) ^ k)) :
    UnpackedFloat.ofScientific Float.Model.Format.binary64 c (-(k : Int)) =
      .finite .positive m e hlegal.pos := by
  have hlog := log2_of_tiny hlegal h
  have hten : 0 < 10 ^ k := Nat.pow_pos (by norm_num)
  let d : Int := (c.log2 : Int) - (10 ^ k).log2
  let T : Int := min 0 (max (d - 53) (-1074))
  have hlow : (2 : ℚ) ^ (d - 1) < c / 10 ^ k := by
    have hquotient := zpow_lt_quotient hc hten
    push_cast at hquotient
    exact hquotient
  have hstands := StandsFor.quotient (c <<< (0 - T).toNat) hten
  have hvalue : ((c <<< (0 - T).toNat : Nat) : ℚ) / (10 ^ k : Nat) = c / 10 ^ k / 2 ^ T := by
    have hpower : (2 : ℚ) ^ (0 - T).toNat = (2 ^ T)⁻¹ := by
      rw [← zpow_natCast, ← zpow_neg, Int.toNat_of_nonneg (by omega)]
      congr 1
      omega
    rw [Nat.shiftLeft_eq]
    push_cast
    rw [hpower]
    ring
  rw [hvalue] at hstands
  have hbits (b : Nat) (hlt : c / (10 : ℚ) ^ k < 2 ^ b * (2 : ℚ) ^ e) : d - 1 < b + e := by
    have hchain := hlow.trans hlt
    rw [← zpow_natCast, ← zpow_add₀ (by norm_num)] at hchain
    exact (zpow_lt_zpow_iff_right₀ (by norm_num : (1 : ℚ) < 2)).mp hchain
  have htop := hbits 53 (h.lt_top hlegal)
  have hle := hlegal.le
  have hround := h.roundWithAccuracy .positive hlegal hstands (by omega) fun hlt he => by
    have hbelow := hbits 52 hlt
    omega
  have hplaces : (- -(k : Int)).toNat = k := by omega
  rw [UnpackedFloat.ofScientific, dif_neg (by omega), if_neg (by change ¬ (2048 : Int) < _; omega),
    if_neg (by change ¬ -(k : Int) < -(2048 + c.log2); omega), if_neg (by omega)]
  simp only [UnpackedFloat.div, divCore_eq, hplaces]
  exact hround

end

end FrameScript.Decimal
