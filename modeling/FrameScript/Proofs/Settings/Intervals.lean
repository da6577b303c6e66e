import FrameScript.Proofs.Settings.Precedence
import FrameScript.Runner

/-!
# Usable tick rates

The time between two ticks is rounded twice, to a number with 53 binary places and to whole
nanoseconds. Up to two thousand million ticks per second something is left of it. The settings
accept more than that, and then no time is left.
-/

namespace FrameScript

namespace Interval

/-! ### Rounding a quotient -/

variable {a b n rate : Nat}

/-- A rounded quotient is at most a half away from the quotient. -/
theorem roundDiv_near (hb : 0 < b) :
    2 * a ≤ 2 * (b * roundDiv a b) + b ∧ 2 * (b * roundDiv a b) ≤ 2 * a + b := by
  have hsplit := Nat.div_add_mod a b
  have hrest := Nat.mod_lt a hb
  have hup : b * (a / b + 1) = b * (a / b) + b := Nat.mul_succ b (a / b)
  unfold roundDiv
  dsimp only
  split
  · omega
  · split
    · omega
    · -- a tie: the even neighbour is one of the two
      rcases Nat.mod_two_eq_zero_or_one (a / b) with heven | hodd
      · rw [heven, Nat.add_zero]
        omega
      · rw [hodd]
        omega

/-- A quotient is rounded to zero up to a half. -/
theorem roundDiv_eq_zero_iff (hb : 0 < b) : roundDiv a b = 0 ↔ 2 * a ≤ b := by
  have hsplit := Nat.div_add_mod a b
  unfold roundDiv
  dsimp only
  generalize a / b = quotient at hsplit ⊢
  generalize a % b = rest at hsplit ⊢
  cases quotient with
  | zero =>
    rw [Nat.mul_zero, Nat.zero_add] at hsplit
    split
    · omega
    · split
      · omega
      · omega
  | succ quotient =>
    have hle : b ≤ b * (quotient + 1) := Nat.le_mul_of_pos_right b (Nat.succ_pos quotient)
    split
    · omega
    · split
      · omega
      · omega

/-! ### The reciprocal of a rate -/

/-- A rate as the interval takes it: one that is zero counts as one. -/
theorem nanoseconds_eq (h : 1 ≤ rate) : nanoseconds rate =
    roundDiv (roundDiv (1 <<< reciprocalScale rate) rate * 1000000000)
      (1 <<< reciprocalScale rate) := by
  rw [nanoseconds, Nat.max_eq_left h]

/-- The scale leaves 53 binary places to the reciprocal. -/
theorem two_pow_mul_le_scale (n : Nat) : 2 ^ 52 * n ≤ 1 <<< reciprocalScale n := by
  have hlog : n < 2 ^ (n.log2 + 1) := Nat.lt_log2_self
  rw [Nat.one_shiftLeft, reciprocalScale, Nat.pow_add, Nat.one_shiftLeft]
  apply Nat.mul_le_mul_left
  split
  · omega
  · omega

/-- The reciprocal of a rate has at least 53 binary places before it is rounded away. -/
theorem two_pow_le_roundDiv (h : 1 ≤ n) : 2 ^ 52 ≤ roundDiv (1 <<< reciprocalScale n) n := by
  have hscale := two_pow_mul_le_scale n
  obtain ⟨hnear, -⟩ := roundDiv_near (a := 1 <<< reciprocalScale n) h
  by_contra hlow
  have hmul : n * roundDiv (1 <<< reciprocalScale n) n ≤ n * (2 ^ 52 - 1) :=
    Nat.mul_le_mul_left n (by omega)
  omega

/-- The time between two ticks is rounded to nothing exactly above two thousand million ticks per
second. -/
theorem nanoseconds_ne_zero_iff (hpos : 1 ≤ rate) (hlt : rate < 2 ^ 32) :
    nanoseconds rate ≠ 0 ↔ rate ≤ 2000000000 := by
  have hscale := two_pow_mul_le_scale rate
  have hlow := two_pow_le_roundDiv hpos
  obtain ⟨habove, hbelow⟩ := roundDiv_near (a := 1 <<< reciprocalScale rate) hpos
  have hplaces : 0 < 1 <<< reciprocalScale rate := by omega
  rw [nanoseconds_eq hpos, ne_eq, roundDiv_eq_zero_iff hplaces, Nat.not_le]
  -- the reciprocal has so many places that its rounding moves no other rate over the half
  rcases Nat.lt_trichotomy rate 2000000000 with hless | rfl | hmore
  · have hmul : (rate + 1) * roundDiv (1 <<< reciprocalScale rate) rate ≤
        2000000000 * roundDiv (1 <<< reciprocalScale rate) rate :=
      Nat.mul_le_mul_right _ hless
    rw [Nat.succ_mul] at hmul
    omega
  · decide
  · have hmul : 2000000001 * roundDiv (1 <<< reciprocalScale rate) rate ≤
        rate * roundDiv (1 <<< reciprocalScale rate) rate :=
      Nat.mul_le_mul_right _ hmore
    omega

end Interval

namespace Config

variable {text : String} {c : Config}

/-- Every rate that is accepted is at least one and fits into 32 bits. -/
theorem tickRate_range (h : parse text = .ok c) : 1 ≤ c.tickRate ∧ c.tickRate < 2 ^ 32 := by
  have haccepted : outcome {} (Text.lines text) = .ok c := h
  obtain ⟨hfits, hgiven⟩ := outcome_eq_ok_iff.mp haccepted
  rcases hgiven.tickRate with
    ⟨value, ⟨before, line, after, hlines, hgives, -⟩, hdenotes⟩ | ⟨-, hrate⟩
  · by_contra hout
    have hline : line ∈ Text.lines text := by simp [hlines]
    refine hfits line hline "tickrate" value hgives (.inl ⟨rfl, fun n hn => ?_⟩)
    rwa [hn.unique hdenotes]
  · rw [hrate]
    decide

/-- The settings that are accepted leave time between two ticks exactly up to two thousand million
ticks per second. Above that, no program that compiles is played. -/
theorem interval_ne_zero_iff_of_parse (h : parse text = .ok c) :
    (1 ≤ c.tickRate ∧ c.tickRate < 2 ^ 32) ∧ (c.interval ≠ 0 ↔ c.tickRate ≤ 2000000000) ∧
    ∀ filter registry program result, program.compilation registry = .ok result →
      ((Runner.compile c filter registry program).2 = .error .noInterval ↔
        2000000000 < c.tickRate) := by
  obtain ⟨hpos, hlt⟩ := tickRate_range h
  have hinterval : c.interval ≠ 0 ↔ c.tickRate ≤ 2000000000 :=
    Interval.nanoseconds_ne_zero_iff hpos hlt
  refine ⟨⟨hpos, hlt⟩, hinterval, fun filter registry program result hresult => ?_⟩
  rw [Runner.compile, hresult, ← Nat.not_le, ← hinterval]
  by_cases hzero : c.interval = 0
  · simp [hzero]
  · simp [hzero]

/-- At two thousand million ticks per second there is still some time between two ticks. -/
theorem interval_ne_zero_highestRate :
    ∃ c, parse "tickrate = 2000000000" = .ok c ∧ c.interval ≠ 0 := by
  have haccepted : parse "tickrate = 2000000000" = .ok { tickRate := 2000000000 } := by rfl
  exact ⟨_, haccepted, (interval_ne_zero_iff_of_parse haccepted).2.1.mpr (by decide)⟩

/-- A rate is accepted at which no time is left. -/
theorem not_interval_ne_zero : ¬ ∀ text c, parse text = .ok c → c.interval ≠ 0 := by
  intro hall
  have haccepted : parse "tickrate = 2000000001" = .ok { tickRate := 2000000001 } := by rfl
  exact hall _ _ haccepted (by decide)

end Config

end FrameScript
