/-!
# Shortest decimals

A positive binary number `m * 2 ^ e` stands for every real that rounds to it. Its shortest decimal
is the point of the coarsest power-of-ten grid that lies among those reals, and of two such points
the nearer one. The comparison is exact, in natural numbers.
-/

namespace FrameScript.Decimal

/-- Which of two equally near decimals is written. -/
inductive Tie where
  | up
  | even
  deriving DecidableEq, Repr

/-- The reals that round to a binary number, in quarters of its last binary place. -/
structure Span where
  low : Nat
  mid : Nat
  high : Nat
  /-- Whether the two ends round to the number as well. -/
  closed : Bool
  deriving DecidableEq, Repr

/-- The span of `m * 2 ^ e`. Below a power of two the neighbours lie twice as dense, except at the
bottom of the exponent range. Ends round to the even mantissa. -/
def Span.of (m : Nat) (e : Int) : Span where
  low := if m = 1 <<< 52 ∧ -1074 < e then 4 * m - 1 else 4 * m - 2
  mid := 4 * m
  high := 4 * m + 2
  closed := m % 2 == 0

/-- Whether the decimal that measures `c * p` where the span measures in steps of `q` lies in it. -/
def Span.contains (span : Span) (p q c : Nat) : Bool :=
  if span.closed then span.low * q ≤ c * p && c * p ≤ span.high * q
  else span.low * q < c * p && c * p < span.high * q

/-- Which of the multiples `c` and `c + 1` of `p` is nearer to the middle of the span. -/
def Span.nearer (span : Span) (tie : Tie) (p q c : Nat) : Nat :=
  let below := span.mid * q - c * p
  let above := (c + 1) * p - span.mid * q
  if below < above then c
  else if above < below then c + 1
  else match tie with
    | .up => c + 1
    | .even => if c % 2 = 0 then c else c + 1

/-- The multiple of `10 ^ s` that rounds to `m * 2 ^ e` and is nearest to it, if there is one. Only
the two multiples around the number itself can be. -/
def onGrid (tie : Tie) (m : Nat) (e s : Int) : Option Nat :=
  let span := Span.of m e
  let p := Nat.pow 10 s.toNat * Nat.pow 2 (2 - e).toNat
  let q := Nat.pow 10 (-s).toNat * Nat.pow 2 (e - 2).toNat
  let c := span.mid * q / p
  match span.contains p q c, span.contains p q (c + 1) with
  | true, true => some (span.nearer tie p q c)
  | true, false => some c
  | false, true => some (c + 1)
  | false, false => none

/-- The number itself as a decimal. -/
def exact (m : Nat) (e : Int) : Nat × Int :=
  if 0 ≤ e then (m * Nat.pow 2 e.toNat, 0) else (m * Nat.pow 5 (-e).toNat, e)

/-- Tries grids from `10 ^ s` downwards. -/
def search (tie : Tie) (m : Nat) (e : Int) : Nat → Int → Nat × Int
  | 0, _ => exact m e
  | grids + 1, s =>
    match onGrid tie m e s with
    | some c => (c, s)
    | none => search tie m e grids (s - 1)

/-- A power of ten above everything that rounds to `m * 2 ^ e`: `log 2` is below `0.30103`. -/
def topGrid (m : Nat) (e : Int) : Int :=
  (Int.fdiv ((m.log2 + 2 + e) * 30103) 100000) + 2

/-- The shortest decimal `c * 10 ^ s` of `m * 2 ^ e`, as the pair of `c` and `s`. The number lies on
the grid of its own last place, so the search ends there at the latest. -/
def shortest (tie : Tie) (m : Nat) (e : Int) : Nat × Int :=
  search tie m e ((topGrid m e - min e 0).toNat + 1) (topGrid m e)

end FrameScript.Decimal
