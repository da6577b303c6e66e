/-!
# Tick intervals

The time between two ticks is the reciprocal of the tick rate in seconds, as a number with 53 binary
places, in whole nanoseconds. Both steps round to the nearest, and a half to the even neighbour.
-/

namespace FrameScript.Interval

/-- The quotient rounded to the nearest whole number, and a half to the even one. -/
def roundDiv (dividend divisor : Nat) : Nat :=
  let quotient := dividend / divisor
  let rest := dividend % divisor
  if 2 * rest < divisor then quotient
  else if divisor < 2 * rest then quotient + 1
  else quotient + quotient % 2

/-- How far a reciprocal is scaled up by doubling until it has 53 binary places before the point. -/
def reciprocalScale (n : Nat) : Nat :=
  52 + if 1 <<< n.log2 = n then n.log2 else n.log2 + 1

/-- Nanoseconds between two ticks. A rate of zero counts as one. -/
def nanoseconds (rate : Nat) : Nat :=
  let n := max rate 1
  let scale := 1 <<< reciprocalScale n
  roundDiv (roundDiv scale n * 1000000000) scale

/-- The digits of a fraction with the given number of places, without trailing zeros. -/
def fractionDigits (places n : Nat) : List Char :=
  let digits := Nat.toDigits 10 n
  let filled := List.replicate (places - digits.length) '0' ++ digits
  (filled.reverse.dropWhile (· == '0')).reverse

/-- A number of units and a fraction of one in places. -/
def unitText (unit : String) (places n : Nat) : String :=
  let fraction := fractionDigits places (n % Nat.pow 10 places)
  toString (n / Nat.pow 10 places) ++
    (if fraction.isEmpty then "" else String.ofList ('.' :: fraction)) ++ unit

/-- The text of a number of nanoseconds, in the largest unit of which it holds one. -/
def text (n : Nat) : String :=
  if 1000000000 ≤ n then unitText "s" 9 n
  else if 1000000 ≤ n then unitText "ms" 6 n
  else if 1000 ≤ n then unitText "µs" 3 n
  else unitText "ns" 0 n

end FrameScript.Interval
