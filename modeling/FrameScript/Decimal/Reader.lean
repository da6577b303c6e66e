/-!
# Reading decimal text

A number is an optional sign followed by a name (`inf`, `infinity`, `nan`, in any case) or by
decimal digits with at most one point and at most one exponent. It denotes the nearest number of the
format.
-/

namespace FrameScript.Decimal

/-- The value of a run of decimal digits. -/
def digitsValue (digits : List Char) : Nat :=
  digits.foldl (fun n c => 10 * n + (c.toNat - '0'.toNat)) 0

/-- A leading sign (`true` for minus) and what follows it. -/
def splitSign : List Char → Bool × List Char
  | '-' :: rest => (true, rest)
  | '+' :: rest => (false, rest)
  | rest => (false, rest)

/-- A whole exponent: an optional sign and one or more digits. -/
def readExponent? (cs : List Char) : Option Int :=
  let (negative, digits) := splitSign cs
  if digits.isEmpty || !digits.all Char.isDigit then none
  else if negative then some (-(digitsValue digits : Int))
  else some (digitsValue digits)

/-- The fraction digits behind a point, if one follows, and the rest. -/
def splitFraction : List Char → List Char × List Char
  | '.' :: rest => rest.span Char.isDigit
  | rest => ([], rest)

/-- An unsigned decimal `m * 10 ^ e`, as the pair of `m` and `e`. A digit must stand on one side of
the point. -/
def readDecimal? (cs : List Char) : Option (Nat × Int) :=
  let (whole, rest) := cs.span Char.isDigit
  let (fraction, rest) := splitFraction rest
  if whole.isEmpty && fraction.isEmpty then none
  else
    let shift : Int := fraction.length
    let m := digitsValue (whole ++ fraction)
    match rest with
    | [] => some (m, -shift)
    | c :: rest =>
      if c = 'e' ∨ c = 'E' then (readExponent? rest).map fun e => (m, e - shift) else none

/-- The number nearest to `m * 10 ^ e`. -/
def nearest (m : Nat) (e : Int) : Float :=
  .ofModel (Float.Model.ofScientific m e)

/-- The names of the values that have no digits. -/
def readName? (cs : List Char) : Option Float :=
  let name := String.ofList (cs.map Char.toLower)
  if name = "inf" ∨ name = "infinity" then some (1.0 / 0.0)
  else if name = "nan" then some (0.0 / 0.0)
  else none

/-- The number that a text denotes, if it denotes one. -/
def read? (text : String) : Option Float :=
  let (negative, body) := splitSign text.toList
  let magnitude := (readName? body).or ((readDecimal? body).map fun (m, e) => nearest m e)
  if negative then magnitude.map Float.neg else magnitude

end FrameScript.Decimal
