import FrameScript.Decimal.Shortest

/-!
# Decimal text of numbers

Every number is written with the fewest digits that read back as the same number. The three formats
differ in where the positional form ends, in the mark of a whole number and in the exponent's sign.
-/

namespace FrameScript.Decimal

/-- The decisions of a number format. -/
structure Format where
  /-- Which of two equally near decimals is written. -/
  tie : Tie
  /-- Whether a number whose first digit stands for `10 ^ k` is written without an exponent. -/
  positional : Int → Bool
  /-- What follows the digits of a whole number in positional form. -/
  whole : String
  /-- What precedes the digits of an exponent that is not negative. -/
  plus : String
  notANumber : String
  infinity : String
  negativeInfinity : String

/-- Script text, console lines and listings: never an exponent, no mark on whole numbers. -/
def plain : Format where
  tie := .up
  positional _ := true
  whole := ""
  plus := ""
  notANumber := "NaN"
  infinity := "inf"
  negativeInfinity := "-inf"

/-- Numbers in documents, where one that is not finite has no form of its own. -/
def document : Format where
  tie := .even
  positional k := -5 ≤ k && k < 16
  whole := ".0"
  plus := "+"
  notANumber := "null"
  infinity := "null"
  negativeInfinity := "null"

/-- Coordinates in diagnostics. -/
def diagnostic : Format where
  tie := .up
  positional k := -4 ≤ k && k < 16
  whole := ".0"
  plus := ""
  notANumber := "NaN"
  infinity := "inf"
  negativeInfinity := "-inf"

/-- `c * 10 ^ s` without an exponent. -/
def Format.positionalText (format : Format) (digits : List Char) (s : Int) : String :=
  if 0 ≤ s then
    String.ofList (digits ++ List.replicate s.toNat '0') ++ format.whole
  else
    let places := (-s).toNat
    if places < digits.length then
      String.ofList
        (digits.take (digits.length - places) ++ '.' :: digits.drop (digits.length - places))
    else
      String.ofList ('0' :: '.' :: (List.replicate (places - digits.length) '0' ++ digits))

/-- The exponent behind the mark `e`. -/
def Format.exponentText (format : Format) (k : Int) : String :=
  if 0 ≤ k then format.plus ++ toString k.toNat else "-" ++ toString (-k).toNat

/-- `c * 10 ^ s` with one digit before the point and the exponent `k` behind. -/
def Format.scientificText (format : Format) (digits : List Char) (k : Int) : String :=
  let (lead, rest) := digits.splitAt 1
  String.ofList (if rest.isEmpty then lead else lead ++ '.' :: rest) ++ "e" ++ format.exponentText k

/-- The text of the decimal `c * 10 ^ s`. -/
def Format.decimalText (format : Format) (c : Nat) (s : Int) : String :=
  let digits := Nat.toDigits 10 c
  let k := (digits.length : Int) - 1 + s
  if format.positional k then format.positionalText digits s else format.scientificText digits k

/-- A minus sign in front of negative numbers, negative zero included. -/
def signText : Float.Model.UnpackedFloat.Sign → String
  | .positive => ""
  | .negative => "-"

/-- The text of a number. -/
def Format.text (format : Format) (x : Float) : String :=
  match x.toModel.unpack with
  | .notANumber => format.notANumber
  | .infinity .positive => format.infinity
  | .infinity .negative => format.negativeInfinity
  | .zero sign => signText sign ++ format.decimalText 0 0
  | .finite sign m e _ =>
    let (c, s) := shortest format.tie m e
    signText sign ++ format.decimalText c s

end FrameScript.Decimal
