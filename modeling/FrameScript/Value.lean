import FrameScript.Document

/-!
# Values

What variables hold and the machine computes with: numbers and truth values.
-/

namespace FrameScript

/-- A value at run time. -/
inductive Value where
  | number (x : Float)
  | bool (b : Bool)
  deriving DecidableEq, Repr

namespace Value

/-- The value of a variable before anything is stored in it. -/
def zero : Value :=
  .number 0.0

/-- The name of a value's kind in messages. -/
def kindName : Value → String
  | .number _ => "number"
  | .bool _ => "bool"

/-- The number, if the value is one. -/
def number? : Value → Option Float
  | .number x => some x
  | .bool _ => none

/-- The truth value, if the value is one. -/
def bool? : Value → Option Bool
  | .number _ => none
  | .bool b => some b

/-- Equality as the language has it: numbers compare as numbers, so that zero has one sign and a
value that is not a number differs from itself. -/
def same : Value → Value → Bool
  | .number x, .number y => x == y
  | .bool a, .bool b => a == b
  | _, _ => false

/-- The text of a value on the console. -/
def text : Value → String
  | .number x => Decimal.plain.text x
  | .bool b => Document.truthText b

/-- A value as a document. -/
def toDocument : Value → Document
  | .number x => .case "Number" (.number x)
  | .bool b => .case "Bool" (.truth b)

end Value

end FrameScript
