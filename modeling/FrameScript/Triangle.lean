import FrameScript.Document

/-!
# Triangles

The one shape that a script can ask its host to draw: an upright equilateral triangle with a colour.
-/

namespace FrameScript

/-- A colour by its components, displayable between zero and one. -/
structure Color where
  red : Float
  green : Float
  blue : Float

namespace Color

/-- A component moved into the displayable range. One that is not a number stays as it is. -/
def clampComponent (x : Float) : Float :=
  if x < 0.0 then 0.0 else if x > 1.0 then 1.0 else x

/-- The nearest displayable colour. -/
def clamped (color : Color) : Color where
  red := clampComponent color.red
  green := clampComponent color.green
  blue := clampComponent color.blue

/-- Equality of the components as numbers, so that nothing equals a component that is not one. -/
def same (a b : Color) : Bool :=
  a.red == b.red && a.green == b.green && a.blue == b.blue

instance : BEq Color := ⟨same⟩

/-- The text of a colour. -/
def text (color : Color) : String :=
  "rgb(" ++ Decimal.plain.text color.red ++ ", " ++ Decimal.plain.text color.green ++ ", " ++
    Decimal.plain.text color.blue ++ ")"

/-- A colour as a document. -/
def toDocument (color : Color) : Document :=
  .record [("r", .number color.red), ("g", .number color.green), ("b", .number color.blue)]

end Color

/-- A request to draw a triangle around a centre. -/
structure Triangle where
  x : Float
  y : Float
  radius : Float
  color : Color

namespace Triangle

/-- Equality of all measures as numbers. -/
def same (a b : Triangle) : Bool :=
  a.x == b.x && a.y == b.y && a.radius == b.radius && a.color == b.color

instance : BEq Triangle := ⟨same⟩

/-- A quarter turn: the direction of the first corner. -/
def quarterTurn : Float :=
  1.5707963267948966

/-- A full turn. -/
def fullTurn : Float :=
  6.283185307179586

/-- The corner in a direction. -/
def corner (triangle : Triangle) (angle : Float) : Float × Float :=
  (triangle.x + triangle.radius * angle.cos, triangle.y + triangle.radius * angle.sin)

/-- The three corners, a third of a turn apart, the first one straight up. -/
def corners (triangle : Triangle) : List (Float × Float) :=
  let third := fullTurn / 3.0
  [triangle.corner (quarterTurn + third * 0.0), triangle.corner (quarterTurn + third * 1.0),
   triangle.corner (quarterTurn + third * 2.0)]

/-- The text of a request. -/
def text (triangle : Triangle) : String :=
  "triangle at (" ++ Decimal.plain.text triangle.x ++ ", " ++ Decimal.plain.text triangle.y ++
    ") radius " ++ Decimal.plain.text triangle.radius ++ " " ++ triangle.color.text

/-- A request as a document. -/
def toDocument (triangle : Triangle) : Document :=
  .record [("x", .number triangle.x), ("y", .number triangle.y),
    ("radius", .number triangle.radius), ("color", triangle.color.toDocument)]

end Triangle

end FrameScript
