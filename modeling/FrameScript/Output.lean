import FrameScript.Triangle

/-!
# Output

What a running script hands to its host: lines for the console and triangles to draw. Output stays
pending until the host takes it; the two kinds are taken apart and forgotten together.
-/

namespace FrameScript

/-- Pending output, oldest first. -/
structure Output where
  console : Array String := #[]
  triangles : Array Triangle := #[]

namespace Output

/-- Adds a console line. -/
def print (output : Output) (line : String) : Output :=
  { output with console := output.console.push line }

/-- Adds a triangle. -/
def draw (output : Output) (triangle : Triangle) : Output :=
  { output with triangles := output.triangles.push triangle }

/-- The output without its console lines. -/
def dropConsole (output : Output) : Output :=
  { output with console := #[] }

/-- The output without its triangles. -/
def dropTriangles (output : Output) : Output :=
  { output with triangles := #[] }

end Output

end FrameScript
