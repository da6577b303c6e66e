import FrameScript.Output

/-!
# Handles on output

Several parts of a host may hold the same pending output. A handle names the output that it leads
to; a copy of a handle leads to the same output, a fresh handle to an output of its own.
-/

namespace FrameScript

/-- Outputs, and the handles that lead to them. -/
structure Handles where
  outputs : Array Output := #[]
  /-- For each handle the index of its output. -/
  owners : Array Nat := #[]

namespace Handles

/-- Adds a handle to a fresh output. -/
def create (h : Handles) : Handles where
  outputs := h.outputs.push {}
  owners := h.owners.push h.outputs.size

/-- Adds a copy of a handle, if there is such a handle. -/
def copy (h : Handles) (handle : Nat) : Handles :=
  match h.owners[handle]? with
  | none => h
  | some owner => { h with owners := h.owners.push owner }

/-- The output that a handle leads to. -/
def output? (h : Handles) (handle : Nat) : Option Output := do
  let owner ← h.owners[handle]?
  h.outputs[owner]?

/-- Changes the output that a handle leads to. -/
def update (h : Handles) (handle : Nat) (change : Output → Output) : Handles :=
  match h.owners[handle]? with
  | none => h
  | some owner => { h with outputs := h.outputs.modify owner change }

/-- The pending console lines behind a handle. -/
def console (h : Handles) (handle : Nat) : List String :=
  match h.output? handle with
  | none => []
  | some output => output.console.toList

/-- The pending triangles behind a handle. -/
def triangles (h : Handles) (handle : Nat) : List Triangle :=
  match h.output? handle with
  | none => []
  | some output => output.triangles.toList

/-- Prints a line through a handle. -/
def print (h : Handles) (handle : Nat) (line : String) : Handles :=
  h.update handle (·.print line)

/-- Draws a triangle through a handle. -/
def draw (h : Handles) (handle : Nat) (triangle : Triangle) : Handles :=
  h.update handle (·.draw triangle)

/-- Takes the pending console lines through a handle. -/
def takeConsole (h : Handles) (handle : Nat) : List String × Handles :=
  (h.console handle, h.update handle Output.dropConsole)

/-- Takes the pending triangles through a handle. -/
def takeTriangles (h : Handles) (handle : Nat) : List Triangle × Handles :=
  (h.triangles handle, h.update handle Output.dropTriangles)

/-- Forgets all pending output behind a handle. -/
def clear (h : Handles) (handle : Nat) : Handles :=
  h.update handle fun _ => {}

end Handles

end FrameScript
