import FrameScript.Text.Quoted

/-!
# Text that leaves a terminal alone

A terminal takes some control characters for commands. A text that is meant to be read names these
by number, so that nothing in it can drive the terminal.
-/

namespace FrameScript.Text

/-- The single-byte controls that are taken for commands: bell, backspace, form feed, escape and
delete. -/
def commandCodes : List Nat :=
  [0x07, 0x08, 0x0C, 0x1B, 0x7F]

/-- One character of a text that leaves a terminal alone. The controls from U+0080 to U+009F are all
taken for commands. -/
def inertEscape (c : Char) : List Char :=
  if commandCodes.contains c.toNat then
    let digits := hexDigits c.toNat
    '\\' :: 'x' :: (List.replicate (2 - digits.length) '0' ++ digits)
  else if 0x80 ≤ c.toNat ∧ c.toNat ≤ 0x9F then bracedEscape c
  else [c]

/-- A text that leaves a terminal alone. -/
def inert (text : String) : String :=
  String.ofList (text.toList.flatMap inertEscape)

end FrameScript.Text
