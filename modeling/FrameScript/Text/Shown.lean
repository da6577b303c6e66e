import FrameScript.Text.Blank
import FrameScript.Text.HiddenTable
import FrameScript.Text.Quoted

/-!
# Names in diagnostics

A name is shown between double quotes. Characters that would not show, or that would alter how
another one shows, are given by number.
-/

namespace FrameScript.Text

/-- One character inside a shown name. -/
def shownEscape (c : Char) : List Char :=
  if c = Char.ofNat 0 then ['\\', '0']
  else if c = '\t' then ['\\', 't']
  else if c = '\n' then ['\\', 'n']
  else if c = '\r' then ['\\', 'r']
  else if c = '"' then ['\\', '"']
  else if c = '\\' then ['\\', '\\']
  else if within hiddenRanges c then bracedEscape c
  else [c]

/-- A name as diagnostics show it. -/
def shown (name : String) : String :=
  quotedWith shownEscape name

end FrameScript.Text
