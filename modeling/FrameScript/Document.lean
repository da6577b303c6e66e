import FrameScript.Decimal.Format
import FrameScript.Text.Quoted

/-!
# Documents

Structured data for other tools: the form in which trees and code are dumped. A document is printed
on one line or, indented by two spaces a level, with one entry a line. Fields keep their order.
-/

namespace FrameScript

/-- Structured data. -/
inductive Document where
  | truth (b : Bool)
  | natural (n : Nat)
  | number (x : Float)
  | text (s : String)
  | list (items : List Document)
  | record (fields : List (String × Document))

namespace Document

/-- A record of one field, which names the case of a value. -/
def case (name : String) (value : Document) : Document :=
  .record [(name, value)]

/-- The text of a truth value. -/
def truthText (b : Bool) : String :=
  if b then "true" else "false"

mutual

/-- A document on one line. -/
def compact : Document → String
  | .truth b => truthText b
  | .natural n => toString n
  | .number x => Decimal.document.text x
  | .text s => Text.quoted s
  | .list items => "[" ++ compactItems items ++ "]"
  | .record fields => "\x7b" ++ compactFields fields ++ "\x7d"

/-- Items separated by commas. -/
def compactItems : List Document → String
  | [] => ""
  | [item] => item.compact
  | item :: items => item.compact ++ "," ++ compactItems items

/-- Fields separated by commas. -/
def compactFields : List (String × Document) → String
  | [] => ""
  | [(name, value)] => Text.quoted name ++ ":" ++ value.compact
  | (name, value) :: fields =>
    Text.quoted name ++ ":" ++ value.compact ++ "," ++ compactFields fields

end

/-- A new line indented to a level. -/
def newLine (level : Nat) : String :=
  String.ofList ('\n' :: List.replicate (2 * level) ' ')

mutual

/-- A document with one entry a line, at a level of indentation. -/
def prettyAt (level : Nat) : Document → String
  | .list (item :: items) =>
    "[" ++ prettyItems (level + 1) (item :: items) ++ newLine level ++ "]"
  | .record (field :: fields) =>
    "\x7b" ++ prettyFields (level + 1) (field :: fields) ++ newLine level ++ "\x7d"
  | .list [] => "[]"
  | .record [] => "\x7b\x7d"
  | .truth b => truthText b
  | .natural n => toString n
  | .number x => Decimal.document.text x
  | .text s => Text.quoted s

/-- Items, each on a line of its own. -/
def prettyItems (level : Nat) : List Document → String
  | [] => ""
  | [item] => newLine level ++ item.prettyAt level
  | item :: items => newLine level ++ item.prettyAt level ++ "," ++ prettyItems level items

/-- Fields, each on a line of its own. -/
def prettyFields (level : Nat) : List (String × Document) → String
  | [] => ""
  | [(name, value)] => newLine level ++ Text.quoted name ++ ": " ++ value.prettyAt level
  | (name, value) :: fields =>
    newLine level ++ Text.quoted name ++ ": " ++ value.prettyAt level ++ "," ++
      prettyFields level fields

end

/-- A document with one entry a line. -/
def pretty (document : Document) : String :=
  document.prettyAt 0

end Document

end FrameScript
