import FrameScript.Text.Blank
import FrameScript.Text.CaseTable

/-!
# Lower case

Each character becomes its lower-case partner. A capital sigma becomes the final form at the end of
a word, and a dotted capital I keeps its dot as a mark.
-/

namespace FrameScript.Text

/-- The lower-case partner of one character, wherever it stands. -/
def lowerChar (c : Char) : List Char :=
  if c.toNat < 0x80 then [c.toLower]
  else if c.toNat = 0x0130 then ['i', Char.ofNat 0x0307]
  else
    match lowerRuns.find? fun (first, last, step, _) =>
        first ≤ c.toNat && c.toNat ≤ last && (c.toNat - first) % step == 0 with
    | some (_, _, _, distance) => [Char.ofNat (c.toNat + distance).toNat]
    | none => [c]

/-- Whether the first character that separates or forms letters is a letter with case. -/
def meetsCased (cs : List Char) : Bool :=
  match cs.dropWhile (within caseIgnorableRanges) with
  | [] => false
  | c :: _ => within casedRanges c

/-- Lower case, given the characters before in reverse order. -/
def lowerAfter : List Char → List Char → List Char
  | _, [] => []
  | before, c :: rest =>
    (if c.toNat = 0x03A3 then
      [Char.ofNat (if meetsCased before && !meetsCased rest then 0x03C2 else 0x03C3)]
    else lowerChar c) ++ lowerAfter (c :: before) rest

/-- A text in lower case. -/
def lower (text : String) : String :=
  String.ofList (lowerAfter [] text.toList)

end FrameScript.Text
