/-!
# Lines of a text

A line ends at a line feed, which may follow one carriage return; both belong to the ending. Text
after the last line feed is a line of its own if there is any.
-/

namespace FrameScript.Text

/-- The lines of a list of characters, without their endings. -/
def splitLines : List Char → List (List Char)
  | [] => []
  | '\r' :: '\n' :: rest => [] :: splitLines rest
  | '\n' :: rest => [] :: splitLines rest
  | c :: rest =>
    match splitLines rest with
    | [] => [[c]]
    | line :: lines => (c :: line) :: lines

/-- The lines of a text, without their endings. -/
def lines (text : String) : List String :=
  (splitLines text.toList).map String.ofList

end FrameScript.Text
