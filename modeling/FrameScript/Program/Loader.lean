import FrameScript.Program.Parser
import FrameScript.Text.Lines

/-!
# Programs from source text

A header opens a block, a line with a closing brace alone ends the innermost one, and every other
statement goes to the innermost open block. Blocks still open at the end of the text end there.
-/

namespace FrameScript

/-- A header whose body is still being filled. -/
structure OpenBlock where
  header : Stmt
  body : List Stmt := []

/-- The statement of a block that ends with further statements. -/
def OpenBlock.endWith (block : OpenBlock) (last : List Stmt) : Stmt :=
  block.header.withBody (block.body ++ last)

/-- A program while its lines are read: the statements at the top, and the open blocks, the
innermost one first. -/
structure Unfinished where
  statements : List Stmt := []
  blocks : List OpenBlock := []

namespace Unfinished

/-- Adds a statement to the innermost open block, or at the top. -/
def append (u : Unfinished) (s : Stmt) : Unfinished :=
  match u.blocks with
  | [] => { u with statements := u.statements ++ [s] }
  | block :: outer => { u with blocks := { block with body := block.body ++ [s] } :: outer }

/-- Opens the block of a header. -/
def openBlock (u : Unfinished) (header : Stmt) : Unfinished :=
  { u with blocks := { header } :: u.blocks }

/-- Ends the innermost open block, if there is one. -/
def closeBlock? (u : Unfinished) : Option Unfinished :=
  match u.blocks with
  | [] => none
  | block :: outer => some ({ u with blocks := outer }.append (block.endWith []))

/-- Reads one line. -/
def takeLine (u : Unfinished) (line : String) : Except ScriptError Unfinished := do
  let tokens ← Token.ofText line
  match tokens with
  | [] => return u
  | [.closeBrace] =>
    match u.closeBlock? with
    | none => .error (.malformed .noOpenBlock)
    | some closed => return closed
  | .closeBrace :: token :: _ => .error (.malformed (.afterCloseBrace token))
  | tokens =>
    let s ← Stmt.ofTokens tokens
    return if s.hasBody then u.openBlock s else u.append s

/-- Reads lines, the first of which has the given number. An error names its line. -/
def takeLines : Nat → List String → Unfinished → Except ScriptError Unfinished
  | _, [], u => .ok u
  | number, line :: lines, u =>
    match u.takeLine line with
    | .error error => .error (.line number error)
    | .ok u => takeLines (number + 1) lines u

/-- What open blocks, innermost first, add to the top when they all end, the innermost one with
further statements. -/
def closeAll : List OpenBlock → List Stmt → List Stmt
  | [], last => last
  | block :: outer, last => closeAll outer [block.endWith last]

/-- The program, with all open blocks ended. -/
def finish (u : Unfinished) : Program where
  statements := u.statements ++ closeAll u.blocks []

end Unfinished

/-- Reads all lines of a source text. -/
def Program.read (source : String) : Except ScriptError Unfinished :=
  Unfinished.takeLines 1 (Text.lines source) {}

/-- The program that a source text holds. -/
def Program.load (source : String) : Except ScriptError Program :=
  (Program.read source).map Unfinished.finish

end FrameScript
