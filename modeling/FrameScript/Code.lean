import FrameScript.Value

/-!
# Code

The instructions of the stack machine. A function is one flat list of them; a jump names the
absolute index of its target.
-/

namespace FrameScript

/-- What an instruction does. -/
inductive Opcode where
  /-- Calls a function of the host. -/
  | call
  | add
  | sub
  | mul
  | div
  | less
  | greater
  /-- Pushes a number. -/
  | constNumber
  /-- Pushes a truth value. -/
  | constBool
  /-- Pops into a slot. -/
  | setLocal
  /-- Pushes what a slot holds. -/
  | getLocal
  /-- Pops a truth value and jumps if it is false. -/
  | branch
  /-- Jumps. -/
  | goto
  /-- Stops until the host resumes. -/
  | suspend
  /-- Ends the program. -/
  | finish
  deriving DecidableEq, Repr

/-- The name of an opcode in listings. -/
def Opcode.name : Opcode → String
  | .call => "OpCall"
  | .add => "OpAdd"
  | .sub => "OpSub"
  | .mul => "OpMul"
  | .div => "OpDiv"
  | .less => "OpLess"
  | .greater => "OpGreater"
  | .constNumber => "OpConstNumber"
  | .constBool => "OpConstBool"
  | .setLocal => "OpSetLocal"
  | .getLocal => "OpGetLocal"
  | .branch => "OpIf"
  | .goto => "OpGoto"
  | .suspend => "OpYield"
  | .finish => "OpReturn"

/-- Every opcode. -/
def Opcode.all : List Opcode :=
  [.call, .add, .sub, .mul, .div, .less, .greater, .constNumber, .constBool, .setLocal, .getLocal,
   .branch, .goto, .suspend, .finish]

/-- A resolved call: the name, the number of arguments, and whether the result is pushed. -/
structure CallSite where
  name : String
  arity : Nat
  producesValue : Bool
  deriving DecidableEq, Repr

/-- The operand of an instruction. Which kind makes sense depends on the opcode. -/
inductive Operand where
  | absent
  | jump (target : Nat)
  | slot (index : Nat)
  | number (x : Float)
  | bool (b : Bool)
  | callee (site : CallSite)
  deriving DecidableEq, Repr

/-- One step of a function. -/
structure Instruction where
  op : Opcode
  operand : Operand := .absent
  deriving DecidableEq, Repr

/-- A number in decimal, filled up with zeros to four digits. -/
def fourDigits (n : Nat) : String :=
  let digits := Nat.toDigits 10 n
  String.ofList (List.replicate (4 - digits.length) '0' ++ digits)

namespace Instruction

/-- Whether the instruction is a jump. -/
def isJump (i : Instruction) : Bool :=
  i.op == .branch || i.op == .goto

/-- The target of a jump that has one. -/
def target? (i : Instruction) : Option Nat :=
  match i.operand with
  | .jump target => if i.isJump then some target else none
  | _ => none

/-- The same instruction with a jump target. -/
def aimedAt (i : Instruction) (target : Nat) : Instruction :=
  { i with operand := .jump target }

/-- What a listing shows behind the opcode. -/
def operandText (i : Instruction) : String :=
  match i.operand with
  | .absent => if i.isJump then " ?" else ""
  | .jump target => " -> " ++ fourDigits target
  | .slot index => " #" ++ toString index
  | .number x => " " ++ Decimal.plain.text x
  | .bool b => " " ++ Document.truthText b
  | .callee site =>
    " " ++ site.name ++ "/" ++ toString site.arity ++ if site.producesValue then " -> value" else ""

/-- The text of an instruction in a listing. -/
def text (i : Instruction) : String :=
  i.op.name ++ i.operandText

end Instruction

/-- A compiled program: its instructions and the number of its variables. -/
structure Function where
  instructions : Array Instruction := #[]
  localCount : Nat := 0
  deriving DecidableEq, Repr

namespace Function

/-- The indices of jumps without a target, in order. -/
def unresolvedJumps (f : Function) : List Nat :=
  (f.instructions.toList.zipIdx.filter fun (i, _) => i.isJump && i.target?.isNone).map Prod.snd

/-- The heading of a listing. -/
def headingText (f : Function) (name : String) : String :=
  "== " ++ name ++ " (" ++ toString f.localCount ++ " locals) ==\n"

/-- Numbered instructions, one a line. -/
def listingLines : Nat → List Instruction → String
  | _, [] => ""
  | index, i :: rest =>
    fourDigits index ++ " " ++ i.text ++ "\n" ++ listingLines (index + 1) rest

/-- The listing of a function under a name. -/
def listing (f : Function) (name : String) : String :=
  f.headingText name ++ listingLines 0 f.instructions.toList

end Function

/-- A call as a document. -/
def CallSite.toDocument (site : CallSite) : Document :=
  .record [("name", .text site.name), ("arity", .natural site.arity),
    ("produces_value", .truth site.producesValue)]

/-- An operand as a document. -/
def Operand.toDocument : Operand → Document
  | .absent => .text "None"
  | .jump target => .case "Jump" (.natural target)
  | .slot index => .case "Slot" (.natural index)
  | .number x => .case "Number" (.number x)
  | .bool b => .case "Bool" (.truth b)
  | .callee site => .case "Builtin" site.toDocument

/-- An instruction as a document. -/
def Instruction.toDocument (i : Instruction) : Document :=
  .record [("op", .text i.op.name), ("operand", i.operand.toDocument)]

/-- A function as a document. -/
def Function.toDocument (f : Function) : Document :=
  .record [("instructions", .list (f.instructions.toList.map Instruction.toDocument)),
    ("local_count", .natural f.localCount)]

end FrameScript
