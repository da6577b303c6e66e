import FrameScript.Code
import FrameScript.Token

/-!
# Errors

Why a text is no program, why a program does not compile, and why a run aborts. Every error is a
cause; its wording is in one function.
-/

namespace FrameScript

/-- Why the tokens of a line are no statement, or why a line has no place in a program. -/
inductive Complaint where
  | emptyStatement
  | noCallOrAssignment (name : String)
  | noOpenParen (keyword : Token)
  | noDeclaration
  | statementStart (token : Token)
  | noCloseParen
  | afterStatement (token : Token)
  | noOperand
  | numberForm (text : String)
  | numberRange (text : String)
  | afterCloseBrace (token : Token)
  | noOpenBlock
  /-- A complaint of the host, in its own words. -/
  | other (text : String)
  deriving DecidableEq, Repr

/-- The wording of a complaint. -/
def Complaint.message : Complaint → String
  | .emptyStatement => "empty statement"
  | .noCallOrAssignment name => "expected '(' or '=' after '" ++ name ++ "'"
  | .noOpenParen keyword => "expected '(' after '" ++ keyword.lexeme ++ "'"
  | .noDeclaration => "expected 'var <name> = <expression>'"
  | .statementStart token => "unexpected '" ++ token.lexeme ++ "' at start of statement"
  | .noCloseParen => "missing ')'"
  | .afterStatement token => "unexpected '" ++ token.lexeme ++ "' after end of statement"
  | .noOperand => "missing operand"
  | .numberForm text => "invalid number literal '" ++ text ++ "'"
  | .numberRange text => "number literal out of range '" ++ text ++ "'"
  | .afterCloseBrace token => "unexpected '" ++ token.lexeme ++ "' after '\x7d'"
  | .noOpenBlock => "'\x7d' without an open block"
  | .other text => text

/-- Why a run aborts. -/
inductive Fault where
  | pastEnd (ip : Nat)
  | malformed (instruction : Instruction)
  | callUnderflow (name : String)
  | noValue (name : String)
  | underflow
  | notNumber (value : Value)
  | notBool (value : Value)
  | noTarget (op : Opcode)
  | noSlot (index count : Nat)
  | nothingToPrint
  | missingArgument (name : String) (position : Nat)
  | argumentKind (name : String) (position : Nat) (value : Value)
  /-- A fault of the host, in its own words. -/
  | other (text : String)
  deriving DecidableEq, Repr

/-- The wording of a fault. -/
def Fault.message : Fault → String
  | .pastEnd ip => "instruction pointer " ++ toString ip ++ " is past the end"
  | .malformed instruction => "malformed instruction: " ++ instruction.text
  | .callUnderflow name => "stack underflow calling " ++ name
  | .noValue name => name ++ " returned no value"
  | .underflow => "stack underflow"
  | .notNumber value => "expected a number, got " ++ value.kindName
  | .notBool value => "condition must be a bool, got " ++ value.kindName
  | .noTarget op => op.name ++ " has no resolved jump target"
  | .noSlot index count =>
    "local slot " ++ toString index ++ " out of range (" ++ toString count ++ " locals)"
  | .nothingToPrint => "Print is missing its argument"
  | .missingArgument name position => name ++ " is missing argument " ++ toString position
  | .argumentKind name position value =>
    name ++ " expects a number for argument " ++ toString position ++ " but got " ++ value.kindName
  | .other text => text

/-- What can go wrong from source text to the end of a run. -/
inductive ScriptError where
  | unknownCharacter (ch : Char) (column : Nat)
  | malformed (complaint : Complaint)
  /-- Several operands in a row, with nothing to combine them. -/
  | noOperator (run : String)
  /-- A token that cannot be an operand. -/
  | unexpectedNode (description : String)
  | undefinedVariable (name : String)
  | duplicateVariable (name : String)
  | unknownFunction (name : String)
  | arityMismatch (name : String) (expected found : Nat)
  | noReturnValue (name : String)
  | fault (cause : Fault)
  /-- An error in a line of a program, counted from one. -/
  | line (number : Nat) (source : ScriptError)
  deriving DecidableEq, Repr

namespace ScriptError

/-- The wording of an error. -/
def message : ScriptError → String
  | .unknownCharacter ch column =>
    "Unknown character '" ++ ch.toString ++ "' at column " ++ toString column
  | .malformed complaint => "Syntax error: " ++ complaint.message
  | .noOperator run => "No operator found in expression: " ++ run
  | .unexpectedNode description => "Unexpected node kind: " ++ description
  | .undefinedVariable name => "Undefined variable: " ++ name
  | .duplicateVariable name => "Variable already declared: " ++ name
  | .unknownFunction name => "Unknown function: " ++ name
  | .arityMismatch name expected found =>
    name ++ " expects " ++ toString expected ++ " argument(s) but got " ++ toString found
  | .noReturnValue name => name ++ " does not return a value"
  | .fault cause => "Runtime fault: " ++ cause.message
  | .line number source => "Line " ++ toString number ++ ": " ++ source.message

/-- Whether an error was raised by a run. -/
def isRuntime : ScriptError → Bool
  | .fault _ => true
  | _ => false

/-- The errors inside an error, outermost first. -/
def sources : ScriptError → List ScriptError
  | .line _ source => source :: source.sources
  | _ => []

/-- An error as the runner reports it. -/
def report (error : ScriptError) : String :=
  "Script error: " ++ error.message

end ScriptError

end FrameScript
