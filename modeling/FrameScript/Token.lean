import FrameScript.Document

/-!
# Tokens

The words of one line of source text. Number tokens keep their text, so that a malformed run of
digits and points is still one token.
-/

namespace FrameScript

/-- A word of the language. -/
inductive Token where
  | number (text : String)
  | identifier (name : String)
  | ifWord
  | whileWord
  | varWord
  | breakWord
  | trueWord
  | falseWord
  | yieldWord
  | plus
  | minus
  | star
  | slash
  | less
  | greater
  | assign
  | openParen
  | closeParen
  | openBrace
  | closeBrace
  | comma
  | finish
  deriving DecidableEq, Repr

namespace Token

/-- The source text of a token. The end of the line has none. -/
def lexeme : Token → String
  | .number text => text
  | .identifier name => name
  | .ifWord => "if"
  | .whileWord => "while"
  | .varWord => "var"
  | .breakWord => "break"
  | .trueWord => "true"
  | .falseWord => "false"
  | .yieldWord => "yield"
  | .plus => "+"
  | .minus => "-"
  | .star => "*"
  | .slash => "/"
  | .less => "<"
  | .greater => ">"
  | .assign => "="
  | .openParen => "("
  | .closeParen => ")"
  | .openBrace => "\x7b"
  | .closeBrace => "\x7d"
  | .comma => ","
  | .finish => ""

/-- The name of a token's kind in messages. -/
def kindName : Token → String
  | .number _ => "Number"
  | .identifier _ => "Varname"
  | .ifWord => "If"
  | .whileWord => "While"
  | .varWord => "Var"
  | .breakWord => "Break"
  | .trueWord => "True"
  | .falseWord => "False"
  | .yieldWord => "Yield"
  | .plus => "Add"
  | .minus => "Sub"
  | .star => "Mul"
  | .slash => "Div"
  | .less => "LT"
  | .greater => "MT"
  | .assign => "Equals"
  | .openParen => "OpenParen"
  | .closeParen => "CloseParen"
  | .openBrace => "OpenCurly"
  | .closeBrace => "CloseCurly"
  | .comma => "Comma"
  | .finish => "EOF"

/-- Whether two tokens are of one kind, whatever their text. -/
def sameKind (a b : Token) : Bool :=
  a.kindName == b.kindName

/-- The keyword or identifier that a word spells. -/
def ofWord (word : String) : Token :=
  if word = "if" then .ifWord
  else if word = "while" then .whileWord
  else if word = "var" then .varWord
  else if word = "break" then .breakWord
  else if word = "true" then .trueWord
  else if word = "false" then .falseWord
  else if word = "yield" then .yieldWord
  else .identifier word

/-- The token of one sign, for the characters that are one. -/
def ofSign? : Char → Option Token
  | '+' => some .plus
  | '-' => some .minus
  | '*' => some .star
  | '/' => some .slash
  | '<' => some .less
  | '>' => some .greater
  | '=' => some .assign
  | '(' => some .openParen
  | ')' => some .closeParen
  | '\x7b' => some .openBrace
  | '\x7d' => some .closeBrace
  | ',' => some .comma
  | _ => none

/-- A token as a document. -/
def toDocument : Token → Document
  | .number text => .case "Number" (.text text)
  | .identifier name => .case "Identifier" (.text name)
  | .ifWord => .text "If"
  | .whileWord => .text "While"
  | .varWord => .text "Var"
  | .breakWord => .text "Break"
  | .trueWord => .text "True"
  | .falseWord => .text "False"
  | .yieldWord => .text "Yield"
  | .plus => .text "Plus"
  | .minus => .text "Minus"
  | .star => .text "Star"
  | .slash => .text "Slash"
  | .less => .text "Less"
  | .greater => .text "Greater"
  | .assign => .text "Assign"
  | .openParen => .text "LParen"
  | .closeParen => .text "RParen"
  | .openBrace => .text "LBrace"
  | .closeBrace => .text "RBrace"
  | .comma => .text "Comma"
  | .finish => .text "EOF"

end Token

end FrameScript
