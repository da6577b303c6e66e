import FrameScript.Token

/-!
# Programs

The tree of a program: statements in order, some of which hold a body of further statements.
-/

namespace FrameScript

/-- The operators between two operands. -/
inductive BinaryOp where
  | add
  | sub
  | mul
  | div
  | less
  | greater
  deriving DecidableEq, Repr

namespace BinaryOp

/-- The operator that a token stands for. -/
def ofToken? : Token → Option BinaryOp
  | .plus => some .add
  | .minus => some .sub
  | .star => some .mul
  | .slash => some .div
  | .less => some .less
  | .greater => some .greater
  | _ => none

/-- How loosely an operator binds: a heavier one stands nearer to the root. -/
def weight : BinaryOp → Nat
  | .mul | .div => 0
  | .add | .sub => 5
  | .less | .greater => 10

/-- The sign of an operator. -/
def symbol : BinaryOp → String
  | .add => "+"
  | .sub => "-"
  | .mul => "*"
  | .div => "/"
  | .less => "<"
  | .greater => ">"

/-- The name of an operator in documents. -/
def name : BinaryOp → String
  | .add => "Add"
  | .sub => "Sub"
  | .mul => "Mul"
  | .div => "Div"
  | .less => "Less"
  | .greater => "Greater"

/-- Every operator. -/
def all : List BinaryOp :=
  [.add, .sub, .mul, .div, .less, .greater]

end BinaryOp

/-- An expression. -/
inductive Expr where
  | number (x : Float)
  | bool (b : Bool)
  | variable (name : String)
  | binary (left : Expr) (op : BinaryOp) (right : Expr)
  /-- A call whose result is used. -/
  | call (name : String) (args : List Expr)
  deriving Repr

/-- A statement. -/
inductive Stmt where
  /-- A call whose result, if any, is dropped. -/
  | call (name : String) (args : List Expr)
  | assign (name : String) (value : Expr)
  | declare (name : String) (initializer : Expr)
  | cond (condition : Expr) (body : List Stmt)
  | loop (condition : Expr) (body : List Stmt)
  | leave
  /-- Stops until the host resumes. -/
  | suspend
  deriving Repr

/-- A whole program. -/
structure Program where
  statements : List Stmt := []
  deriving Repr

namespace Expr

mutual

/-- Equality of expressions, with numbers compared as numbers. -/
def same : Expr → Expr → Bool
  | .number x, .number y => x == y
  | .bool a, .bool b => a == b
  | .variable a, .variable b => a == b
  | .binary l op r, .binary l' op' r' => l.same l' && op == op' && r.same r'
  | .call f args, .call g args' => f == g && sameList args args'
  | _, _ => false

/-- Equality of lists of expressions. -/
def sameList : List Expr → List Expr → Bool
  | [], [] => true
  | a :: as, b :: bs => a.same b && sameList as bs
  | _, _ => false

end

mutual

/-- The source text of an expression. -/
def text : Expr → String
  | .number x => Decimal.plain.text x
  | .bool b => Document.truthText b
  | .variable name => name
  | .binary left op right => left.text ++ " " ++ op.symbol ++ " " ++ right.text
  | .call name args => name ++ "(" ++ listText args ++ ")"

/-- The source text of a list of arguments. -/
def listText : List Expr → String
  | [] => ""
  | [arg] => arg.text
  | arg :: args => arg.text ++ ", " ++ listText args

end

mutual

/-- An expression as a document. -/
def toDocument : Expr → Document
  | .number x => .case "Number" (.number x)
  | .bool b => .case "Bool" (.truth b)
  | .variable name => .case "Variable" (.text name)
  | .binary left op right =>
    .case "Binary" (.record
      [("left", left.toDocument), ("op", .text op.name), ("right", right.toDocument)])
  | .call name args =>
    .case "Call" (.record [("name", .text name), ("args", .list (toDocuments args))])

/-- Each of several expressions as a document. -/
def toDocuments : List Expr → List Document
  | [] => []
  | e :: es => e.toDocument :: toDocuments es

end

end Expr

namespace Stmt

/-- The body of a statement that has one. -/
def body? : Stmt → Option (List Stmt)
  | .cond _ body | .loop _ body => some body
  | _ => none

/-- Whether a statement has a body. -/
def hasBody (s : Stmt) : Bool :=
  s.body?.isSome

/-- The same statement with another body, if it has one. -/
def withBody (s : Stmt) (body : List Stmt) : Stmt :=
  match s with
  | .cond condition _ => .cond condition body
  | .loop condition _ => .loop condition body
  | s => s

mutual

/-- Equality of statements, with numbers compared as numbers. -/
def same : Stmt → Stmt → Bool
  | .call f args, .call g args' => f == g && Expr.sameList args args'
  | .assign a e, .assign b e' => a == b && e.same e'
  | .declare a e, .declare b e' => a == b && e.same e'
  | .cond e body, .cond e' body' => e.same e' && sameList body body'
  | .loop e body, .loop e' body' => e.same e' && sameList body body'
  | .leave, .leave => true
  | .suspend, .suspend => true
  | _, _ => false

/-- Equality of lists of statements. -/
def sameList : List Stmt → List Stmt → Bool
  | [], [] => true
  | a :: as, b :: bs => a.same b && sameList as bs
  | _, _ => false

end

/-- Four blanks for each level of nesting. -/
def indent (depth : Nat) : String :=
  String.ofList (List.replicate (4 * depth) ' ')

mutual

/-- The source lines of a statement at a depth of nesting. -/
def textAt (depth : Nat) : Stmt → String
  | .call name args => indent depth ++ name ++ "(" ++ Expr.listText args ++ ")\n"
  | .assign name value => indent depth ++ name ++ " = " ++ value.text ++ "\n"
  | .declare name initializer =>
    indent depth ++ "var " ++ name ++ " = " ++ initializer.text ++ "\n"
  | .cond condition body =>
    indent depth ++ "if (" ++ condition.text ++ ") \x7b\n" ++ bodyText (depth + 1) body ++
      indent depth ++ "\x7d\n"
  | .loop condition body =>
    indent depth ++ "while (" ++ condition.text ++ ") \x7b\n" ++ bodyText (depth + 1) body ++
      indent depth ++ "\x7d\n"
  | .leave => indent depth ++ "break\n"
  | .suspend => indent depth ++ "yield\n"

/-- The source lines of several statements. -/
def bodyText (depth : Nat) : List Stmt → String
  | [] => ""
  | s :: body => s.textAt depth ++ bodyText depth body

end

/-- The source text of a statement. -/
def text (s : Stmt) : String :=
  s.textAt 0

mutual

/-- A statement as a document. -/
def toDocument : Stmt → Document
  | .call name args =>
    .case "Call" (.record [("name", .text name), ("args", .list (Expr.toDocuments args))])
  | .assign name value =>
    .case "Assign" (.record [("name", .text name), ("value", value.toDocument)])
  | .declare name initializer =>
    .case "Var" (.record [("name", .text name), ("initializer", initializer.toDocument)])
  | .cond condition body =>
    .case "If" (.record
      [("condition", condition.toDocument), ("body", .list (toDocuments body))])
  | .loop condition body =>
    .case "While" (.record
      [("condition", condition.toDocument), ("body", .list (toDocuments body))])
  | .leave => .text "Break"
  | .suspend => .text "Yield"

/-- Each of several statements as a document. -/
def toDocuments : List Stmt → List Document
  | [] => []
  | s :: body => s.toDocument :: toDocuments body

end

end Stmt

namespace Program

/-- Equality of programs, with numbers compared as numbers. -/
def same (p q : Program) : Bool :=
  Stmt.sameList p.statements q.statements

/-- The source text of a program. -/
def text (p : Program) : String :=
  Stmt.bodyText 0 p.statements

/-- A program as a document. -/
def toDocument (p : Program) : Document :=
  .record [("statements", .list (Stmt.toDocuments p.statements))]

end Program

end FrameScript
