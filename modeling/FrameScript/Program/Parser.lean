import FrameScript.Decimal.Reader
import FrameScript.Program
import FrameScript.Token.Lexer

/-!
# Statements from tokens

One line holds one statement. Calls inside an expression are folded first, from left to right; what
is left is split at its heaviest operator, the rightmost one of several, so that chains lean to the
left. Parentheses only enclose arguments and conditions; they never group.
-/

namespace FrameScript

/-- The tokens up to the parenthesis that closes `depth` nested ones and the first, and those
behind. -/
def Token.upToClose : Nat → List Token → Option (List Token × List Token)
  | _, [] => none
  | 0, .closeParen :: rest => some ([], rest)
  | depth + 1, .closeParen :: rest =>
    (Token.upToClose depth rest).map fun (inner, after) => (.closeParen :: inner, after)
  | depth, .openParen :: rest =>
    (Token.upToClose (depth + 1) rest).map fun (inner, after) => (.openParen :: inner, after)
  | depth, token :: rest =>
    (Token.upToClose depth rest).map fun (inner, after) => (token :: inner, after)

/-- The enclosed tokens, one closing parenthesis, and the tokens behind make up the list. -/
theorem Token.eq_of_upToClose {depth : Nat} {tokens inner rest : List Token}
    (h : Token.upToClose depth tokens = some (inner, rest)) :
    tokens = inner ++ .closeParen :: rest := by
  fun_induction Token.upToClose depth tokens generalizing inner rest <;> simp_all
  all_goals grind

/-- The runs of tokens between the commas outside all parentheses, at a depth of nesting. -/
def Token.splitAtCommas : Nat → List Token → List Token × List (List Token)
  | _, [] => ([], [])
  | 0, .comma :: rest =>
    let (first, others) := Token.splitAtCommas 0 rest
    ([], first :: others)
  | depth, token :: rest =>
    let deeper := match token with
      | .openParen => depth + 1
      | .closeParen => depth - 1
      | _ => depth
    let (first, others) := Token.splitAtCommas deeper rest
    (token :: first, others)

/-- The arguments of a call, as runs of tokens. No tokens are no arguments. -/
def Token.argumentRuns (tokens : List Token) : List (List Token) :=
  if tokens.isEmpty then []
  else
    let (first, others) := Token.splitAtCommas 0 tokens
    first :: others

/-- How many tokens several runs hold, each with one separator. -/
def Token.runsLength : List (List Token) → Nat
  | [] => 0
  | run :: runs => run.length + 1 + Token.runsLength runs

/-- Splitting at commas loses nothing: the segments and the commas between them are as long as the
tokens. -/
theorem Token.runsLength_splitAtCommas (depth : Nat) (tokens : List Token) :
    Token.runsLength
      ((Token.splitAtCommas depth tokens).1 :: (Token.splitAtCommas depth tokens).2) =
        tokens.length + 1 := by
  fun_induction Token.splitAtCommas depth tokens <;>
    simp_all [Token.runsLength] <;> omega

/-- The arguments of a call are no longer than what its parentheses enclose. -/
theorem Token.runsLength_argumentRuns (tokens : List Token) :
    Token.runsLength (Token.argumentRuns tokens) ≤ tokens.length + 1 := by
  unfold Token.argumentRuns
  split
  · simp [Token.runsLength]
  · exact Nat.le_of_eq (Token.runsLength_splitAtCommas 0 tokens)

/-- One element of an expression once its calls are folded. -/
inductive Piece where
  | single (token : Token)
  | call (name : String) (args : List Expr)

namespace Piece

/-- The operator that an element stands for. -/
def op? : Piece → Option BinaryOp
  | .single token => BinaryOp.ofToken? token
  | .call _ _ => none

/-- The source text of an element. -/
def text : Piece → String
  | .single token => token.lexeme
  | .call name args => (Expr.call name args).text

/-- A number literal is finite; its text may be any decimal. -/
def numberLiteral (text : String) : Except ScriptError Expr :=
  match Decimal.read? text with
  | none => .error (.malformed (.numberForm text))
  | some x => if x.isFinite then .ok (.number x) else .error (.malformed (.numberRange text))

/-- An element as an operand. -/
def operand : Piece → Except ScriptError Expr
  | .call name args => .ok (.call name args)
  | .single (.number text) => numberLiteral text
  | .single .trueWord => .ok (.bool true)
  | .single .falseWord => .ok (.bool false)
  | .single (.identifier name) => .ok (.variable name)
  | .single token =>
    .error (.unexpectedNode
      (token.kindName ++ " '" ++ token.lexeme ++ "' cannot be used as a value"))

/-- The elements before the rightmost heaviest operator, the operator, and the elements behind. -/
def splitHeaviest : List Piece → Option (List Piece × BinaryOp × List Piece)
  | [] => none
  | piece :: rest =>
    match piece.op?, splitHeaviest rest with
    | none, none => none
    | none, some (left, op, right) => some (piece :: left, op, right)
    | some op, none => some ([], op, rest)
    | some op, some (left, best, right) =>
      if best.weight < op.weight then some ([], op, rest) else some (piece :: left, best, right)

/-- Both sides of the split are shorter than the whole. -/
theorem length_splitHeaviest {pieces left right : List Piece} {op : BinaryOp}
    (h : splitHeaviest pieces = some (left, op, right)) :
    left.length + right.length + 1 = pieces.length := by
  fun_induction splitHeaviest pieces generalizing left op right <;> simp_all
  all_goals grind

/-- The expression that elements form. -/
def climb (pieces : List Piece) : Except ScriptError Expr :=
  match pieces with
  | [] => .error (.malformed .noOperand)
  | [piece] => piece.operand
  | pieces =>
    match h : splitHeaviest pieces with
    | none => .error (.noOperator (" ".intercalate (pieces.map text)))
    | some (left, op, right) =>
      have := length_splitHeaviest h
      do
        let l ← climb left
        let r ← climb right
        return .binary l op r
termination_by pieces.length

end Piece

mutual

/-- The elements of a run of tokens, with every call folded. -/
def Token.fold (tokens : List Token) : Except ScriptError (List Piece) :=
  match tokens with
  | [] => .ok []
  | .identifier name :: .openParen :: rest =>
    match h : Token.upToClose 0 rest with
    | none => .error (.malformed .noCloseParen)
    | some (inner, after) =>
      have := congrArg List.length (Token.eq_of_upToClose h)
      have := Token.runsLength_argumentRuns inner
      do
        let args ← Token.parseRuns (Token.argumentRuns inner)
        let pieces ← Token.fold after
        return .call name args :: pieces
  | token :: rest => do
    let pieces ← Token.fold rest
    return .single token :: pieces
termination_by 2 * tokens.length + 1
decreasing_by all_goals simp_all <;> omega

/-- The expressions of several runs of tokens, from left to right. -/
def Token.parseRuns (runs : List (List Token)) : Except ScriptError (List Expr) :=
  match runs with
  | [] => .ok []
  | run :: others => do
    let pieces ← Token.fold run
    let first ← Piece.climb pieces
    let rest ← Token.parseRuns others
    return first :: rest
termination_by 2 * Token.runsLength runs
decreasing_by all_goals simp_all [Token.runsLength] <;> omega

end

/-- The expression of a run of tokens. -/
def Expr.ofTokens (tokens : List Token) : Except ScriptError Expr := do
  let pieces ← Token.fold tokens
  Piece.climb pieces

/-- The arguments that the tokens between the parentheses of a call form. -/
def Expr.argumentsOfTokens (tokens : List Token) : Except ScriptError (List Expr) :=
  Token.parseRuns (Token.argumentRuns tokens)

namespace Stmt

/-- A statement ends with its line. -/
def expectEnd : List Token → Except ScriptError Unit
  | [] => .ok ()
  | token :: _ => .error (.malformed (.afterStatement token))

/-- The tokens inside the parentheses that open before the given ones, and those behind. -/
def enclosed (tokens : List Token) : Except ScriptError (List Token × List Token) :=
  match Token.upToClose 0 tokens with
  | none => .error (.malformed .noCloseParen)
  | some split => .ok split

/-- The tokens behind an opening brace, if one comes first. -/
def dropOpenBrace : List Token → List Token
  | .openBrace :: rest => rest
  | rest => rest

/-- The condition of a header; its body stands on the lines that follow. -/
def parseHeader (keyword : Token) (tokens : List Token) : Except ScriptError Expr :=
  match tokens with
  | .openParen :: rest => do
    let (inner, after) ← enclosed rest
    expectEnd (dropOpenBrace after)
    Expr.ofTokens inner
  | _ => .error (.malformed (.noOpenParen keyword))

/-- The statement that begins with an identifier. -/
def parseNamed (name : String) : List Token → Except ScriptError Stmt
  | .openParen :: rest => do
    let (inner, after) ← enclosed rest
    expectEnd after
    let args ← Expr.argumentsOfTokens inner
    return .call name args
  | .assign :: rest => do
    let value ← Expr.ofTokens rest
    return .assign name value
  | _ => .error (.malformed (.noCallOrAssignment name))

/-- The statement of one line's tokens. A header comes with an empty body. -/
def ofTokens : List Token → Except ScriptError Stmt
  | [] => .error (.malformed .emptyStatement)
  | .identifier name :: rest => parseNamed name rest
  | .ifWord :: rest => return .cond (← parseHeader .ifWord rest) []
  | .whileWord :: rest => return .loop (← parseHeader .whileWord rest) []
  | .varWord :: .identifier name :: .assign :: rest => return .declare name (← Expr.ofTokens rest)
  | .varWord :: _ => .error (.malformed .noDeclaration)
  | .breakWord :: rest => do
    expectEnd rest
    return .leave
  | .yieldWord :: rest => do
    expectEnd rest
    return .suspend
  | token :: _ => .error (.malformed (.statementStart token))

/-- The statement that one line of source text holds. -/
def ofLine (line : String) : Except ScriptError Stmt := do
  let tokens ← Token.ofText line
  ofTokens tokens

end Stmt

end FrameScript
