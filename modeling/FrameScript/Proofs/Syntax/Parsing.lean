import FrameScript.Proofs.Syntax.Layers

/-!
# What the parser makes of a line

The tokens of a line that is accepted are those of its statement, in order, up to the digits of its
numbers and the opening brace of a header. So no token is dropped, doubled or moved, and a
parenthesis only opens arguments or a condition.
-/

namespace FrameScript

/-! ### The tokens of a tree -/

/-- The token of an operator. -/
def BinaryOp.token : BinaryOp → Token
  | .add => .plus
  | .sub => .minus
  | .mul => .star
  | .div => .slash
  | .less => .less
  | .greater => .greater

/-- A token with the usual digits, if it is a number. -/
def Token.plain : Token → Token
  | .number text =>
    match Decimal.read? text with
    | some x => .number (Decimal.plain.text x)
    | none => .number text
  | token => token

mutual

/-- The tokens of an expression. -/
def Expr.tokens : Expr → List Token
  | .number x => [.number (Decimal.plain.text x)]
  | .bool true => [.trueWord]
  | .bool false => [.falseWord]
  | .variable name => [.identifier name]
  | .binary left op right => left.tokens ++ op.token :: right.tokens
  | .call name args => .identifier name :: .openParen :: (Expr.listTokens args ++ [.closeParen])

/-- The tokens of arguments, with commas between them. -/
def Expr.listTokens : List Expr → List Token
  | [] => []
  | [arg] => arg.tokens
  | arg :: args => arg.tokens ++ .comma :: Expr.listTokens args

end

/-- The tokens of a statement without its body, and without the brace that may open it. -/
def Stmt.tokens : Stmt → List Token
  | .call name args => .identifier name :: .openParen :: (Expr.listTokens args ++ [.closeParen])
  | .assign name value => .identifier name :: .assign :: value.tokens
  | .declare name initializer => .varWord :: .identifier name :: .assign :: initializer.tokens
  | .cond condition _ => .ifWord :: .openParen :: (condition.tokens ++ [.closeParen])
  | .loop condition _ => .whileWord :: .openParen :: (condition.tokens ++ [.closeParen])
  | .leave => [.breakWord]
  | .suspend => [.yieldWord]

/-- A token that is an operator is the token of this operator. -/
theorem BinaryOp.token_eq_of_ofToken? {token : Token} {op : BinaryOp}
    (h : BinaryOp.ofToken? token = some op) : token.plain = op.token := by
  cases token with
  | plus | minus | star | slash | less | greater =>
    cases h
    rfl
  | number text | identifier name | ifWord | whileWord | varWord | breakWord | trueWord | falseWord
  | yieldWord | assign | openParen | closeParen | openBrace | closeBrace | comma | finish => cases h

mutual

/-- An expression has the tokens that spell it. -/
theorem Expr.Spelled.map_plain : ∀ {e : Expr} {ts : List Token}, e.Spelled ts →
    ts.map Token.plain = e.tokens
  | _, _, .number h => by
    obtain ⟨x, hread, -, heq⟩ := Piece.numberLiteral_eq_ok h
    cases heq
    simp [Token.plain, hread, Expr.tokens]
  | _, _, .yes | _, _, .no | _, _, .variable _ => rfl
  | _, _, .binary hleft hright htoken _ => by
    rw [List.map_append, List.map_cons, hleft.map_plain, hright.map_plain,
      BinaryOp.token_eq_of_ofToken? htoken, Expr.tokens]
  | _, _, .call name hargs => by
    rw [List.map_cons, List.map_cons, List.map_append, hargs.map_plain]
    rfl

/-- Arguments have the tokens that spell them. -/
theorem Expr.ListSpelled.map_plain : ∀ {args : List Expr} {ts : List Token},
    Expr.ListSpelled args ts → ts.map Token.plain = Expr.listTokens args
  | _, _, .nil => rfl
  | _, _, .single h => by rw [h.map_plain, Expr.listTokens]
  | _, _, .cons h hargs => by
    rw [List.map_append, List.map_cons, h.map_plain, hargs.map_plain]
    rfl

end

/-- A line has the tokens of its statement, and perhaps the brace that opens a body. -/
theorem Stmt.Spelled.map_plain {s : Stmt} {ts : List Token} (h : s.Spelled ts) :
    ts.map Token.plain = s.tokens ∨
      s.hasBody = true ∧ ts.map Token.plain = s.tokens ++ [.openBrace] := by
  cases h with
  | call name hargs =>
    left
    rw [List.map_cons, List.map_cons, List.map_append, hargs.map_plain]
    rfl
  | assign name hvalue | declare name hvalue =>
    left
    simp only [List.map_cons, hvalue.map_plain]
    rfl
  | cond hcondition hbrace | loop hcondition hbrace =>
    rcases hbrace with rfl | rfl
    · left
      rw [List.map_cons, List.map_cons, List.map_append, hcondition.map_plain]
      rfl
    · right
      refine ⟨rfl, ?_⟩
      rw [List.map_cons, List.map_cons, List.map_append, hcondition.map_plain, tokens]
      simp [Token.plain]
  | leave | suspend => exact .inl rfl

/-! ### Parentheses -/

namespace Token

/-- The tokens behind which a parenthesis may open: the name of a call, or the word of a header. -/
def introduces : Token → Bool
  | .identifier _ | .ifWord | .whileWord => true
  | _ => false

/-- No parenthesis opens but behind the name of a call or the word of a header. -/
def Ungrouped (ts : List Token) : Prop :=
  ∀ before after, ts = before ++ .openParen :: after →
    ∃ front token, before = front ++ [token] ∧ token.introduces = true

namespace Ungrouped

/-- In the empty run no parenthesis groups. -/
theorem nil : Ungrouped [] := by
  simp [Ungrouped]

/-- Tokens without grouping parentheses stay so when they are put together. -/
theorem append {ts us : List Token} (hts : Ungrouped ts) (hus : Ungrouped us) :
    Ungrouped (ts ++ us) := by
  intro before after heq
  rcases List.append_eq_append_iff.mp heq with ⟨middle, rfl, hmiddle⟩ | ⟨middle, hmiddle, hrest⟩
  · obtain ⟨front, token, rfl, htoken⟩ := hus middle after hmiddle
    exact ⟨ts ++ front, token, (List.append_assoc _ _ _).symm, htoken⟩
  · cases middle with
    | nil =>
      obtain ⟨front, token, hnone, -⟩ := hus [] after hrest.symm
      simp at hnone
    | cons first middle =>
      cases hrest
      exact hts before middle hmiddle

/-- A token that opens no parenthesis may come first. -/
theorem cons {token : Token} {ts : List Token} (htoken : token ≠ .openParen)
    (hts : Ungrouped ts) : Ungrouped (token :: ts) := by
  have hsingle : Ungrouped [token] := by
    intro before after heq
    rcases List.append_eq_cons_iff.mp heq.symm with ⟨rfl, hhead⟩ | ⟨_, -, hrest⟩
    · cases hhead
      exact absurd rfl htoken
    · simp at hrest
  exact hsingle.append hts

/-- A parenthesis behind a token that introduces it. -/
theorem parens {token : Token} {ts : List Token} (htoken : token.introduces = true)
    (hts : Ungrouped ts) : Ungrouped (token :: .openParen :: ts) := by
  intro before after heq
  cases before with
  | nil =>
    cases heq
    cases htoken
  | cons first before =>
    obtain ⟨rfl, hrest⟩ := List.cons.inj heq
    cases before with
    | nil => exact ⟨[], token, rfl, htoken⟩
    | cons second before =>
      obtain ⟨-, hinner⟩ := List.cons.inj hrest
      obtain ⟨front, last, rfl, hlast⟩ := hts before after hinner
      exact ⟨token :: second :: front, last, rfl, hlast⟩

end Ungrouped

end Token

/-- An operator may come first. -/
theorem BinaryOp.ungrouped_of_ofToken? {token : Token} {op : BinaryOp} {ts : List Token}
    (h : BinaryOp.ofToken? token = some op) (hts : Token.Ungrouped ts) :
    Token.Ungrouped (token :: ts) :=
  .cons (BinaryOp.balanced_of_ofToken? h).2.1 hts

mutual

/-- Parentheses of an expression only enclose arguments. -/
theorem Expr.Spelled.ungrouped : ∀ {e : Expr} {ts : List Token}, e.Spelled ts →
    Token.Ungrouped ts
  | _, _, .number _ | _, _, .yes | _, _, .no | _, _, .variable _ => .cons (by simp) .nil
  | _, _, .binary hleft hright htoken _ =>
    hleft.ungrouped.append (BinaryOp.ungrouped_of_ofToken? htoken hright.ungrouped)
  | _, _, .call _ hargs => .parens rfl (hargs.ungrouped.append (.cons (by simp) .nil))

/-- Parentheses of arguments only enclose arguments of their own. -/
theorem Expr.ListSpelled.ungrouped : ∀ {args : List Expr} {ts : List Token},
    Expr.ListSpelled args ts → Token.Ungrouped ts
  | _, _, .nil => .nil
  | _, _, .single h => h.ungrouped
  | _, _, .cons h hargs => h.ungrouped.append (.cons (by simp) hargs.ungrouped)

end

/-- Parentheses of a line only enclose arguments and conditions. -/
theorem Stmt.Spelled.ungrouped {s : Stmt} {ts : List Token} (h : s.Spelled ts) :
    Token.Ungrouped ts := by
  cases h with
  | call name hargs => exact .parens rfl (hargs.ungrouped.append (.cons (by simp) .nil))
  | assign name hvalue => exact .cons (by simp) (.cons (by simp) hvalue.ungrouped)
  | declare name hvalue =>
    exact .cons (by simp) (.cons (by simp) (.cons (by simp) hvalue.ungrouped))
  | cond hcondition hbrace | loop hcondition hbrace =>
    refine .parens rfl (hcondition.ungrouped.append (.cons (by simp) ?_))
    rcases hbrace with rfl | rfl
    · exact .nil
    · exact .cons (by simp) .nil
  | leave | suspend => exact .cons (by simp) .nil

/-! ### The statement of a line -/

/-- The parser gives a statement for some tokens exactly if the layered grammar derives the tokens
from it, and there is at most one such statement. The tokens of an accepted line are those of its
statement, in order, and parentheses do not group. -/
theorem Stmt.ofTokens_eq_ok_iff_statement (ts : List Token) :
    (∀ s, Stmt.ofTokens ts = .ok s ↔ Grammar.Statement s ts) ∧
      (∀ s s', Grammar.Statement s ts → Grammar.Statement s' ts → s = s') ∧
      ∀ s, Stmt.ofTokens ts = .ok s →
        (ts.map Token.plain = s.tokens ∨
          s.hasBody = true ∧ ts.map Token.plain = s.tokens ++ [.openBrace]) ∧
        Token.Ungrouped ts := by
  have haccepts : ∀ s, Stmt.ofTokens ts = .ok s ↔ Grammar.Statement s ts :=
    fun s => ofTokens_eq_ok_iff.trans Grammar.statement_iff_spelled.symm
  refine ⟨haccepts, fun s s' hs hs' => ?_, fun s hs => ?_⟩
  · have hsame := ((haccepts s).mpr hs).symm.trans ((haccepts s').mpr hs')
    exact Except.ok.inj hsame
  · have hspelled := ofTokens_eq_ok_iff.mp hs
    exact ⟨hspelled.map_plain, hspelled.ungrouped⟩

/-- A chain of differences with a call among the operands leans to the left. -/
theorem Stmt.ofTokens_chain :
    let ts := [.identifier "x", .assign, .identifier "a", .minus, .identifier "f", .openParen,
      .identifier "b", .comma, .trueWord, .closeParen, .minus, .identifier "c"]
    let s := Stmt.assign "x" (.binary (.binary (.variable "a") .sub
      (.call "f" [.variable "b", .bool true])) .sub (.variable "c"))
    Grammar.Statement s ts ∧ Stmt.ofTokens ts = .ok s ∧ s.tokens = ts := by
  intro ts s
  have hargs : Grammar.Arguments [.variable "b", .bool true]
      [.identifier "b", .comma, .trueWord] :=
    .some (.more (.sum (.product (.term (.variable "b")))) (.one (.sum (.product (.term .yes)))))
  have hchain := Grammar.Sum.minus (.minus (.product (.term (.variable "a")))
    (.term (.call "f" hargs))) (.term (.variable "c"))
  have hstatement : Grammar.Statement s ts := .assign "x" (.sum hchain)
  obtain ⟨haccepts, -, hread⟩ := ofTokens_eq_ok_iff_statement ts
  have hparsed := (haccepts s).mpr hstatement
  obtain ⟨htokens | ⟨hbody, -⟩, -⟩ := hread s hparsed
  · exact ⟨hstatement, hparsed, htokens.symm⟩
  · cases hbody

end FrameScript
