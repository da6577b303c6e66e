import FrameScript.Proofs.Syntax.Grammar
import FrameScript.Proofs.Syntax.Lexing

/-!
# Printed trees

The text of a canonical expression is read as tokens that spell the expression, and so is the first
line of a canonical statement.
-/

namespace FrameScript

/-- Characters that stay in one line. -/
def Text.InLine (cs : List Char) : Prop :=
  ∀ c ∈ cs, c ≠ '\n' ∧ c ≠ '\r'

/-- Characters of one line stay in one line behind each other. -/
theorem Text.InLine.append {cs ds : List Char} (hcs : Text.InLine cs) (hds : Text.InLine ds) :
    Text.InLine (cs ++ ds) := by
  intro c hc
  exact (List.mem_append.mp hc).elim (hcs c) (hds c)

/-- Characters of a kind that no line ending is. -/
theorem Text.inLine_of_forall {p : Char → Bool} {cs : List Char} (hfeed : p '\n' = false)
    (hreturn : p '\r' = false) (h : ∀ c ∈ cs, p c = true) : Text.InLine cs := by
  intro c hc
  have hkind := h c hc
  constructor
  · rintro rfl
    rw [hfeed] at hkind
    cases hkind
  · rintro rfl
    rw [hreturn] at hkind
    cases hkind

/-- A text in one line that is read as certain tokens, whatever follows without going on with the
last of them. -/
structure Token.Writes (text : String) (ts : List Token) : Prop where
  lexes : ∀ rest us, Token.Ends rest → Token.Lexes rest us →
    Token.Lexes (text.toList ++ rest) (ts ++ us)
  inLine : Text.InLine text.toList

namespace Token

/-- What starts with a character that goes on with nothing goes on with nothing. -/
theorem Ends.cons {c : Char} {cs : List Char} (hword : Token.continuesWord c = false)
    (hnumber : Token.continuesNumber c = false) : Token.Ends (c :: cs) := by
  intro d hd
  cases hd
  exact ⟨hword, hnumber⟩

namespace Writes

/-- An empty text is read as no tokens. -/
theorem empty : Writes "" [] :=
  ⟨fun _ _ _ h => h, by simp [Text.InLine]⟩

/-- A keyword or a name, whichever the word is. -/
theorem word {word : String} (h : Token.IsWord word.toList) : Writes word [Token.ofWord word] := by
  refine ⟨fun rest us hends hrest => ?_, Text.inLine_of_forall rfl rfl h.continuesWord⟩
  have hlexes := Lexes.word h (fun c hc => (hends c hc).1) hrest
  rw [String.ofList_toList] at hlexes
  exact hlexes

/-- A keyword is read as itself. -/
theorem keyword (word : String) (h : word ∈ Token.keywords) : Writes word [Token.ofWord word] :=
  .word (isWord_of_mem_keywords h)

/-- A name is read as itself. -/
theorem name {name : String} (h : Token.IsName name) : Writes name [.identifier name] := by
  rw [← h.ofWord_eq]
  exact .word h.word

/-- A numeral is read as a number. -/
theorem numeral {text : String} (h : Decimal.Numeral text.toList) : Writes text [.number text] := by
  refine ⟨fun rest us hends hrest => ?_, Text.inLine_of_forall rfl rfl h.continuesNumber⟩
  have hlexes := Lexes.numeral h (fun c hc => (hends c hc).2) hrest
  rw [String.ofList_toList] at hlexes
  exact hlexes

end Writes

end Token

/-! ### Expressions -/

/-- An operator is written with one sign, which is read as the token of the operator. -/
theorem BinaryOp.exists_sign (op : BinaryOp) :
    ∃ c token, op.symbol.toList = [c] ∧ Token.ofSign? c = some token ∧
      BinaryOp.ofToken? token = some op ∧ c ≠ '\n' ∧ c ≠ '\r' := by
  cases op <;> exact ⟨_, _, rfl, rfl, rfl, by decide, by decide⟩

/-- An operator between two texts is read between their tokens. -/
theorem Token.Writes.binary {left right : String} {ls rs : List Token} {op : BinaryOp}
    (hleft : Token.Writes left ls) (hright : Token.Writes right rs) :
    ∃ token, BinaryOp.ofToken? token = some op ∧
      Token.Writes (left ++ " " ++ op.symbol ++ " " ++ right) (ls ++ token :: rs) := by
  obtain ⟨c, token, hsymbol, hsign, htoken, hfeed, hreturn⟩ := op.exists_sign
  have hblank : Text.InLine [' '] := by simp [Text.InLine]
  have hc : Text.InLine [c] := by simp [Text.InLine, hfeed, hreturn]
  refine ⟨token, htoken, fun rest us hends hrest => ?_, ?_⟩
  · have hbehind := Token.Lexes.sign hsign (.blank (hright.lexes rest us hends hrest))
    have hall := hleft.lexes _ _ (.cons rfl rfl) (.blank hbehind)
    simpa [hsymbol] using hall
  · have hall := ((hleft.inLine.append hblank).append hc).append (hblank.append hright.inLine)
    simpa [hsymbol] using hall

/-- A name and parentheses around a text are read as those of a call. -/
theorem Token.Writes.call {name args : String} {ts : List Token} (hname : Token.IsName name)
    (hargs : Token.Writes args ts) :
    Token.Writes (name ++ "(" ++ args ++ ")")
      (.identifier name :: .openParen :: (ts ++ [.closeParen])) := by
  constructor
  · intro rest us _ hrest
    have hclose := Token.Lexes.sign (c := ')') rfl hrest
    have hopen := Token.Lexes.sign (c := '(') rfl (hargs.lexes _ _ (.cons rfl rfl) hclose)
    have hall := (Token.Writes.name hname).lexes _ _ (.cons rfl rfl) hopen
    simpa using hall
  · have hopen : Text.InLine ['('] := by simp [Text.InLine]
    have hclose : Text.InLine [')'] := by simp [Text.InLine]
    have hall := ((Token.Writes.name hname).inLine.append hopen).append (hargs.inLine.append hclose)
    simpa using hall

/-- A comma between two texts is read between their tokens. -/
theorem Token.Writes.comma {arg args : String} {ts us : List Token} (harg : Token.Writes arg ts)
    (hargs : Token.Writes args us) :
    Token.Writes (arg ++ ", " ++ args) (ts ++ .comma :: us) := by
  constructor
  · intro rest vs hends hrest
    have hbehind := Token.Lexes.blank (hargs.lexes rest vs hends hrest)
    have hall := harg.lexes _ _ (.cons rfl rfl) (Token.Lexes.sign (c := ',') rfl hbehind)
    simpa using hall
  · have hcomma : Text.InLine [',', ' '] := by simp [Text.InLine]
    have hall := (harg.inLine.append hcomma).append hargs.inLine
    simpa using hall

/-- The text of a literal is read as its number. -/
theorem Piece.numberLiteral_text {x : Float} (h : Decimal.isLiteral x = true) :
    Piece.numberLiteral (Decimal.plain.text x) = .ok (.number x) := by
  simp [numberLiteral, (Decimal.isLiteral.text h).2, Decimal.isLiteral.isFinite h]

mutual

/-- The text of a canonical expression is read as tokens that spell it. -/
theorem Expr.writes : ∀ (e : Expr), e.Canonical → ∃ ts, e.Spelled ts ∧ Token.Writes e.text ts
  | .number _, h =>
    ⟨_, .number (Piece.numberLiteral_text h), .numeral (Decimal.isLiteral.text h).1⟩
  | .bool true, _ => ⟨_, .yes, .keyword "true" (by simp [Token.keywords])⟩
  | .bool false, _ => ⟨_, .no, .keyword "false" (by simp [Token.keywords])⟩
  | .variable name, h => ⟨_, .variable name, .name h⟩
  | .binary left op right, ⟨hleft, hright, hleans⟩ => by
    obtain ⟨ls, hls, hleft⟩ := Expr.writes left hleft
    obtain ⟨rs, hrs, hright⟩ := Expr.writes right hright
    obtain ⟨token, htoken, hwrites⟩ := hleft.binary hright
    exact ⟨_, .binary hls hrs htoken hleans, hwrites⟩
  | .call name args, ⟨hname, hargs⟩ => by
    obtain ⟨ts, hts, hargs⟩ := Expr.listWrites args hargs
    exact ⟨_, .call name hts, .call hname hargs⟩

/-- The text of canonical arguments is read as tokens that spell them. -/
theorem Expr.listWrites : ∀ (args : List Expr), Expr.ListCanonical args →
    ∃ ts, Expr.ListSpelled args ts ∧ Token.Writes (Expr.listText args) ts
  | [], _ => ⟨_, .nil, .empty⟩
  | [arg], ⟨harg, _⟩ => by
    obtain ⟨ts, hts, harg⟩ := Expr.writes arg harg
    exact ⟨ts, .single hts, harg⟩
  | arg :: next :: args, ⟨harg, hargs⟩ => by
    obtain ⟨ts, hts, harg⟩ := Expr.writes arg harg
    obtain ⟨us, hus, hargs⟩ := Expr.listWrites (next :: args) hargs
    exact ⟨_, .cons hts hus, harg.comma hargs⟩

end

/-! ### First lines of statements -/

/-- The first line of a statement, without the blanks before it and without its ending. -/
def Stmt.headText : Stmt → String
  | .call name args => name ++ "(" ++ Expr.listText args ++ ")"
  | .assign name value => name ++ " = " ++ value.text
  | .declare name initializer => "var " ++ name ++ " = " ++ initializer.text
  | .cond condition _ => "if (" ++ condition.text ++ ") \x7b"
  | .loop condition _ => "while (" ++ condition.text ++ ") \x7b"
  | .leave => "break"
  | .suspend => "yield"

/-- The lines behind the first one. -/
def Stmt.tailText (depth : Nat) (s : Stmt) : String :=
  match s.body? with
  | none => ""
  | some body => Stmt.bodyText (depth + 1) body ++ Stmt.indent depth ++ "\x7d\n"

/-- A statement is printed as its first line and those behind it. -/
theorem Stmt.textAt_eq (depth : Nat) (s : Stmt) :
    s.textAt depth = Stmt.indent depth ++ s.headText ++ "\n" ++ s.tailText depth := by
  cases s <;>
    simp [Stmt.textAt, Stmt.headText, Stmt.tailText, Stmt.body?, String.append_assoc]

namespace Token.Writes

/-- A name, an equals sign and a text are read as an assignment. -/
theorem assign {name value : String} {ts : List Token} (hname : Token.IsName name)
    (hvalue : Token.Writes value ts) :
    Token.Writes (name ++ " = " ++ value) (.identifier name :: .assign :: ts) := by
  constructor
  · intro rest us hends hrest
    have hbehind := Lexes.sign (c := '=') rfl (.blank (hvalue.lexes rest us hends hrest))
    have hall := (Token.Writes.name hname).lexes _ _ (.cons rfl rfl) (.blank hbehind)
    simpa using hall
  · have hequals : Text.InLine [' ', '=', ' '] := by simp [Text.InLine]
    have hall := ((Token.Writes.name hname).inLine.append hequals).append hvalue.inLine
    simpa using hall

/-- A keyword and a blank in front. -/
theorem afterKeyword {text line : String} {ts : List Token} (word : String)
    (hword : word ∈ Token.keywords) (htext : Token.Writes text ts)
    (hline : line.toList = word.toList ++ ' ' :: text.toList) :
    Token.Writes line (Token.ofWord word :: ts) := by
  have hkeyword := Token.Writes.keyword word hword
  constructor
  · intro rest us hends hrest
    have hbehind := Lexes.blank (htext.lexes rest us hends hrest)
    have hall := hkeyword.lexes _ _ (.cons rfl rfl) hbehind
    simpa [hline] using hall
  · have hblank : Text.InLine [' '] := by simp [Text.InLine]
    rw [hline]
    exact hkeyword.inLine.append (hblank.append htext.inLine)

/-- A condition in parentheses, and the brace behind it. -/
theorem condition {text : String} {ts : List Token} (htext : Token.Writes text ts) :
    Token.Writes ("(" ++ text ++ ") \x7b")
      (.openParen :: (ts ++ .closeParen :: [.openBrace])) := by
  constructor
  · intro rest us _ hrest
    have hbrace := Lexes.sign (c := '\x7b') rfl hrest
    have hclose := Lexes.sign (c := ')') rfl (.blank hbrace)
    have hall := Lexes.sign (c := '(') rfl (htext.lexes _ _ (.cons rfl rfl) hclose)
    simpa using hall
  · have hopen : Text.InLine ['('] := by simp [Text.InLine]
    have hclose : Text.InLine [')', ' ', '\x7b'] := by simp [Text.InLine]
    have hall := (hopen.append htext.inLine).append hclose
    simpa using hall

end Token.Writes

/-- The first line of a canonical statement is read as tokens that spell it without its body. -/
theorem Stmt.writes_head (s : Stmt) (h : s.Canonical) :
    ∃ ts, (s.withBody []).Spelled ts ∧ Token.Writes s.headText ts := by
  cases s with
  | call name args =>
    obtain ⟨ts, hts, hargs⟩ := Expr.listWrites args h.2
    exact ⟨_, .call name hts, .call h.1 hargs⟩
  | assign name value =>
    obtain ⟨ts, hts, hvalue⟩ := Expr.writes value h.2
    exact ⟨_, .assign name hts, .assign h.1 hvalue⟩
  | declare name initializer =>
    obtain ⟨ts, hts, hvalue⟩ := Expr.writes initializer h.2
    have hline : (Stmt.declare name initializer).headText.toList =
        "var".toList ++ ' ' :: (name ++ " = " ++ initializer.text).toList := by simp [headText]
    exact ⟨_, .declare name hts, (Token.Writes.assign h.1 hvalue).afterKeyword "var"
      (by simp [Token.keywords]) hline⟩
  | cond condition body =>
    obtain ⟨ts, hts, hcondition⟩ := Expr.writes condition h.1
    have hline : (Stmt.cond condition body).headText.toList =
        "if".toList ++ ' ' :: ("(" ++ condition.text ++ ") \x7b").toList := by simp [headText]
    exact ⟨_, .cond hts (.inr rfl), hcondition.condition.afterKeyword "if"
      (by simp [Token.keywords]) hline⟩
  | loop condition body =>
    obtain ⟨ts, hts, hcondition⟩ := Expr.writes condition h.1
    have hline : (Stmt.loop condition body).headText.toList =
        "while".toList ++ ' ' :: ("(" ++ condition.text ++ ") \x7b").toList := by simp [headText]
    exact ⟨_, .loop hts (.inr rfl), hcondition.condition.afterKeyword "while"
      (by simp [Token.keywords]) hline⟩
  | leave => exact ⟨_, .leave, .keyword "break" (by simp [Token.keywords])⟩
  | suspend => exact ⟨_, .suspend, .keyword "yield" (by simp [Token.keywords])⟩

end FrameScript
