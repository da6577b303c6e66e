import FrameScript.Proofs.Decimal.Literals
import FrameScript.Program

/-!
# Canonical trees

A tree is canonical when its names are words, its literals have a sign bit that is clear, and its
operators lean as the parser makes them lean. Only such trees have a text that stands for them.
-/

namespace FrameScript

/-! ### Names -/

/-- The words that are no names. -/
def Token.keywords : List String :=
  ["if", "while", "var", "break", "true", "false", "yield"]

/-- A letter or an underscore, followed by letters, digits and underscores. -/
def Token.IsWord : List Char → Prop
  | [] => False
  | c :: rest => Token.startsWord c = true ∧ ∀ d ∈ rest, Token.continuesWord d = true

/-- A word that is no keyword. -/
structure Token.IsName (name : String) : Prop where
  word : Token.IsWord name.toList
  free : name ∉ Token.keywords

/-- A character that starts a word may go on with one. -/
theorem Token.continuesWord_of_startsWord {c : Char} (h : Token.startsWord c = true) :
    Token.continuesWord c = true := by
  simp only [startsWord, continuesWord, Char.isAlphanum, Bool.or_eq_true] at h ⊢
  exact h.imp_left .inl

/-- All characters of a word go on with it. -/
theorem Token.IsWord.continuesWord {cs : List Char} (h : Token.IsWord cs) :
    ∀ c ∈ cs, Token.continuesWord c = true := by
  cases cs with
  | nil => exact h.elim
  | cons c rest =>
    intro d hd
    rcases List.mem_cons.mp hd with rfl | hd
    · exact continuesWord_of_startsWord h.1
    · exact h.2 d hd

/-- Every keyword is a word. -/
theorem Token.isWord_of_mem_keywords {word : String} (h : word ∈ Token.keywords) :
    Token.IsWord word.toList := by
  simp only [keywords, List.mem_cons, List.not_mem_nil, or_false] at h
  rcases h with rfl | rfl | rfl | rfl | rfl | rfl | rfl <;>
    exact ⟨rfl, List.all_eq_true.mp rfl⟩

/-- A name is spelled as itself. -/
theorem Token.IsName.ofWord_eq {name : String} (h : Token.IsName name) :
    Token.ofWord name = .identifier name := by
  have hfree := h.free
  simp only [keywords, List.mem_cons, List.not_mem_nil, or_false, not_or] at hfree
  obtain ⟨h1, h2, h3, h4, h5, h6, h7⟩ := hfree
  simp only [ofWord, h1, h2, h3, h4, h5, h6, h7, if_false]

/-! ### Trees -/

/-- The operator at the root of an expression. -/
def Expr.root? : Expr → Option BinaryOp
  | .binary _ op _ => some op
  | _ => none

/-- Two operands of an operator that need no parentheses: nothing heavier stands on the left, and
nothing as heavy on the right. -/
structure Expr.Leans (left : Expr) (op : BinaryOp) (right : Expr) : Prop where
  left_le : ∀ inner ∈ left.root?, inner.weight ≤ op.weight
  right_lt : ∀ inner ∈ right.root?, inner.weight < op.weight

mutual

/-- An expression that its text stands for. -/
def Expr.Canonical : Expr → Prop
  | .number x => Decimal.isLiteral x = true
  | .bool _ => True
  | .variable name => Token.IsName name
  | .binary left op right => left.Canonical ∧ right.Canonical ∧ Expr.Leans left op right
  | .call name args => Token.IsName name ∧ Expr.ListCanonical args

/-- Arguments each of which its text stands for. -/
def Expr.ListCanonical : List Expr → Prop
  | [] => True
  | arg :: args => arg.Canonical ∧ Expr.ListCanonical args

end

mutual

/-- A statement that its text stands for. -/
def Stmt.Canonical : Stmt → Prop
  | .call name args => Token.IsName name ∧ Expr.ListCanonical args
  | .assign name value => Token.IsName name ∧ value.Canonical
  | .declare name initializer => Token.IsName name ∧ initializer.Canonical
  | .cond condition body => condition.Canonical ∧ Stmt.BodyCanonical body
  | .loop condition body => condition.Canonical ∧ Stmt.BodyCanonical body
  | .leave => True
  | .suspend => True

/-- Statements each of which its text stands for. -/
def Stmt.BodyCanonical : List Stmt → Prop
  | [] => True
  | s :: body => s.Canonical ∧ Stmt.BodyCanonical body

end

/-- A program that its text stands for. -/
def Program.Canonical (p : Program) : Prop :=
  Stmt.BodyCanonical p.statements

/-- Statements are canonical if each of them is. -/
theorem Stmt.bodyCanonical_iff {body : List Stmt} :
    Stmt.BodyCanonical body ↔ ∀ s ∈ body, s.Canonical := by
  induction body with
  | nil => simp [BodyCanonical]
  | cons s body ih => simp [BodyCanonical, ih]

/-- The body of a canonical statement is canonical. -/
theorem Stmt.Canonical.body {s : Stmt} {inner : List Stmt} (h : s.Canonical)
    (hbody : s.body? = some inner) : Stmt.BodyCanonical inner := by
  cases s with
  | cond condition body | loop condition body =>
    cases hbody
    exact h.2
  | call name args | assign name value | declare name initializer | leave | suspend => cases hbody

/-- A canonical statement may get any canonical body. -/
theorem Stmt.Canonical.withBody {s : Stmt} {body : List Stmt} (h : s.Canonical)
    (hbody : Stmt.BodyCanonical body) : (s.withBody body).Canonical := by
  cases s with
  | cond condition old | loop condition old => exact ⟨h.1, hbody⟩
  | call name args | assign name value | declare name initializer | leave | suspend => exact h

/-! ### Equality -/

mutual

/-- A canonical expression is equal to itself. -/
theorem Expr.same_self : ∀ (e : Expr), e.Canonical → e.same e = true
  | .number x, h => Decimal.isLiteral.beq_self h
  | .bool b, _ => beq_self_eq_true b
  | .variable name, _ => beq_self_eq_true name
  | .binary left op right, ⟨hleft, hright, _⟩ => by
    simp [Expr.same, Expr.same_self left hleft, Expr.same_self right hright]
  | .call name args, ⟨_, hargs⟩ => by
    simp [Expr.same, Expr.sameList_self args hargs]

/-- Canonical arguments are equal to themselves. -/
theorem Expr.sameList_self : ∀ (args : List Expr), Expr.ListCanonical args →
    Expr.sameList args args = true
  | [], _ => rfl
  | arg :: args, ⟨harg, hargs⟩ => by
    simp [Expr.sameList, Expr.same_self arg harg, Expr.sameList_self args hargs]

end

mutual

/-- A canonical statement is equal to itself. -/
theorem Stmt.same_self : ∀ (s : Stmt), s.Canonical → s.same s = true
  | .call name args, ⟨_, hargs⟩ => by
    simp [Stmt.same, Expr.sameList_self args hargs]
  | .assign name value, ⟨_, hvalue⟩ => by
    simp [Stmt.same, Expr.same_self value hvalue]
  | .declare name initializer, ⟨_, hvalue⟩ => by
    simp [Stmt.same, Expr.same_self initializer hvalue]
  | .cond condition body, ⟨hcondition, hbody⟩ => by
    simp [Stmt.same, Expr.same_self condition hcondition, Stmt.sameList_self body hbody]
  | .loop condition body, ⟨hcondition, hbody⟩ => by
    simp [Stmt.same, Expr.same_self condition hcondition, Stmt.sameList_self body hbody]
  | .leave, _ => rfl
  | .suspend, _ => rfl

/-- Canonical statements are equal to themselves, one by one. -/
theorem Stmt.sameList_self : ∀ (body : List Stmt), Stmt.BodyCanonical body →
    Stmt.sameList body body = true
  | [], _ => rfl
  | s :: body, ⟨hs, hbody⟩ => by
    simp [Stmt.sameList, Stmt.same_self s hs, Stmt.sameList_self body hbody]

end

end FrameScript
