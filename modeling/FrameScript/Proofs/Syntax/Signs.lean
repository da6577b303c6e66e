import FrameScript.Proofs.Syntax.Printing

/-!
# Minus signs

What legible tokens spell is canonical, and its text has as many minus signs as the tokens. A tree
that equals a canonical tree is canonical too unless one of its zeros is negative, and then its text
has more minus signs.
-/

namespace FrameScript

/-! ### Legible tokens -/

mutual

/-- What legible tokens spell is canonical. -/
theorem Expr.Spelled.canonical : ∀ {e : Expr} {ts : List Token}, e.Spelled ts →
    (∀ token ∈ ts, token.Legible) → e.Canonical
  | _, _, @Expr.Spelled.number text x h, hts => by
    obtain ⟨y, hread, hfinite, heq⟩ := Piece.numberLiteral_eq_ok h
    cases heq
    have hnumeral : Decimal.Numeral text.toList := hts (.number text) (by simp)
    refine hnumeral.isLiteral ?_ hfinite
    rwa [String.ofList_toList]
  | _, _, .yes, _ => trivial
  | _, _, .no, _ => trivial
  | _, _, .variable name, hts => hts (.identifier name) (by simp)
  | _, _, .binary hleft hright _ hleans, hts =>
    ⟨hleft.canonical fun token htoken => hts token (by simp [htoken]),
      hright.canonical fun token htoken => hts token (by simp [htoken]), hleans⟩
  | _, _, .call name hargs, hts =>
    ⟨hts (.identifier name) (by simp),
      hargs.canonical fun token htoken => hts token (by simp [htoken])⟩

/-- What legible tokens spell as arguments is canonical. -/
theorem Expr.ListSpelled.canonical : ∀ {args : List Expr} {ts : List Token},
    Expr.ListSpelled args ts → (∀ token ∈ ts, token.Legible) → Expr.ListCanonical args
  | _, _, .nil, _ => trivial
  | _, _, .single h, hts => ⟨h.canonical hts, trivial⟩
  | _, _, .cons h hargs, hts =>
    ⟨h.canonical fun token htoken => hts token (by simp [htoken]),
      hargs.canonical fun token htoken => hts token (by simp [htoken])⟩

end

/-- A statement that legible tokens spell is canonical. -/
theorem Stmt.Spelled.canonical {s : Stmt} {ts : List Token} (h : s.Spelled ts)
    (hts : ∀ token ∈ ts, token.Legible) : s.Canonical := by
  cases h with
  | call name hargs =>
    exact ⟨hts (.identifier name) (by simp),
      hargs.canonical fun token htoken => hts token (by simp [htoken])⟩
  | assign name hvalue | declare name hvalue =>
    exact ⟨hts (.identifier name) (by simp),
      hvalue.canonical fun token htoken => hts token (by simp [htoken])⟩
  | cond hcondition _ | loop hcondition _ =>
    exact ⟨hcondition.canonical fun token htoken => hts token (by simp [htoken]), trivial⟩
  | leave | suspend => trivial

/-! ### Minus signs of texts -/

/-- How many minus signs a text has. -/
def Text.minuses (text : String) : Nat :=
  text.toList.count '-'

/-- The minus signs of two texts add up. -/
@[simp] theorem Text.minuses_append (a b : String) :
    Text.minuses (a ++ b) = Text.minuses a + Text.minuses b := by
  simp [minuses]

/-- A text of characters of a kind that the minus sign is not. -/
theorem Text.minuses_eq_zero {p : Char → Bool} {text : String} (hp : p '-' = false)
    (h : ∀ c ∈ text.toList, p c = true) : Text.minuses text = 0 := by
  refine List.count_eq_zero.mpr fun hmem => ?_
  have hkind := h _ hmem
  rw [hp] at hkind
  cases hkind

/-- A name has no minus signs. -/
theorem Text.minuses_name {name : String} (h : Token.IsName name) : Text.minuses name = 0 :=
  Text.minuses_eq_zero rfl h.word.continuesWord

/-- A literal has no minus signs, since it is not negative. -/
theorem Text.minuses_literal {x : Float} (h : Decimal.isLiteral x = true) :
    Text.minuses (Decimal.plain.text x) = 0 :=
  Text.minuses_eq_zero rfl (Decimal.isLiteral.text h).1.continuesNumber

/-- Indentation has no minus signs. -/
@[simp] theorem Text.minuses_indent (depth : Nat) : Text.minuses (Stmt.indent depth) = 0 := by
  simp [minuses, Stmt.indent, List.count_replicate]

/-- The minus sign is the sign of subtraction alone. -/
theorem BinaryOp.minuses_symbol {token : Token} {op : BinaryOp}
    (h : BinaryOp.ofToken? token = some op) : Text.minuses op.symbol = [token].count .minus := by
  cases token <;> cases h <;> rfl

/-- An operation has the minus signs of its operands, and one more if it is a subtraction. -/
theorem Text.minuses_binary (left : Expr) (op : BinaryOp) (right : Expr) :
    Text.minuses (Expr.binary left op right).text =
      Text.minuses left.text + Text.minuses op.symbol + Text.minuses right.text := by
  have hblank : Text.minuses " " = 0 := rfl
  simp [Expr.text, hblank]

/-- A call has the minus signs of its arguments, and those of its name. -/
theorem Text.minuses_call (name : String) (args : List Expr) :
    Text.minuses (Expr.call name args).text =
      Text.minuses name + Text.minuses (Expr.listText args) := by
  have hopen : Text.minuses "(" = 0 := rfl
  have hclose : Text.minuses ")" = 0 := rfl
  simp [Expr.text, hopen, hclose]

/-- The minus signs of arguments add up. -/
theorem Text.minuses_listText (arg : Expr) (args : List Expr) :
    Text.minuses (Expr.listText (arg :: args)) =
      Text.minuses arg.text + Text.minuses (Expr.listText args) := by
  have hempty : Text.minuses "" = 0 := rfl
  have hcomma : Text.minuses ", " = 0 := rfl
  cases args <;> simp [Expr.listText, hempty, hcomma]

/-- An assignment has the minus signs of its value, and those of its name. -/
theorem Text.minuses_assign (name : String) (value : Expr) :
    Text.minuses (Stmt.assign name value).headText =
      Text.minuses name + Text.minuses value.text := by
  have hequals : Text.minuses " = " = 0 := rfl
  simp [Stmt.headText, hequals]

/-- A declaration has the minus signs of its initial value, and those of its name. -/
theorem Text.minuses_declare (name : String) (initializer : Expr) :
    Text.minuses (Stmt.declare name initializer).headText =
      Text.minuses name + Text.minuses initializer.text := by
  have hkeyword : Text.minuses "var " = 0 := rfl
  have hequals : Text.minuses " = " = 0 := rfl
  simp [Stmt.headText, hkeyword, hequals]

/-- The first line of an `if` statement has the minus signs of its condition. -/
theorem Text.minuses_cond (condition : Expr) (body : List Stmt) :
    Text.minuses (Stmt.cond condition body).headText = Text.minuses condition.text := by
  have hkeyword : Text.minuses "if (" = 0 := rfl
  have hbrace : Text.minuses ") \x7b" = 0 := rfl
  simp [Stmt.headText, hkeyword, hbrace]

/-- The first line of a `while` statement has the minus signs of its condition. -/
theorem Text.minuses_loop (condition : Expr) (body : List Stmt) :
    Text.minuses (Stmt.loop condition body).headText = Text.minuses condition.text := by
  have hkeyword : Text.minuses "while (" = 0 := rfl
  have hbrace : Text.minuses ") \x7b" = 0 := rfl
  simp [Stmt.headText, hkeyword, hbrace]

/-- The minus signs of a statement are those of its first line and those of its body. -/
theorem Text.minuses_textAt (depth : Nat) (s : Stmt) :
    Text.minuses (s.textAt depth) =
      Text.minuses s.headText + Text.minuses (Stmt.bodyText (depth + 1) (s.body?.getD [])) := by
  have hempty : Text.minuses "" = 0 := rfl
  have hend : Text.minuses "\n" = 0 := rfl
  have hclose : Text.minuses "\x7d\n" = 0 := rfl
  rw [Stmt.textAt_eq, Stmt.tailText]
  cases s.body? <;> simp [Stmt.bodyText, hempty, hend, hclose]

mutual

/-- Indentation has no minus signs. -/
theorem Text.minuses_depth : ∀ (s : Stmt) (depth other : Nat),
    Text.minuses (s.textAt depth) = Text.minuses (s.textAt other)
  | .cond condition body, depth, other => by
    rw [Text.minuses_textAt, Text.minuses_textAt]
    exact congrArg _ (Text.minuses_bodyDepth body (depth + 1) (other + 1))
  | .loop condition body, depth, other => by
    rw [Text.minuses_textAt, Text.minuses_textAt]
    exact congrArg _ (Text.minuses_bodyDepth body (depth + 1) (other + 1))
  | .call _ _, _, _ | .assign _ _, _, _ | .declare _ _, _, _ | .leave, _, _ | .suspend, _, _ => by
    rw [Text.minuses_textAt, Text.minuses_textAt]
    rfl

/-- The minus signs of statements do not depend on how deep they are indented. -/
theorem Text.minuses_bodyDepth : ∀ (body : List Stmt) (depth other : Nat),
    Text.minuses (Stmt.bodyText depth body) = Text.minuses (Stmt.bodyText other body)
  | [], _, _ => rfl
  | s :: body, depth, other => by
    rw [Stmt.bodyText, Stmt.bodyText, Text.minuses_append, Text.minuses_append,
      Text.minuses_depth s depth other, Text.minuses_bodyDepth body depth other]

end

/-! ### Counting tokens -/

mutual

/-- The text of an expression has as many minus signs as tokens that spell it. -/
theorem Expr.Spelled.minuses_eq : ∀ {e : Expr} {ts : List Token}, e.Spelled ts → e.Canonical →
    Text.minuses e.text = ts.count .minus
  | _, _, .number _, h => Text.minuses_literal h
  | _, _, .yes, _ => rfl
  | _, _, .no, _ => rfl
  | _, _, .variable _, h => Text.minuses_name h
  | _, _, @Expr.Spelled.binary left right op token l r hleft hright htoken _, h => by
    rw [Text.minuses_binary, hleft.minuses_eq h.1, hright.minuses_eq h.2.1,
      BinaryOp.minuses_symbol htoken, List.append_cons, List.count_append, List.count_append]
  | _, _, .call name hargs, h => by
    rw [Text.minuses_call, Text.minuses_name h.1, hargs.minuses_eq h.2]
    simp

/-- The text of arguments has as many minus signs as tokens that spell it. -/
theorem Expr.ListSpelled.minuses_eq : ∀ {args : List Expr} {ts : List Token},
    Expr.ListSpelled args ts → Expr.ListCanonical args →
      Text.minuses (Expr.listText args) = ts.count .minus
  | _, _, .nil, _ => rfl
  | _, _, .single hspelled, h => hspelled.minuses_eq h.1
  | _, _, .cons hspelled hargs, h => by
    rw [Text.minuses_listText, hspelled.minuses_eq h.1, hargs.minuses_eq h.2]
    simp

end

/-- The first line of a statement has as many minus signs as tokens that spell it. -/
theorem Stmt.Spelled.minuses_eq {s : Stmt} {ts : List Token} (hs : s.Spelled ts)
    (h : s.Canonical) : Text.minuses s.headText = ts.count .minus := by
  cases hs with
  | call name hargs =>
    have hcall := (Expr.Spelled.call name hargs).minuses_eq h
    exact hcall
  | assign name hvalue =>
    rw [Text.minuses_assign, Text.minuses_name h.1, hvalue.minuses_eq h.2]
    simp
  | declare name hvalue =>
    rw [Text.minuses_declare, Text.minuses_name h.1, hvalue.minuses_eq h.2]
    simp
  | cond hcondition hbrace =>
    rw [Text.minuses_cond, hcondition.minuses_eq h.1]
    rcases hbrace with rfl | rfl <;> simp
  | loop hcondition hbrace =>
    rw [Text.minuses_loop, hcondition.minuses_eq h.1]
    rcases hbrace with rfl | rfl <;> simp
  | leave | suspend => rfl

/-! ### Equal trees -/

/-- A property of what has more minus signs unless it has the property. -/
structure Text.Recovers (few many : Nat) (P : Prop) : Prop where
  le : few ≤ many
  of_le : many ≤ few → P

namespace Text.Recovers

variable {a b m n : Nat} {P Q : Prop}

/-- A property that holds is recovered whatever the number of minus signs is. -/
theorem refl (n : Nat) (h : P) : Recovers n n P :=
  ⟨Nat.le_refl n, fun _ => h⟩

/-- Two properties are recovered together from the minus signs of both. -/
theorem add (h : Recovers a b P) (h' : Recovers m n Q) : Recovers (a + m) (b + n) (P ∧ Q) := by
  have hle := h.le
  have hle' := h'.le
  exact ⟨by omega, fun hge => ⟨h.of_le (by omega), h'.of_le (by omega)⟩⟩

/-- What follows from a property is recovered with it. -/
theorem imp (h : Recovers a b P) (hPQ : P → Q) : Recovers a b Q :=
  ⟨h.le, fun hge => hPQ (h.of_le hge)⟩

end Text.Recovers

mutual

/-- What equals a canonical expression is canonical, unless its text has more minus signs. -/
theorem Expr.recovers_of_same : ∀ (e other : Expr), e.Canonical → e.same other = true →
    other.root? = e.root? ∧
      Text.Recovers (Text.minuses e.text) (Text.minuses other.text) other.Canonical
  | .number x, .number y, h, hsame => by
    refine ⟨rfl, ?_⟩
    have hzero : Text.minuses (Expr.number x).text = 0 := Text.minuses_literal h
    rw [hzero]
    refine ⟨Nat.zero_le _, fun hle => ?_⟩
    rcases Decimal.isLiteral.of_beq h hsame with hy | hy
    · exact hy
    · rw [Expr.text, Decimal.isNegativeZero.text hy] at hle
      exact absurd hle (by decide)
  | .bool a, .bool b, _, hsame => by
    obtain rfl := eq_of_beq hsame
    exact ⟨rfl, .refl _ trivial⟩
  | .variable a, .variable b, h, hsame => by
    obtain rfl := eq_of_beq hsame
    exact ⟨rfl, .refl _ h⟩
  | .binary left op right, .binary left' op' right', ⟨hleft, hright, hleans⟩, hsame => by
    simp only [Expr.same, Bool.and_eq_true, beq_iff_eq] at hsame
    obtain ⟨⟨hl, rfl⟩, hr⟩ := hsame
    obtain ⟨hlroot, hl⟩ := Expr.recovers_of_same left left' hleft hl
    obtain ⟨hrroot, hr⟩ := Expr.recovers_of_same right right' hright hr
    refine ⟨rfl, ?_⟩
    rw [Text.minuses_binary, Text.minuses_binary]
    refine ((hl.add (.refl _ trivial)).add hr).imp fun h => ⟨h.1.1, h.2, ?_⟩
    constructor
    · rw [hlroot]
      exact hleans.left_le
    · rw [hrroot]
      exact hleans.right_lt
  | .call name args, .call name' args', ⟨hname, hargs⟩, hsame => by
    simp only [Expr.same, Bool.and_eq_true, beq_iff_eq] at hsame
    obtain ⟨rfl, hsame⟩ := hsame
    refine ⟨rfl, ?_⟩
    rw [Text.minuses_call, Text.minuses_call]
    exact (Text.Recovers.refl _ hname).add (Expr.listRecovers_of_same args args' hargs hsame)

/-- What equals canonical arguments is canonical, unless its text has more minus signs. -/
theorem Expr.listRecovers_of_same : ∀ (args others : List Expr), Expr.ListCanonical args →
    Expr.sameList args others = true →
      Text.Recovers (Text.minuses (Expr.listText args)) (Text.minuses (Expr.listText others))
        (Expr.ListCanonical others)
  | [], [], _, _ => .refl _ trivial
  | arg :: args, other :: others, ⟨harg, hargs⟩, hsame => by
    simp only [Expr.sameList, Bool.and_eq_true] at hsame
    obtain ⟨-, harg⟩ := Expr.recovers_of_same arg other harg hsame.1
    rw [Text.minuses_listText, Text.minuses_listText]
    exact harg.add (Expr.listRecovers_of_same args others hargs hsame.2)

end

mutual

/-- What equals a canonical statement is canonical, unless its text has more minus signs. -/
theorem Stmt.recovers_of_same : ∀ (s other : Stmt) (depth : Nat), s.Canonical →
    s.same other = true →
      Text.Recovers (Text.minuses (s.textAt depth)) (Text.minuses (other.textAt depth))
        other.Canonical
  | .call name args, .call name' args', depth, h, hsame => by
    rw [Text.minuses_textAt, Text.minuses_textAt]
    exact (Expr.recovers_of_same (.call name args) (.call name' args') h hsame).2.add
      (.refl _ trivial) |>.imp And.left
  | .assign name value, .assign name' value', depth, ⟨hname, hvalue⟩, hsame => by
    simp only [Stmt.same, Bool.and_eq_true, beq_iff_eq] at hsame
    obtain ⟨rfl, hsame⟩ := hsame
    have hrecovers := (Expr.recovers_of_same value value' hvalue hsame).2
    rw [Text.minuses_textAt, Text.minuses_textAt, Text.minuses_assign, Text.minuses_assign]
    exact ((Text.Recovers.refl _ hname).add hrecovers).add (.refl _ trivial) |>.imp And.left
  | .declare name value, .declare name' value', depth, ⟨hname, hvalue⟩, hsame => by
    simp only [Stmt.same, Bool.and_eq_true, beq_iff_eq] at hsame
    obtain ⟨rfl, hsame⟩ := hsame
    have hrecovers := (Expr.recovers_of_same value value' hvalue hsame).2
    rw [Text.minuses_textAt, Text.minuses_textAt, Text.minuses_declare, Text.minuses_declare]
    exact ((Text.Recovers.refl _ hname).add hrecovers).add (.refl _ trivial) |>.imp And.left
  | .cond condition body, .cond condition' body', depth, ⟨hcondition, hbody⟩, hsame => by
    simp only [Stmt.same, Bool.and_eq_true] at hsame
    have hrecovers := (Expr.recovers_of_same condition condition' hcondition hsame.1).2
    rw [Text.minuses_textAt, Text.minuses_textAt, Text.minuses_cond, Text.minuses_cond]
    exact hrecovers.add (Stmt.bodyRecovers_of_same body body' (depth + 1) hbody hsame.2)
  | .loop condition body, .loop condition' body', depth, ⟨hcondition, hbody⟩, hsame => by
    simp only [Stmt.same, Bool.and_eq_true] at hsame
    have hrecovers := (Expr.recovers_of_same condition condition' hcondition hsame.1).2
    rw [Text.minuses_textAt, Text.minuses_textAt, Text.minuses_loop, Text.minuses_loop]
    exact hrecovers.add (Stmt.bodyRecovers_of_same body body' (depth + 1) hbody hsame.2)
  | .leave, .leave, _, _, _ => .refl _ trivial
  | .suspend, .suspend, _, _, _ => .refl _ trivial

/-- What equals canonical statements is canonical, unless its text has more minus signs. -/
theorem Stmt.bodyRecovers_of_same : ∀ (body others : List Stmt) (depth : Nat),
    Stmt.BodyCanonical body → Stmt.sameList body others = true →
      Text.Recovers (Text.minuses (Stmt.bodyText depth body))
        (Text.minuses (Stmt.bodyText depth others)) (Stmt.BodyCanonical others)
  | [], [], _, _, _ => .refl _ trivial
  | s :: body, other :: others, depth, ⟨hs, hbody⟩, hsame => by
    simp only [Stmt.sameList, Bool.and_eq_true] at hsame
    have hs := Stmt.recovers_of_same s other depth hs hsame.1
    have hbody := Stmt.bodyRecovers_of_same body others depth hbody hsame.2
    rw [Stmt.bodyText, Stmt.bodyText, Text.minuses_append, Text.minuses_append]
    exact hs.add hbody

end

end FrameScript
