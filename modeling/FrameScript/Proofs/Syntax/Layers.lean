import FrameScript.Proofs.Syntax.Acceptance

/-!
# The grammar in layers

The usual grammar has one layer for each weight of operators and left recursive rules, so that
chains lean to the left. It derives exactly the statements that the parser builds, although the
parser splits at the heaviest operator. The tokens of a line are those of its statement, in order.
-/

namespace FrameScript

namespace Grammar

mutual

/-- A comparison, or a sum alone. -/
inductive Comparison : Expr → List Token → Prop
  | less {left right : Expr} {ts us : List Token} (hleft : Comparison left ts)
    (hright : Sum right us) : Comparison (.binary left .less right) (ts ++ .less :: us)
  | greater {left right : Expr} {ts us : List Token} (hleft : Comparison left ts)
    (hright : Sum right us) : Comparison (.binary left .greater right) (ts ++ .greater :: us)
  | sum {e : Expr} {ts : List Token} (h : Sum e ts) : Comparison e ts

/-- A sum or difference, or a product alone. -/
inductive Sum : Expr → List Token → Prop
  | plus {left right : Expr} {ts us : List Token} (hleft : Sum left ts)
    (hright : Product right us) : Sum (.binary left .add right) (ts ++ .plus :: us)
  | minus {left right : Expr} {ts us : List Token} (hleft : Sum left ts)
    (hright : Product right us) : Sum (.binary left .sub right) (ts ++ .minus :: us)
  | product {e : Expr} {ts : List Token} (h : Product e ts) : Sum e ts

/-- A product or quotient, or a term alone. -/
inductive Product : Expr → List Token → Prop
  | times {left right : Expr} {ts us : List Token} (hleft : Product left ts)
    (hright : Term right us) : Product (.binary left .mul right) (ts ++ .star :: us)
  | over {left right : Expr} {ts us : List Token} (hleft : Product left ts)
    (hright : Term right us) : Product (.binary left .div right) (ts ++ .slash :: us)
  | term {e : Expr} {ts : List Token} (h : Term e ts) : Product e ts

/-- A literal, a variable or a call. There are no parentheses around an expression. -/
inductive Term : Expr → List Token → Prop
  | number {text : String} {x : Float} (hread : Decimal.read? text = some x)
    (hfinite : x.isFinite = true) : Term (.number x) [.number text]
  | yes : Term (.bool true) [.trueWord]
  | no : Term (.bool false) [.falseWord]
  | variable (name : String) : Term (.variable name) [.identifier name]
  | call {args : List Expr} {ts : List Token} (name : String) (hargs : Arguments args ts) :
    Term (.call name args) (.identifier name :: .openParen :: (ts ++ [.closeParen]))

/-- The arguments of a call, with commas between them. -/
inductive Arguments : List Expr → List Token → Prop
  | none : Arguments [] []
  | some {arg : Expr} {args : List Expr} {ts : List Token} (h : Listed arg args ts) :
    Arguments (arg :: args) ts

/-- A first argument and further ones behind commas. -/
inductive Listed : Expr → List Expr → List Token → Prop
  | one {arg : Expr} {ts : List Token} (h : Comparison arg ts) : Listed arg [] ts
  | more {arg next : Expr} {args : List Expr} {ts us : List Token} (h : Comparison arg ts)
    (hargs : Listed next args us) : Listed arg (next :: args) (ts ++ .comma :: us)

end

/-- The statement of one line. A header has an empty body, and perhaps an opening brace. -/
inductive Statement : Stmt → List Token → Prop
  | call {args : List Expr} {ts : List Token} (name : String) (hargs : Arguments args ts) :
    Statement (.call name args) (.identifier name :: .openParen :: (ts ++ [.closeParen]))
  | assign {value : Expr} {ts : List Token} (name : String) (hvalue : Comparison value ts) :
    Statement (.assign name value) (.identifier name :: .assign :: ts)
  | cond {condition : Expr} {ts brace : List Token} (hcondition : Comparison condition ts)
    (hbrace : brace = [] ∨ brace = [.openBrace]) :
    Statement (.cond condition []) (.ifWord :: .openParen :: (ts ++ .closeParen :: brace))
  | loop {condition : Expr} {ts brace : List Token} (hcondition : Comparison condition ts)
    (hbrace : brace = [] ∨ brace = [.openBrace]) :
    Statement (.loop condition []) (.whileWord :: .openParen :: (ts ++ .closeParen :: brace))
  | declare {initializer : Expr} {ts : List Token} (name : String)
    (hvalue : Comparison initializer ts) :
    Statement (.declare name initializer) (.varWord :: .identifier name :: .assign :: ts)
  | leave : Statement .leave [.breakWord]
  | suspend : Statement .suspend [.yieldWord]

end Grammar

/-! ### Derived tokens are spelled -/

/-- The operator at the root, if there is one, is not heavier than a limit. -/
def Expr.RootWithin (e : Expr) (limit : Nat) : Prop :=
  ∀ op ∈ e.root?, op.weight ≤ limit

/-- A root within a limit is within every higher one. -/
theorem Expr.RootWithin.mono {e : Expr} {limit more : Nat} (h : e.RootWithin limit)
    (hle : limit ≤ more) : e.RootWithin more :=
  fun op hop => Nat.le_trans (h op hop) hle

/-- What has no operator at its root is within any limit. -/
theorem Expr.rootWithin_of_root?_eq_none {e : Expr} (h : e.root? = none) (limit : Nat) :
    e.RootWithin limit := by
  simp [RootWithin, h]

/-- An operation is within the weight of its operator. -/
theorem Expr.rootWithin_binary (left : Expr) (op : BinaryOp) (right : Expr) :
    (Expr.binary left op right).RootWithin op.weight := by
  simp [RootWithin, root?]

/-- Operands lean as they have to if the left one belongs to the layer of the operator and the right
one to a layer below. -/
theorem Expr.RootWithin.leans (op : BinaryOp) {left right : Expr} {limit : Nat}
    (hleft : left.RootWithin op.weight) (hright : right.RootWithin limit)
    (hlimit : limit < op.weight) : Expr.Leans left op right :=
  ⟨hleft, fun inner hinner => Nat.lt_of_le_of_lt (hright inner hinner) hlimit⟩

/-- Operands lean as they have to if the right one is no operation. -/
theorem Expr.Leans.of_term (op : BinaryOp) {left right : Expr}
    (hleft : left.RootWithin op.weight) (hright : right.root? = none) :
    Expr.Leans left op right :=
  ⟨hleft, by simp [hright]⟩

namespace Grammar

mutual

/-- What is derived as a comparison is spelled so, with any operator at the root. -/
theorem Comparison.spelled : ∀ {e : Expr} {ts : List Token}, Comparison e ts →
    e.Spelled ts ∧ e.RootWithin BinaryOp.less.weight
  | _, _, .less hleft hright => by
    obtain ⟨hl, hlroot⟩ := hleft.spelled
    obtain ⟨hr, hrroot⟩ := hright.spelled
    exact ⟨.binary hl hr rfl (hlroot.leans .less hrroot (by decide)),
      Expr.rootWithin_binary _ .less _⟩
  | _, _, .greater hleft hright => by
    obtain ⟨hl, hlroot⟩ := hleft.spelled
    obtain ⟨hr, hrroot⟩ := hright.spelled
    exact ⟨.binary hl hr rfl (hlroot.leans .greater hrroot (by decide)),
      Expr.rootWithin_binary _ .greater _⟩
  | _, _, .sum h => ⟨h.spelled.1, h.spelled.2.mono (by decide)⟩

/-- What is derived as a sum is spelled so, with no comparison at the root. -/
theorem Sum.spelled : ∀ {e : Expr} {ts : List Token}, Sum e ts →
    e.Spelled ts ∧ e.RootWithin BinaryOp.add.weight
  | _, _, .plus hleft hright => by
    obtain ⟨hl, hlroot⟩ := hleft.spelled
    obtain ⟨hr, hrroot⟩ := hright.spelled
    exact ⟨.binary hl hr rfl (hlroot.leans .add hrroot (by decide)),
      Expr.rootWithin_binary _ .add _⟩
  | _, _, .minus hleft hright => by
    obtain ⟨hl, hlroot⟩ := hleft.spelled
    obtain ⟨hr, hrroot⟩ := hright.spelled
    exact ⟨.binary hl hr rfl (hlroot.leans .sub hrroot (by decide)),
      Expr.rootWithin_binary _ .sub _⟩
  | _, _, .product h => ⟨h.spelled.1, h.spelled.2.mono (by decide)⟩

/-- What is derived as a product is spelled so, with at most a product at the root. -/
theorem Product.spelled : ∀ {e : Expr} {ts : List Token}, Product e ts →
    e.Spelled ts ∧ e.RootWithin BinaryOp.mul.weight
  | _, _, .times hleft hright => by
    obtain ⟨hl, hlroot⟩ := hleft.spelled
    obtain ⟨hr, hrroot⟩ := hright.spelled
    exact ⟨.binary hl hr rfl (.of_term .mul hlroot hrroot), Expr.rootWithin_binary _ .mul _⟩
  | _, _, .over hleft hright => by
    obtain ⟨hl, hlroot⟩ := hleft.spelled
    obtain ⟨hr, hrroot⟩ := hright.spelled
    exact ⟨.binary hl hr rfl (.of_term .div hlroot hrroot),
      Expr.rootWithin_binary _ .div _⟩
  | _, _, .term h => ⟨h.spelled.1, Expr.rootWithin_of_root?_eq_none h.spelled.2 _⟩

/-- What is derived as a term is spelled so, with no operator at the root. -/
theorem Term.spelled : ∀ {e : Expr} {ts : List Token}, Term e ts →
    e.Spelled ts ∧ e.root? = none
  | _, _, .number hread hfinite =>
    ⟨.number (by simp [Piece.numberLiteral, hread, hfinite]), rfl⟩
  | _, _, .yes => ⟨.yes, rfl⟩
  | _, _, .no => ⟨.no, rfl⟩
  | _, _, .variable name => ⟨.variable name, rfl⟩
  | _, _, .call name hargs => ⟨.call name hargs.listSpelled, rfl⟩

/-- What is derived as arguments is spelled so. -/
theorem Arguments.listSpelled : ∀ {args : List Expr} {ts : List Token}, Arguments args ts →
    Expr.ListSpelled args ts
  | _, _, .none => .nil
  | _, _, .some h => h.listSpelled

/-- What is derived as a list of arguments is spelled so. -/
theorem Listed.listSpelled : ∀ {arg : Expr} {args : List Expr} {ts : List Token},
    Listed arg args ts → Expr.ListSpelled (arg :: args) ts
  | _, _, _, .one h => .single h.spelled.1
  | _, _, _, .more h hargs => .cons h.spelled.1 hargs.listSpelled

end

/-! ### Spelled tokens are derived -/

/-- An expression belongs to the layer of its root, and to all layers above. -/
structure Layered (e : Expr) (ts : List Token) : Prop where
  comparison : Comparison e ts
  sum : e.RootWithin BinaryOp.add.weight → Sum e ts
  product : e.RootWithin BinaryOp.mul.weight → Product e ts
  term : e.root? = none → Term e ts

namespace Layered

/-- A term is in every layer above it. -/
theorem of_term {e : Expr} {ts : List Token} (h : Term e ts) : Layered e ts where
  comparison := .sum (.product (.term h))
  sum _ := .product (.term h)
  product _ := .term h
  term _ := h

/-- A product is in the layers from products on. -/
theorem of_product {e : Expr} {ts : List Token} {op : BinaryOp} (h : Product e ts)
    (hroot : e.root? = some op) : Layered e ts where
  comparison := .sum (.product h)
  sum _ := .product h
  product _ := h
  term hnone := by simp [hroot] at hnone

/-- A sum is in the layers from sums on. -/
theorem of_sum {e : Expr} {ts : List Token} {op : BinaryOp} (h : Sum e ts)
    (hroot : e.root? = some op) (hop : BinaryOp.mul.weight < op.weight) : Layered e ts where
  comparison := .sum h
  sum _ := h
  product hwithin := absurd (hwithin op hroot) (Nat.not_le.mpr hop)
  term hnone := by simp [hroot] at hnone

/-- A comparison is in the uppermost layer. -/
theorem of_comparison {e : Expr} {ts : List Token} {op : BinaryOp} (h : Comparison e ts)
    (hroot : e.root? = some op) (hop : BinaryOp.add.weight < op.weight) : Layered e ts where
  comparison := h
  sum hwithin := absurd (hwithin op hroot) (Nat.not_le.mpr hop)
  product hwithin := absurd (hwithin op hroot) (Nat.not_le.mpr (Nat.lt_trans (by decide) hop))
  term hnone := by simp [hroot] at hnone

/-- The right operand of a heavier operator is a sum, since no root weighs between the layers. -/
theorem sum_of_lt {e : Expr} {ts : List Token} (h : Layered e ts)
    (hroot : ∀ op ∈ e.root?, op.weight < BinaryOp.less.weight) : Sum e ts := by
  refine h.sum fun op hop => ?_
  have hlt := hroot op hop
  revert hlt
  cases op <;> decide

/-- The right operand of an additive operator is a product. -/
theorem product_of_lt {e : Expr} {ts : List Token} (h : Layered e ts)
    (hroot : ∀ op ∈ e.root?, op.weight < BinaryOp.add.weight) : Product e ts := by
  refine h.product fun op hop => ?_
  have hlt := hroot op hop
  revert hlt
  cases op <;> decide

/-- The right operand of a multiplicative operator is a term. -/
theorem term_of_lt {e : Expr} {ts : List Token} (h : Layered e ts)
    (hroot : ∀ op ∈ e.root?, op.weight < BinaryOp.mul.weight) : Term e ts := by
  refine h.term (Option.eq_none_iff_forall_not_mem.mpr fun op hop => ?_)
  exact absurd (hroot op hop) (Nat.not_lt_zero _)

/-- The root of two operands that lean as they have to puts them into its layer. -/
theorem binary {left right : Expr} {op : BinaryOp} {token : Token} {ts us : List Token}
    (hleft : Layered left ts) (hright : Layered right us)
    (htoken : BinaryOp.ofToken? token = some op) (hleans : Expr.Leans left op right) :
    Layered (.binary left op right) (ts ++ token :: us) := by
  obtain ⟨hle, hlt⟩ := hleans
  cases token with
  | plus =>
    cases htoken
    exact of_sum (.plus (hleft.sum hle) (hright.product_of_lt hlt)) rfl (by decide)
  | minus =>
    cases htoken
    exact of_sum (.minus (hleft.sum hle) (hright.product_of_lt hlt)) rfl (by decide)
  | star =>
    cases htoken
    exact of_product (.times (hleft.product hle) (hright.term_of_lt hlt)) rfl
  | slash =>
    cases htoken
    exact of_product (.over (hleft.product hle) (hright.term_of_lt hlt)) rfl
  | less =>
    cases htoken
    exact of_comparison (.less hleft.comparison (hright.sum_of_lt hlt)) rfl (by decide)
  | greater =>
    cases htoken
    exact of_comparison (.greater hleft.comparison (hright.sum_of_lt hlt)) rfl (by decide)
  | number text | identifier name | ifWord | whileWord | varWord | breakWord | trueWord | falseWord
  | yieldWord | assign | openParen | closeParen | openBrace | closeBrace | comma | finish =>
    cases htoken

end Layered

mutual

/-- What is spelled is derived, in the layer of its root and in all above. -/
theorem layered_of_spelled : ∀ {e : Expr} {ts : List Token}, e.Spelled ts → Layered e ts
  | _, _, .number h => by
    obtain ⟨x, hread, hfinite, heq⟩ := Piece.numberLiteral_eq_ok h
    cases heq
    exact .of_term (.number hread hfinite)
  | _, _, .yes => .of_term .yes
  | _, _, .no => .of_term .no
  | _, _, .variable name => .of_term (.variable name)
  | _, _, .binary hleft hright htoken hleans =>
    (layered_of_spelled hleft).binary (layered_of_spelled hright) htoken hleans
  | _, _, .call name hargs => .of_term (.call name (arguments_of_listSpelled hargs))

/-- Arguments that are spelled are derived. -/
theorem arguments_of_listSpelled : ∀ {args : List Expr} {ts : List Token},
    Expr.ListSpelled args ts → Arguments args ts
  | _, _, .nil => .none
  | _, _, .single h => .some (.one (layered_of_spelled h).comparison)
  | _, _, .cons h hargs =>
    match arguments_of_listSpelled hargs with
    | .some hlisted => .some (.more (layered_of_spelled h).comparison hlisted)

end

/-- The layered grammar derives the runs of tokens that spell a statement, and no others. -/
theorem statement_iff_spelled {s : Stmt} {ts : List Token} : Statement s ts ↔ s.Spelled ts := by
  constructor
  · intro h
    cases h with
    | call name hargs => exact .call name hargs.listSpelled
    | assign name hvalue => exact .assign name hvalue.spelled.1
    | cond hcondition hbrace => exact .cond hcondition.spelled.1 hbrace
    | loop hcondition hbrace => exact .loop hcondition.spelled.1 hbrace
    | declare name hvalue => exact .declare name hvalue.spelled.1
    | leave => exact .leave
    | suspend => exact .suspend
  · intro h
    cases h with
    | call name hargs => exact .call name (arguments_of_listSpelled hargs)
    | assign name hvalue => exact .assign name (layered_of_spelled hvalue).comparison
    | cond hcondition hbrace => exact .cond (layered_of_spelled hcondition).comparison hbrace
    | loop hcondition hbrace => exact .loop (layered_of_spelled hcondition).comparison hbrace
    | declare name hvalue => exact .declare name (layered_of_spelled hvalue).comparison
    | leave => exact .leave
    | suspend => exact .suspend

end Grammar

end FrameScript
