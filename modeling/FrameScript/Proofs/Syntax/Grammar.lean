import FrameScript.Program.Parser
import FrameScript.Proofs.Result
import FrameScript.Proofs.Syntax.Canonical

/-!
# The grammar of statements

The parser folds calls and splits at the heaviest operator. Whatever it accepts is derived by a
grammar in which the operands of every operator lean as they have to.
-/

namespace FrameScript

mutual

/-- The runs of tokens that spell an expression. -/
inductive Expr.Spelled : Expr → List Token → Prop
  | number {text : String} {x : Float} (h : Piece.numberLiteral text = .ok (.number x)) :
    Expr.Spelled (.number x) [.number text]
  | yes : Expr.Spelled (.bool true) [.trueWord]
  | no : Expr.Spelled (.bool false) [.falseWord]
  | variable (name : String) : Expr.Spelled (.variable name) [.identifier name]
  | binary {left right : Expr} {op : BinaryOp} {token : Token} {l r : List Token}
    (hleft : Expr.Spelled left l) (hright : Expr.Spelled right r)
    (htoken : BinaryOp.ofToken? token = some op) (hleans : Expr.Leans left op right) :
    Expr.Spelled (.binary left op right) (l ++ token :: r)
  | call {args : List Expr} {ts : List Token} (name : String) (hargs : Expr.ListSpelled args ts) :
    Expr.Spelled (.call name args) (.identifier name :: .openParen :: (ts ++ [.closeParen]))

/-- The runs of tokens that spell arguments, with commas between them. -/
inductive Expr.ListSpelled : List Expr → List Token → Prop
  | nil : Expr.ListSpelled [] []
  | single {arg : Expr} {ts : List Token} (h : Expr.Spelled arg ts) : Expr.ListSpelled [arg] ts
  | cons {arg next : Expr} {args : List Expr} {ts us : List Token} (h : Expr.Spelled arg ts)
    (hargs : Expr.ListSpelled (next :: args) us) :
    Expr.ListSpelled (arg :: next :: args) (ts ++ .comma :: us)

end

/-- The runs of tokens that spell a statement, or the header of one with an empty body. -/
inductive Stmt.Spelled : Stmt → List Token → Prop
  | call {args : List Expr} {ts : List Token} (name : String) (hargs : Expr.ListSpelled args ts) :
    Stmt.Spelled (.call name args) (.identifier name :: .openParen :: (ts ++ [.closeParen]))
  | assign {value : Expr} {ts : List Token} (name : String) (hvalue : value.Spelled ts) :
    Stmt.Spelled (.assign name value) (.identifier name :: .assign :: ts)
  | declare {initializer : Expr} {ts : List Token} (name : String)
    (hvalue : initializer.Spelled ts) :
    Stmt.Spelled (.declare name initializer) (.varWord :: .identifier name :: .assign :: ts)
  | cond {condition : Expr} {ts brace : List Token} (hcondition : condition.Spelled ts)
    (hbrace : brace = [] ∨ brace = [.openBrace]) :
    Stmt.Spelled (.cond condition []) (.ifWord :: .openParen :: (ts ++ .closeParen :: brace))
  | loop {condition : Expr} {ts brace : List Token} (hcondition : condition.Spelled ts)
    (hbrace : brace = [] ∨ brace = [.openBrace]) :
    Stmt.Spelled (.loop condition []) (.whileWord :: .openParen :: (ts ++ .closeParen :: brace))
  | leave : Stmt.Spelled .leave [.breakWord]
  | suspend : Stmt.Spelled .suspend [.yieldWord]

namespace Piece

/-! ### Splitting at the heaviest operator -/

section

variable {pieces left right : List Piece} {op : BinaryOp}

/-- Where there is no heaviest operator there is none at all. -/
theorem op?_of_splitHeaviest_eq_none (h : splitHeaviest pieces = none) :
    ∀ piece ∈ pieces, piece.op? = none := by
  induction pieces with
  | nil => simp
  | cons piece rest ih =>
    rw [splitHeaviest] at h
    split at h
    · next hop hrest =>
      intro other hother
      rcases List.mem_cons.mp hother with rfl | hother
      · exact hop
      · exact ih hrest other hother
    · cases h
    · cases h
    · split at h <;> cases h

/-- The split is at an operator that nothing on its left outweighs and nothing on its right
equals. -/
theorem eq_of_splitHeaviest (h : splitHeaviest pieces = some (left, op, right)) :
    ∃ piece, piece.op? = some op ∧ pieces = left ++ piece :: right ∧
      (∀ other ∈ left, ∀ inner ∈ other.op?, inner.weight ≤ op.weight) ∧
      ∀ other ∈ right, ∀ inner ∈ other.op?, inner.weight < op.weight := by
  induction pieces generalizing left op right with
  | nil => cases h
  | cons piece rest ih =>
    rw [splitHeaviest] at h
    split at h
    · cases h
    · next hop hrest =>
      cases h
      obtain ⟨pivot, hpivot, rfl, hle, hlt⟩ := ih hrest
      refine ⟨pivot, hpivot, rfl, fun other hother inner hinner => ?_, hlt⟩
      rcases List.mem_cons.mp hother with rfl | hother
      · rw [hop] at hinner
        cases hinner
      · exact hle other hother inner hinner
    · next hop hrest =>
      cases h
      refine ⟨piece, hop, rfl, by simp, fun other hother inner hinner => ?_⟩
      rw [op?_of_splitHeaviest_eq_none hrest other hother] at hinner
      cases hinner
    · next best right' hop hrest =>
      obtain ⟨pivot, hpivot, hpieces, hle, hlt⟩ := ih hrest
      split at h
      · next hheavier =>
        cases h
        refine ⟨piece, hop, rfl, by simp, fun other hother inner hinner => ?_⟩
        rw [hpieces] at hother
        rcases List.mem_append.mp hother with hother | hother
        · exact Nat.lt_of_le_of_lt (hle other hother inner hinner) hheavier
        · rcases List.mem_cons.mp hother with rfl | hother
          · rw [hpivot] at hinner
            cases hinner
            exact hheavier
          · exact Nat.lt_trans (hlt other hother inner hinner) hheavier
      · next hlighter =>
        cases h
        refine ⟨pivot, hpivot, by rw [hpieces]; rfl, fun other hother inner hinner => ?_, hlt⟩
        rcases List.mem_cons.mp hother with rfl | hother
        · rw [hop] at hinner
          cases hinner
          omega
        · exact hle other hother inner hinner

/-- An operator that nothing on its left outweighs and nothing on its right equals is where the
split is. -/
theorem splitHeaviest_append {piece : Piece} (hop : piece.op? = some op)
    (hle : ∀ other ∈ left, ∀ inner ∈ other.op?, inner.weight ≤ op.weight)
    (hlt : ∀ other ∈ right, ∀ inner ∈ other.op?, inner.weight < op.weight) :
    splitHeaviest (left ++ piece :: right) = some (left, op, right) := by
  induction left with
  | nil =>
    rw [List.nil_append, splitHeaviest, hop]
    cases hrest : splitHeaviest right with
    | none => rfl
    | some split =>
      obtain ⟨left', best, right'⟩ := split
      obtain ⟨pivot, hpivot, rfl, -⟩ := eq_of_splitHeaviest hrest
      exact if_pos (hlt pivot (by simp) best hpivot)
  | cons other left ih =>
    have hrest := ih fun p hp => hle p (List.mem_cons_of_mem _ hp)
    rw [List.cons_append, splitHeaviest, hrest]
    cases hother : other.op? with
    | none => rfl
    | some inner =>
      have hweight := hle other (by simp) inner hother
      exact if_neg (by omega)

end

/-! ### Climbing -/

/-- The runs of tokens that an element stands for. -/
inductive Spelled : Piece → List Token → Prop
  | single (token : Token) : Spelled (.single token) [token]
  | call {args : List Expr} {ts : List Token} (name : String) (hargs : Expr.ListSpelled args ts) :
    Spelled (.call name args) (.identifier name :: .openParen :: (ts ++ [.closeParen]))

/-- The runs of tokens that elements stand for together. -/
inductive ListSpelled : List Piece → List Token → Prop
  | nil : ListSpelled [] []
  | cons {piece : Piece} {pieces : List Piece} {ts us : List Token} (h : piece.Spelled ts)
    (hpieces : ListSpelled pieces us) : ListSpelled (piece :: pieces) (ts ++ us)

/-- The tokens of elements fall into those of the first and those of the last. -/
theorem ListSpelled.of_append {left right : List Piece} {ts : List Token}
    (h : ListSpelled (left ++ right) ts) :
    ∃ l r, ts = l ++ r ∧ ListSpelled left l ∧ ListSpelled right r := by
  induction left generalizing ts with
  | nil => exact ⟨[], ts, rfl, .nil, h⟩
  | cons piece left ih =>
    cases h with
    | cons hpiece hrest =>
      obtain ⟨l, r, rfl, hleft, hright⟩ := ih hrest
      exact ⟨_, r, (List.append_assoc _ _ _).symm, .cons hpiece hleft, hright⟩

/-- The literal of a number has a finite value. -/
theorem numberLiteral_eq_ok {text : String} {e : Expr} (h : numberLiteral text = .ok e) :
    ∃ x, Decimal.read? text = some x ∧ x.isFinite = true ∧ e = .number x := by
  unfold numberLiteral at h
  split at h
  · cases h
  · next x hread =>
    split at h
    · next hfinite =>
      cases h
      exact ⟨x, hread, hfinite, rfl⟩
    · cases h

/-- An operand is a literal, a variable or a call. -/
theorem spelled_of_operand {piece : Piece} {e : Expr} {ts : List Token}
    (h : piece.operand = .ok e) (hts : piece.Spelled ts) : e.Spelled ts ∧ e.root? = none := by
  cases hts with
  | call name hargs =>
    cases h
    exact ⟨.call name hargs, rfl⟩
  | single token =>
    cases token with
    | number text =>
      obtain ⟨x, -, -, rfl⟩ := numberLiteral_eq_ok h
      exact ⟨.number h, rfl⟩
    | trueWord =>
      cases h
      exact ⟨.yes, rfl⟩
    | falseWord =>
      cases h
      exact ⟨.no, rfl⟩
    | identifier name =>
      cases h
      exact ⟨.variable name, rfl⟩
    | ifWord | whileWord | varWord | breakWord | yieldWord | plus | minus | star | slash | less
    | greater | assign | openParen | closeParen | openBrace | closeBrace | comma | finish => cases h

/-- What climbing makes of elements is spelled by their tokens, and its root is one of them. -/
theorem spelled_of_climb {pieces : List Piece} {e : Expr} {ts : List Token}
    (h : climb pieces = .ok e) (hts : ListSpelled pieces ts) :
    e.Spelled ts ∧ ∀ op ∈ e.root?, ∃ piece ∈ pieces, piece.op? = some op := by
  induction hlength : pieces.length using Nat.strongRecOn generalizing pieces e ts with
  | ind n ih =>
    unfold climb at h
    split at h
    · cases h
    · next piece =>
      cases hts with
      | cons hpiece hrest =>
        cases hrest
        rw [List.append_nil]
        obtain ⟨hspelled, hroot⟩ := spelled_of_operand h hpiece
        refine ⟨hspelled, fun op hop => ?_⟩
        rw [hroot] at hop
        cases hop
    · split at h
      · cases h
      · next left op right hsplit =>
        have hshorter := length_splitHeaviest hsplit
        obtain ⟨l, hl, h⟩ := bind_eq_ok.mp h
        obtain ⟨r, hr, h⟩ := bind_eq_ok.mp h
        cases h
        obtain ⟨pivot, hpivot, rfl, hle, hlt⟩ := eq_of_splitHeaviest hsplit
        obtain ⟨ls, rest, rfl, hleft, hrest⟩ := hts.of_append
        cases hrest with
        | cons hpiece hright =>
          obtain ⟨hleft', hlroot⟩ := ih _ (by omega) hl hleft rfl
          obtain ⟨hright', hrroot⟩ := ih _ (by omega) hr hright rfl
          have hleans : Expr.Leans l op r := by
            constructor
            · intro inner hinner
              obtain ⟨other, hother, hop⟩ := hlroot inner hinner
              exact hle other hother inner hop
            · intro inner hinner
              obtain ⟨other, hother, hop⟩ := hrroot inner hinner
              exact hlt other hother inner hop
          cases hpiece with
          | call name hargs => cases hpivot
          | single token =>
            refine ⟨.binary hleft' hright' hpivot hleans, fun inner hinner => ?_⟩
            cases hinner
            exact ⟨.single token, by simp, hpivot⟩

/-- Climbing splits at the root, if the operands lean as they have to. -/
theorem climb_append {left right : List Piece} {pivot : Piece} {l r : Expr} {op : BinaryOp}
    (hop : pivot.op? = some op)
    (hle : ∀ other ∈ left, ∀ inner ∈ other.op?, inner.weight ≤ op.weight)
    (hlt : ∀ other ∈ right, ∀ inner ∈ other.op?, inner.weight < op.weight)
    (hl : climb left = .ok l) (hr : climb right = .ok r) :
    climb (left ++ pivot :: right) = .ok (.binary l op r) := by
  have hsplit := splitHeaviest_append hop hle hlt
  cases left with
  | nil =>
    unfold climb at hl
    cases hl
  | cons piece left =>
    unfold climb
    split
    · next heq => cases heq
    · next heq => simp at heq
    · split
      · next hnone =>
        rw [hsplit] at hnone
        cases hnone
      · next hsome =>
        rw [hsplit] at hsome
        cases hsome
        rw [hl, hr]
        rfl

end Piece

namespace Token

/-! ### Folding calls -/

section

variable {name : String} {token : Token} {rest inner after : List Token}

/-- A name with parentheses behind it folds to a call. -/
theorem fold_call (h : upToClose 0 rest = some (inner, after)) :
    fold (.identifier name :: .openParen :: rest) = do
      let args ← parseRuns (argumentRuns inner)
      let pieces ← fold after
      return .call name args :: pieces := by
  rw [fold]
  split
  · next hnone =>
    rw [h] at hnone
    cases hnone
  · next hsome =>
    rw [h] at hsome
    cases hsome
    rfl

/-- Any other token folds to an element of its own. -/
theorem fold_single (h : ∀ name, token = .identifier name → rest.head? ≠ some .openParen) :
    fold (token :: rest) = do
      let pieces ← fold rest
      return .single token :: pieces := by
  rw [fold]
  rintro name behind rfl rfl
  exact h name rfl rfl

end

/-- The runs between commas, with the commas, make up the tokens. -/
theorem eq_of_splitAtCommas (depth : Nat) (tokens : List Token) :
    tokens = (splitAtCommas depth tokens).1 ++
      (splitAtCommas depth tokens).2.flatMap (.comma :: ·) := by
  fun_induction splitAtCommas depth tokens with
  | case1 => rfl
  | case2 rest first others hsplit ih
  | case3 depth token rest hcomma deeper first others hsplit ih =>
    rw [hsplit] at ih
    simpa using ih

/-- Runs that spell expressions spell a list of them when commas stand between them. -/
theorem listSpelled_of_forall₂ {args : List Expr} {first : List Token} {others : List (List Token)}
    (h : List.Forall₂ Expr.Spelled args (first :: others)) :
    Expr.ListSpelled args (first ++ others.flatMap (.comma :: ·)) := by
  induction others generalizing args first with
  | nil =>
    cases h with
    | cons hfirst hothers =>
      cases hothers
      simpa using Expr.ListSpelled.single hfirst
  | cons next others ih =>
    cases h with
    | cons hfirst hothers =>
      have hrest := ih hothers
      cases hothers with
      | cons hnext hothers =>
        rw [List.flatMap_cons, List.cons_append]
        exact .cons hfirst hrest

/-- Runs that spell expressions spell a list of arguments, if they are those between the commas. -/
theorem listSpelled_of_argumentRuns {args : List Expr} {tokens : List Token}
    (h : List.Forall₂ Expr.Spelled args (argumentRuns tokens)) : Expr.ListSpelled args tokens := by
  unfold argumentRuns at h
  split at h
  · next hempty =>
    cases h
    rw [List.isEmpty_iff.mp hempty]
    exact .nil
  · rw [eq_of_splitAtCommas 0 tokens]
    exact listSpelled_of_forall₂ h

/-- Folding and parsing give elements and arguments that the tokens spell. -/
theorem spelled_of_fold_and_parseRuns :
    (∀ tokens : List Token, ∀ pieces, fold tokens = .ok pieces →
      Piece.ListSpelled pieces tokens) ∧
    ∀ runs : List (List Token), ∀ args, parseRuns runs = .ok args →
      List.Forall₂ Expr.Spelled args runs := by
  apply fold.mutual_induct
  · intro pieces h
    rw [fold] at h
    cases h
    exact .nil
  · intro name rest hclose pieces h
    rw [fold] at h
    split at h
    · cases h
    · next hsome =>
      rw [hclose] at hsome
      cases hsome
  · intro name rest inner after hclose _ _ ihargs ihafter pieces h
    rw [fold_call hclose] at h
    obtain ⟨args, hargs, h⟩ := bind_eq_ok.mp h
    obtain ⟨others, hothers, h⟩ := bind_eq_ok.mp h
    cases h
    have hcall := Piece.Spelled.call name (listSpelled_of_argumentRuns (ihargs args hargs))
    have hpieces := Piece.ListSpelled.cons hcall (ihafter others hothers)
    rw [eq_of_upToClose hclose]
    simpa using hpieces
  · intro token rest hne ih pieces h
    rw [fold_single] at h
    · obtain ⟨others, hothers, h⟩ := bind_eq_ok.mp h
      cases h
      exact .cons (.single token) (ih others hothers)
    · intro name hname hhead
      obtain ⟨behind, rfl⟩ := List.head?_eq_some_iff.mp hhead
      exact hne name behind hname rfl
  · intro args h
    rw [parseRuns] at h
    cases h
    exact .nil
  · intro run runs ihrun ihruns args h
    rw [parseRuns] at h
    obtain ⟨pieces, hpieces, h⟩ := bind_eq_ok.mp h
    obtain ⟨first, hfirst, h⟩ := bind_eq_ok.mp h
    obtain ⟨others, hothers, h⟩ := bind_eq_ok.mp h
    cases h
    exact .cons (Piece.spelled_of_climb hfirst (ihrun pieces hpieces)).1 (ihruns others hothers)

end Token

end FrameScript
