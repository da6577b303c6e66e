import FrameScript.Proofs.Syntax.Grammar

/-!
# Accepted tokens

The parser accepts every run of tokens that the grammar derives. The parentheses of such a run
match, so the parser finds the ends of its calls and the commas between their arguments.
-/

namespace FrameScript

namespace Token

/-! ### Balanced tokens -/

/-- Tokens whose parentheses match, with commas only inside so many more of them. -/
structure Balanced (least : Nat) (ts : List Token) : Prop where
  upToClose_append : ∀ depth rest, upToClose depth (ts ++ rest) =
    (upToClose depth rest).map fun (inner, after) => (ts ++ inner, after)
  splitAtCommas_append : ∀ depth rest, least ≤ depth → splitAtCommas depth (ts ++ rest) =
    (ts ++ (splitAtCommas depth rest).1, (splitAtCommas depth rest).2)

namespace Balanced

/-- The empty run is balanced. -/
theorem nil (least : Nat) : Balanced least [] := by
  constructor
  · intro depth rest
    cases h : upToClose depth rest <;> simp [h]
  · intro depth rest _
    rfl

/-- A token that is neither a parenthesis nor a comma. -/
theorem plain {token : Token} (hopen : token ≠ .openParen) (hclose : token ≠ .closeParen)
    (hcomma : token ≠ .comma) : Balanced 0 [token] := by
  constructor
  · intro depth rest
    rw [List.singleton_append, upToClose]
    · rfl
    · exact hopen
    · exact fun _ => hclose
    · exact fun _ _ => hclose
  · intro depth rest _
    rw [List.singleton_append, splitAtCommas]
    · rfl
    · exact fun _ => hcomma
    · exact hopen
    · exact hclose

/-- A comma inside parentheses. -/
theorem comma : Balanced 1 [.comma] := by
  constructor
  · intro depth rest
    rw [List.singleton_append, upToClose] <;> simp
  · intro depth rest hdepth
    rw [List.singleton_append, splitAtCommas] <;> simp
    omega

/-- Balanced tokens stay so when they are put together. -/
theorem append {least : Nat} {ts us : List Token} (hts : Balanced least ts)
    (hus : Balanced least us) : Balanced least (ts ++ us) := by
  constructor
  · intro depth rest
    rw [List.append_assoc, hts.upToClose_append, hus.upToClose_append, Option.map_map]
    congr 1
    funext split
    simp
  · intro depth rest hdepth
    rw [List.append_assoc, hts.splitAtCommas_append _ _ hdepth,
      hus.splitAtCommas_append _ _ hdepth, List.append_assoc]

/-- Commas that may be anywhere may be inside parentheses. -/
theorem mono {least more : Nat} {ts : List Token} (h : Balanced least ts) (hle : least ≤ more) :
    Balanced more ts :=
  ⟨h.upToClose_append, fun depth rest hdepth =>
    h.splitAtCommas_append depth rest (Nat.le_trans hle hdepth)⟩

/-- Parentheses protect the commas between them. -/
theorem parens {ts : List Token} (h : Balanced 1 ts) :
    Balanced 0 (.openParen :: (ts ++ [.closeParen])) := by
  constructor
  · intro depth rest
    have hinner := h.upToClose_append (depth + 1) (.closeParen :: rest)
    rw [List.cons_append, List.append_assoc, List.singleton_append]
    simp only [upToClose] at hinner ⊢
    rw [hinner]
    cases upToClose depth rest <;> simp
  · intro depth rest _
    have hinner := h.splitAtCommas_append (depth + 1) (.closeParen :: rest) (by omega)
    rw [List.cons_append, List.append_assoc, List.singleton_append]
    simp only [splitAtCommas] at hinner ⊢
    rw [hinner]
    simp

end Balanced

/-- Tokens without a comma outside parentheses are one run. -/
theorem Balanced.argumentRuns_single {ts : List Token} (h : Balanced 0 ts) (hne : ts ≠ []) :
    argumentRuns ts = [ts] := by
  have hruns := h.splitAtCommas_append 0 [] (by omega)
  rw [List.append_nil] at hruns
  rw [argumentRuns, if_neg (by simpa using hne), hruns]
  simp [splitAtCommas]

/-- A comma behind balanced tokens separates them from the runs behind it. -/
theorem Balanced.argumentRuns_cons {ts us : List Token} (h : Balanced 0 ts) (hne : us ≠ []) :
    argumentRuns (ts ++ .comma :: us) = ts :: argumentRuns us := by
  have hruns := h.splitAtCommas_append 0 (.comma :: us) (by omega)
  rw [argumentRuns, if_neg (by simp), hruns, argumentRuns, if_neg (by simpa using hne)]
  simp [splitAtCommas]

/-- The tokens between the parenthesis and the one that closes it. -/
theorem Balanced.upToClose_eq {least : Nat} {ts : List Token} (h : Balanced least ts)
    (rest : List Token) : upToClose 0 (ts ++ .closeParen :: rest) = some (ts, rest) := by
  simp [h.upToClose_append, upToClose]

end Token

/-! ### Spelled tokens are accepted -/

/-- An operator is neither a parenthesis nor a comma nor a name. -/
theorem BinaryOp.balanced_of_ofToken? {token : Token} {op : BinaryOp}
    (h : BinaryOp.ofToken? token = some op) :
    Token.Balanced 0 [token] ∧ token ≠ .openParen ∧ ∀ name, token ≠ .identifier name := by
  cases token with
  | plus | minus | star | slash | less | greater =>
    exact ⟨.plain (by simp) (by simp) (by simp), by simp, by simp⟩
  | number text | identifier name | ifWord | whileWord | varWord | breakWord | trueWord | falseWord
  | yieldWord | assign | openParen | closeParen | openBrace | closeBrace | comma | finish => cases h

/-- Every expression is spelled with some token. -/
theorem Expr.Spelled.ne_nil {e : Expr} {ts : List Token} (h : e.Spelled ts) : ts ≠ [] := by
  cases h <;> simp

/-- A list of arguments that is not empty is spelled with some token. -/
theorem Expr.ListSpelled.ne_nil {arg : Expr} {args : List Expr} {ts : List Token}
    (h : Expr.ListSpelled (arg :: args) ts) : ts ≠ [] := by
  cases h with
  | single harg => exact harg.ne_nil
  | cons harg hargs => simp

mutual

/-- No comma of an expression separates arguments. -/
theorem Expr.Spelled.balanced : ∀ {e : Expr} {ts : List Token}, e.Spelled ts → Token.Balanced 0 ts
  | _, _, .number _ => .plain (by simp) (by simp) (by simp)
  | _, _, .yes => .plain (by simp) (by simp) (by simp)
  | _, _, .no => .plain (by simp) (by simp) (by simp)
  | _, _, .variable _ => .plain (by simp) (by simp) (by simp)
  | _, _, .binary hleft hright htoken _ =>
    hleft.balanced.append ((BinaryOp.balanced_of_ofToken? htoken).1.append hright.balanced)
  | _, _, .call name hargs =>
    have hname : Token.Balanced 0 [.identifier name] := .plain (by simp) (by simp) (by simp)
    hname.append hargs.balanced.parens

/-- Inside one more pair of parentheses, arguments may be written with their commas. -/
theorem Expr.ListSpelled.balanced : ∀ {args : List Expr} {ts : List Token},
    Expr.ListSpelled args ts → Token.Balanced 1 ts
  | _, _, .nil => .nil 1
  | _, _, .single h => h.balanced.mono (by omega)
  | _, _, .cons h hargs =>
    (h.balanced.mono (by omega)).append (Token.Balanced.comma.append hargs.balanced)

end

/-- Elements of an expression: folding its tokens gives them, climbing them gives the expression,
and its root outweighs every operator among them. -/
structure Expr.FoldsTo (e : Expr) (ts : List Token) (pieces : List Piece) : Prop where
  fold : ∀ rest others, rest.head? ≠ some .openParen → Token.fold rest = .ok others →
    Token.fold (ts ++ rest) = .ok (pieces ++ others)
  climb : Piece.climb pieces = .ok e
  heaviest : ∀ piece ∈ pieces, ∀ op ∈ piece.op?, ∃ root ∈ e.root?, op.weight ≤ root.weight

namespace Expr.FoldsTo

/-- A single token that is an operand. -/
theorem single {token : Token} {e : Expr} (h : (Piece.single token).operand = .ok e)
    (hop : BinaryOp.ofToken? token = none) : e.FoldsTo [token] [.single token] := by
  constructor
  · intro rest others hrest hothers
    rw [List.singleton_append, Token.fold_single fun _ _ => hrest, hothers]
    rfl
  · rw [Piece.climb]
    exact h
  · intro piece hpiece op hop'
    obtain rfl := List.mem_singleton.mp hpiece
    rw [Piece.op?, hop] at hop'
    cases hop'

/-- A call with its parentheses is a single element. -/
theorem call {args : List Expr} {ts : List Token} (name : String) (hts : Token.Balanced 1 ts)
    (hargs : Token.parseRuns (Token.argumentRuns ts) = .ok args) :
    (Expr.call name args).FoldsTo (.identifier name :: .openParen :: (ts ++ [.closeParen]))
      [.call name args] := by
  constructor
  · intro rest others _ hothers
    rw [List.cons_append, List.cons_append, List.append_assoc, List.singleton_append,
      Token.fold_call (hts.upToClose_eq rest), hargs, hothers]
    rfl
  · rw [Piece.climb]
    rfl
  · intro piece hpiece op hop
    obtain rfl := List.mem_singleton.mp hpiece
    cases hop

/-- An operator between the elements of its operands makes elements of the whole. -/
theorem binary {left right : Expr} {op : BinaryOp} {token : Token} {l r : List Token}
    {ls rs : List Piece} (hleft : left.FoldsTo l ls) (hright : right.FoldsTo r rs)
    (htoken : BinaryOp.ofToken? token = some op) (hleans : Expr.Leans left op right) :
    (Expr.binary left op right).FoldsTo (l ++ token :: r) (ls ++ .single token :: rs) := by
  obtain ⟨-, hopen, hname⟩ := BinaryOp.balanced_of_ofToken? htoken
  have hle : ∀ other ∈ ls, ∀ inner ∈ other.op?, inner.weight ≤ op.weight := by
    intro other hother inner hinner
    obtain ⟨root, hroot, hweight⟩ := hleft.heaviest other hother inner hinner
    exact Nat.le_trans hweight (hleans.left_le root hroot)
  have hlt : ∀ other ∈ rs, ∀ inner ∈ other.op?, inner.weight < op.weight := by
    intro other hother inner hinner
    obtain ⟨root, hroot, hweight⟩ := hright.heaviest other hother inner hinner
    exact Nat.lt_of_le_of_lt hweight (hleans.right_lt root hroot)
  constructor
  · intro rest others hrest hothers
    have hbehind := hright.fold rest others hrest hothers
    have hoperator : Token.fold (token :: (r ++ rest)) = .ok (.single token :: (rs ++ others)) := by
      rw [Token.fold_single fun name h => absurd h (hname name), hbehind]
      rfl
    rw [List.append_assoc, List.append_assoc, List.cons_append, List.cons_append]
    exact hleft.fold _ _ (by simpa using hopen) hoperator
  · exact Piece.climb_append htoken hle hlt hleft.climb hright.climb
  · intro piece hpiece inner hinner
    refine ⟨op, rfl, ?_⟩
    rcases List.mem_append.mp hpiece with hpiece | hpiece
    · exact hle piece hpiece inner hinner
    · rcases List.mem_cons.mp hpiece with rfl | hpiece
      · rw [Piece.op?, htoken] at hinner
        cases hinner
        exact Nat.le_refl _
      · exact Nat.le_of_lt (hlt piece hpiece inner hinner)

end Expr.FoldsTo

/-- Folding the tokens alone gives their elements. -/
theorem Expr.FoldsTo.fold_eq {e : Expr} {ts : List Token} {pieces : List Piece}
    (h : e.FoldsTo ts pieces) : Token.fold ts = .ok pieces := by
  have hempty : Token.fold [] = .ok [] := by rw [Token.fold]
  simpa using h.fold [] [] (by simp) hempty

/-- A run that folds to an expression is parsed as the first argument. -/
theorem Expr.FoldsTo.parseRuns_cons {e : Expr} {args : List Expr} {ts : List Token}
    {runs : List (List Token)} {pieces : List Piece} (h : e.FoldsTo ts pieces)
    (hruns : Token.parseRuns runs = .ok args) :
    Token.parseRuns (ts :: runs) = .ok (e :: args) := by
  rw [Token.parseRuns, h.fold_eq]
  simp only [Bind.bind, Except.bind, h.climb, hruns]
  rfl

mutual

/-- The tokens that spell an expression fold to elements of it. -/
theorem Expr.Spelled.foldsTo : ∀ {e : Expr} {ts : List Token}, e.Spelled ts →
    ∃ pieces, e.FoldsTo ts pieces
  | _, _, .number h => ⟨_, .single h rfl⟩
  | _, _, .yes => ⟨_, .single rfl rfl⟩
  | _, _, .no => ⟨_, .single rfl rfl⟩
  | _, _, .variable _ => ⟨_, .single rfl rfl⟩
  | _, _, .binary hleft hright htoken hleans => by
    obtain ⟨ls, hls⟩ := hleft.foldsTo
    obtain ⟨rs, hrs⟩ := hright.foldsTo
    exact ⟨_, hls.binary hrs htoken hleans⟩
  | _, _, .call name hargs => ⟨_, .call name hargs.balanced hargs.parseRuns_eq⟩

/-- The tokens that spell arguments are parsed as these. -/
theorem Expr.ListSpelled.parseRuns_eq : ∀ {args : List Expr} {ts : List Token},
    Expr.ListSpelled args ts → Token.parseRuns (Token.argumentRuns ts) = .ok args
  | _, _, .nil => by
    change Token.parseRuns [] = .ok []
    rw [Token.parseRuns]
  | _, _, .single h => by
    obtain ⟨pieces, hpieces⟩ := h.foldsTo
    have hempty : Token.parseRuns [] = .ok [] := by rw [Token.parseRuns]
    rw [h.balanced.argumentRuns_single h.ne_nil]
    exact hpieces.parseRuns_cons hempty
  | _, _, .cons h hargs => by
    obtain ⟨pieces, hpieces⟩ := h.foldsTo
    rw [h.balanced.argumentRuns_cons hargs.ne_nil]
    exact hpieces.parseRuns_cons hargs.parseRuns_eq

end

/-- The parser accepts exactly the tokens that spell an expression. -/
theorem Expr.ofTokens_eq_ok_iff {e : Expr} {ts : List Token} :
    Expr.ofTokens ts = .ok e ↔ e.Spelled ts := by
  constructor
  · intro h
    obtain ⟨pieces, hpieces, hclimb⟩ := bind_eq_ok.mp h
    exact (Piece.spelled_of_climb hclimb
      (Token.spelled_of_fold_and_parseRuns.1 ts pieces hpieces)).1
  · intro h
    obtain ⟨pieces, hpieces⟩ := h.foldsTo
    rw [Expr.ofTokens, hpieces.fold_eq]
    exact hpieces.climb

/-- The parser accepts exactly the tokens that spell a list of arguments. -/
theorem Expr.argumentsOfTokens_eq_ok_iff {args : List Expr} {ts : List Token} :
    Expr.argumentsOfTokens ts = .ok args ↔ Expr.ListSpelled args ts := by
  constructor
  · intro h
    exact Token.listSpelled_of_argumentRuns (Token.spelled_of_fold_and_parseRuns.2 _ _ h)
  · exact Expr.ListSpelled.parseRuns_eq

namespace Stmt

/-- Nothing more is expected exactly where nothing more is. -/
theorem expectEnd_eq_ok {tokens : List Token} : expectEnd tokens = .ok () ↔ tokens = [] := by
  cases tokens with
  | nil => simp [expectEnd]
  | cons token rest => simp [expectEnd]

/-- What parentheses enclose ends at the one that closes them. -/
theorem enclosed_eq_ok {tokens inner after : List Token} :
    enclosed tokens = .ok (inner, after) ↔ Token.upToClose 0 tokens = some (inner, after) := by
  unfold enclosed
  cases Token.upToClose 0 tokens <;> simp

/-- At most an opening brace is dropped. -/
theorem dropOpenBrace_eq_nil {tokens : List Token} :
    dropOpenBrace tokens = [] ↔ tokens = [] ∨ tokens = [.openBrace] := by
  unfold dropOpenBrace
  split
  · simp
  · next hne =>
    constructor
    · exact .inl
    · rintro (rfl | rfl)
      · rfl
      · exact absurd rfl (hne [])

/-- A header is a condition in parentheses, and perhaps an opening brace. -/
theorem parseHeader_eq_ok {keyword : Token} {condition : Expr} {tokens : List Token} :
    parseHeader keyword tokens = .ok condition ↔
      ∃ ts brace, tokens = .openParen :: (ts ++ .closeParen :: brace) ∧ condition.Spelled ts ∧
        (brace = [] ∨ brace = [.openBrace]) := by
  constructor
  · intro h
    unfold parseHeader at h
    split at h
    · next rest =>
      obtain ⟨⟨inner, after⟩, hclose, h⟩ := bind_eq_ok.mp h
      obtain ⟨⟨⟩, hend, h⟩ := bind_eq_ok.mp h
      have hrest := Token.eq_of_upToClose (enclosed_eq_ok.mp hclose)
      refine ⟨inner, after, by rw [hrest], Expr.ofTokens_eq_ok_iff.mp h, ?_⟩
      exact dropOpenBrace_eq_nil.mp (expectEnd_eq_ok.mp hend)
    · cases h
  · rintro ⟨ts, brace, rfl, hcondition, hbrace⟩
    have hclose := enclosed_eq_ok.mpr (hcondition.balanced.upToClose_eq brace)
    have hend := expectEnd_eq_ok.mpr (dropOpenBrace_eq_nil.mpr hbrace)
    have hvalue := Expr.ofTokens_eq_ok_iff.mpr hcondition
    rw [parseHeader, hclose]
    simp only [Bind.bind, Except.bind, hend, hvalue]

/-- A statement that begins with a name is a call or an assignment. -/
theorem parseNamed_eq_ok {name : String} {s : Stmt} {tokens : List Token} :
    parseNamed name tokens = .ok s ↔ s.Spelled (.identifier name :: tokens) := by
  constructor
  · intro h
    unfold parseNamed at h
    split at h
    · next rest =>
      obtain ⟨⟨inner, after⟩, hclose, h⟩ := bind_eq_ok.mp h
      obtain ⟨⟨⟩, hend, h⟩ := bind_eq_ok.mp h
      obtain ⟨args, hargs, h⟩ := bind_eq_ok.mp h
      cases h
      obtain rfl := expectEnd_eq_ok.mp hend
      rw [Token.eq_of_upToClose (enclosed_eq_ok.mp hclose)]
      exact .call name (Expr.argumentsOfTokens_eq_ok_iff.mp hargs)
    · next rest =>
      obtain ⟨value, hvalue, h⟩ := bind_eq_ok.mp h
      cases h
      exact .assign name (Expr.ofTokens_eq_ok_iff.mp hvalue)
    · cases h
  · intro h
    cases h with
    | call _ hargs =>
      have hclose := enclosed_eq_ok.mpr (hargs.balanced.upToClose_eq [])
      rw [parseNamed, hclose]
      simp only [Bind.bind, Except.bind, expectEnd_eq_ok.mpr,
        Expr.argumentsOfTokens_eq_ok_iff.mpr hargs]
      rfl
    | assign _ hvalue =>
      rw [parseNamed, Expr.ofTokens_eq_ok_iff.mpr hvalue]
      rfl

/-- The parser accepts exactly the tokens that spell a statement. -/
theorem ofTokens_eq_ok_iff {s : Stmt} {ts : List Token} :
    Stmt.ofTokens ts = .ok s ↔ s.Spelled ts := by
  constructor
  · intro h
    unfold ofTokens at h
    split at h
    · cases h
    · exact parseNamed_eq_ok.mp h
    · obtain ⟨condition, hcondition, h⟩ := bind_eq_ok.mp h
      cases h
      obtain ⟨ts, brace, rfl, hspelled, hbrace⟩ := parseHeader_eq_ok.mp hcondition
      exact .cond hspelled hbrace
    · obtain ⟨condition, hcondition, h⟩ := bind_eq_ok.mp h
      cases h
      obtain ⟨ts, brace, rfl, hspelled, hbrace⟩ := parseHeader_eq_ok.mp hcondition
      exact .loop hspelled hbrace
    · obtain ⟨value, hvalue, h⟩ := bind_eq_ok.mp h
      cases h
      exact .declare _ (Expr.ofTokens_eq_ok_iff.mp hvalue)
    · cases h
    · obtain ⟨⟨⟩, hend, h⟩ := bind_eq_ok.mp h
      cases h
      obtain rfl := expectEnd_eq_ok.mp hend
      exact .leave
    · obtain ⟨⟨⟩, hend, h⟩ := bind_eq_ok.mp h
      cases h
      obtain rfl := expectEnd_eq_ok.mp hend
      exact .suspend
    · cases h
  · intro h
    cases h with
    | call name hargs => exact parseNamed_eq_ok.mpr (.call name hargs)
    | assign name hvalue => exact parseNamed_eq_ok.mpr (.assign name hvalue)
    | declare name hvalue =>
      rw [ofTokens, Expr.ofTokens_eq_ok_iff.mpr hvalue]
      rfl
    | cond hcondition hbrace =>
      rw [ofTokens, parseHeader_eq_ok.mpr ⟨_, _, rfl, hcondition, hbrace⟩]
      rfl
    | loop hcondition hbrace =>
      rw [ofTokens, parseHeader_eq_ok.mpr ⟨_, _, rfl, hcondition, hbrace⟩]
      rfl
    | leave => rfl
    | suspend => rfl

end Stmt

end FrameScript
