import FrameScript.Proofs.Syntax.Acceptance

/-!
# Nested parentheses

Between a parenthesis and the one that closes it, parentheses open and close in pairs. In such a run
of tokens a count of the parentheses in front of a comma tells whether it stands outside all of
them, and the parser cuts the run at exactly those commas.
-/

namespace FrameScript

namespace Token

/-- Behind some open parentheses, no beginning of a run closes more than are open, and the whole
run closes all of them. -/
structure Nested (depth : Nat) (run : List Token) : Prop where
  never_below : ∀ front, front <+: run →
    front.count .closeParen ≤ depth + front.count .openParen
  whole : run.count .closeParen = depth + run.count .openParen

/-- How many parentheses are open behind a token. -/
def depthBehind (depth : Nat) : Token → Nat
  | .openParen => depth + 1
  | .closeParen => depth - 1
  | _ => depth

/-- The parenthesis that opens at one index of a run closes at another. -/
structure Closes (run : List Token) (opening closing : Nat) : Prop where
  opens : run[opening]? = some .openParen
  closes : run[closing]? = some .closeParen
  lt : opening < closing
  between : Nested 0 ((run.take closing).drop (opening + 1))

/-- A comma at an index of a run that begins behind some open parentheses, outside all of these and
of those in the run. -/
def OuterComma (depth : Nat) (run : List Token) (index : Nat) : Prop :=
  run[index]? = some .comma ∧
    (run.take index).count .closeParen = depth + (run.take index).count .openParen

/-- An index at which a comma separates two segments once they are joined. -/
inductive Separates : List (List Token) → Nat → Prop
  | first (segment next : List Token) (rest : List (List Token)) :
    Separates (segment :: next :: rest) segment.length
  | later {rest : List (List Token)} {index : Nat} (segment : List Token)
    (h : Separates rest index) : Separates (segment :: rest) (segment.length + 1 + index)

section

variable {depth index : Nat} {token : Token} {run rest inner after : List Token}

/-! ### Counting the depth -/

/-- Any other token leaves the depth as it is. -/
theorem depthBehind_of_ne (hopen : token ≠ .openParen) (hclose : token ≠ .closeParen) :
    depthBehind depth token = depth := by
  cases token <;> simp_all [depthBehind]

/-- A token changes the depth by the parentheses that it is. -/
theorem depthBehind_add_count (hclose : token = .closeParen → 0 < depth) :
    depthBehind depth token + [token].count .closeParen = depth + [token].count .openParen := by
  cases token with
  | closeParen =>
    have hpos := hclose rfl
    change depth - 1 + 1 = depth
    omega
  | _ => rfl

/-- Counting on from the depth behind a token is counting with the token from the depth before. -/
theorem depthBehind_add_count_cons (hclose : token = .closeParen → 0 < depth)
    (front : List Token) :
    depthBehind depth token + front.count .openParen + (token :: front).count .closeParen =
      depth + (token :: front).count .openParen + front.count .closeParen := by
  have htoken := depthBehind_add_count hclose
  rw [← List.singleton_append, List.count_append, List.count_append]
  omega

/-- The depth counted in front of a token tells the depth behind it. -/
theorem depthBehind_add_count_take (hindex : index < run.length)
    (hclose : run[index] = .closeParen → 0 < depth)
    (hcounted : depth + (run.take index).count .closeParen = (run.take index).count .openParen) :
    depthBehind depth run[index] + (run.take (index + 1)).count .closeParen =
      (run.take (index + 1)).count .openParen := by
  have htoken := depthBehind_add_count hclose
  rw [List.take_succ_eq_append_getElem hindex, List.count_append, List.count_append]
  omega

/-! ### Runs with their parentheses in pairs -/

namespace Nested

/-- The empty run is nested. -/
theorem nil : Nested 0 [] :=
  ⟨fun front hfront => by simp [List.prefix_nil.mp hfront], rfl⟩

/-- The parentheses of a nested run come in pairs. -/
theorem pairs (h : Nested 0 run) :
    (∀ front, front <+: run → front.count .closeParen ≤ front.count .openParen) ∧
      run.count .closeParen = run.count .openParen :=
  ⟨by simpa using h.never_below, by simpa using h.whole⟩

/-- A token in front is a step up or down. -/
theorem cons_iff : Nested depth (token :: run) ↔
    (token = .closeParen → 0 < depth) ∧ Nested (depthBehind depth token) run := by
  constructor
  · intro h
    have hclose : token = .closeParen → 0 < depth := by
      rintro rfl
      have hbelow := h.never_below [.closeParen] (by simp)
      simp only [List.count_singleton_self] at hbelow
      exact hbelow
    refine ⟨hclose, fun front hfront => ?_, ?_⟩
    · have hbelow := h.never_below (token :: front) (by simpa using hfront)
      have hcount := depthBehind_add_count_cons hclose front
      omega
    · have hwhole := h.whole
      have hcount := depthBehind_add_count_cons hclose run
      omega
  · rintro ⟨hclose, h⟩
    refine ⟨fun front hfront => ?_, ?_⟩
    · rcases List.prefix_cons_iff.mp hfront with rfl | ⟨behind, rfl, hbehind⟩
      · simp
      · have hbelow := h.never_below behind hbehind
        have hcount := depthBehind_add_count_cons hclose behind
        omega
    · have hwhole := h.whole
      have hcount := depthBehind_add_count_cons hclose run
      omega

/-- In a nested run no parenthesis closes where none is open. -/
theorem depth_pos (h : Nested 0 run) (hindex : index < run.length)
    (hclose : run[index] = .closeParen)
    (hcounted : depth + (run.take index).count .closeParen = (run.take index).count .openParen) :
    0 < depth := by
  have hbelow := h.never_below _ (List.take_prefix (index + 1) run)
  rw [List.take_succ_eq_append_getElem hindex, hclose, List.count_append, List.count_append,
    List.count_singleton_self] at hbelow
  have hother : [Token.closeParen].count .openParen = 0 := rfl
  omega

end Nested

/-- What stands in front of the closing parenthesis that is looked for is nested. -/
theorem nested_of_upToClose (h : upToClose depth rest = some (inner, after)) :
    Nested depth inner := by
  fun_induction upToClose depth rest generalizing inner after with
  | case1 => cases h
  | case2 =>
    cases h
    exact .nil
  | case3 depth rest ih | case4 depth rest ih =>
    obtain ⟨⟨front, behind⟩, hrest, heq⟩ := Option.map_eq_some_iff.mp h
    cases heq
    exact Nested.cons_iff.mpr ⟨by simp, ih hrest⟩
  | case5 depth token rest hzero hsucc hopen ih =>
    obtain ⟨⟨front, behind⟩, hrest, heq⟩ := Option.map_eq_some_iff.mp h
    cases heq
    have hclose : token ≠ .closeParen := by
      rintro rfl
      cases depth with
      | zero => exact hzero rfl rfl
      | succ depth => exact hsucc depth rfl rfl
    refine Nested.cons_iff.mpr ⟨fun heq => absurd heq hclose, ?_⟩
    rw [depthBehind_of_ne hopen hclose]
    exact ih hrest

/-! ### Segments between commas -/

section

variable {segment next : List Token} {others : List (List Token)}

/-- A comma separates the first two segments, or it is one of those between the later ones. -/
theorem separates_cons_iff : Separates (segment :: next :: others) index ↔
    index = segment.length ∨
      ∃ i, Separates (next :: others) i ∧ index = segment.length + 1 + i := by
  constructor
  · intro h
    cases h with
    | first => exact .inl rfl
    | later _ hlater => exact .inr ⟨_, hlater, rfl⟩
  · rintro (rfl | ⟨i, hlater, rfl⟩)
    · exact .first segment next others
    · exact .later segment hlater

/-- Nothing separates a single segment. -/
theorem not_separates_singleton : ¬Separates [segment] index := by
  intro h
  cases h with
  | later _ hlater => cases hlater

/-- A token in front of the first segment moves all commas by one. -/
theorem separates_cons_cons_iff : Separates ((token :: segment) :: others) index ↔
    ∃ i, Separates (segment :: others) i ∧ index = i + 1 := by
  cases others with
  | nil => simp [not_separates_singleton]
  | cons next others =>
    rw [separates_cons_iff]
    constructor
    · rintro (rfl | ⟨i, hlater, rfl⟩)
      · exact ⟨_, .first segment next others, rfl⟩
      · exact ⟨_, .later segment hlater, by rw [List.length_cons]; omega⟩
    · rintro ⟨i, h, rfl⟩
      rcases separates_cons_iff.mp h with rfl | ⟨j, hlater, rfl⟩
      · exact .inl rfl
      · exact .inr ⟨j, hlater, by rw [List.length_cons]; omega⟩

end

/-- An outer comma is the first token, or it is one behind this token. -/
theorem outerComma_cons_iff (hclose : token = .closeParen → 0 < depth) :
    OuterComma depth (token :: run) index ↔ index = 0 ∧ token = .comma ∧ depth = 0 ∨
      ∃ i, OuterComma (depthBehind depth token) run i ∧ index = i + 1 := by
  unfold OuterComma
  cases index with
  | zero => simp [eq_comm]
  | succ i =>
    have hcount := depthBehind_add_count_cons hclose (run.take i)
    simp only [List.getElem?_cons_succ, List.take_succ_cons]
    constructor
    · rintro ⟨hcomma, heq⟩
      exact .inr ⟨i, ⟨hcomma, by omega⟩, rfl⟩
    · rintro (⟨hzero, -⟩ | ⟨j, ⟨hcomma, heq⟩, hj⟩)
      · cases hzero
      · cases hj
        exact ⟨hcomma, by omega⟩

/-- Any token but a comma outside all parentheses goes to the first segment. -/
theorem splitAtCommas_cons (h : token = .comma → depth ≠ 0) :
    splitAtCommas depth (token :: run) =
      (token :: (splitAtCommas (depthBehind depth token) run).1,
        (splitAtCommas (depthBehind depth token) run).2) := by
  cases token <;> simp_all [splitAtCommas, depthBehind]

/-- A nested run is cut at exactly the commas outside all parentheses. -/
theorem separates_splitAtCommas (h : Nested depth run) (index : Nat) :
    Separates ((splitAtCommas depth run).1 :: (splitAtCommas depth run).2) index ↔
      OuterComma depth run index := by
  induction run generalizing depth index with
  | nil => simp [splitAtCommas, not_separates_singleton, OuterComma]
  | cons token run ih =>
    obtain ⟨hclose, hrun⟩ := Nested.cons_iff.mp h
    rw [outerComma_cons_iff hclose]
    simp only [← ih hrun]
    by_cases hcut : token = .comma ∧ depth = 0
    · obtain ⟨rfl, rfl⟩ := hcut
      simp [splitAtCommas, separates_cons_iff, depthBehind, Nat.add_comm]
    · rw [splitAtCommas_cons (by tauto)]
      simp [separates_cons_cons_iff, hcut]

/-- The first segment is followed by each of the others behind a comma. -/
theorem intercalate_cons (first : List Token) (others : List (List Token)) :
    [Token.comma].intercalate (first :: others) = first ++ others.flatMap (.comma :: ·) := by
  induction others generalizing first with
  | nil => simp [List.intercalate]
  | cons next others ih =>
    rw [List.flatMap_cons, List.cons_append, ← ih next]
    simp [List.intercalate]

/-- The arguments of a call, joined with commas, are the tokens between its parentheses. -/
theorem intercalate_argumentRuns (run : List Token) :
    [Token.comma].intercalate (argumentRuns run) = run := by
  unfold argumentRuns
  split
  · next hempty => simp [List.isEmpty_iff.mp hempty, List.intercalate]
  · exact (intercalate_cons _ _).trans (eq_of_splitAtCommas 0 run).symm

/-- Arguments are cut at exactly the commas outside all parentheses. -/
theorem separates_argumentRuns (h : Nested 0 run) :
    Separates (argumentRuns run) index ↔ OuterComma 0 run index := by
  unfold argumentRuns
  split
  · next hempty =>
    rw [List.isEmpty_iff.mp hempty]
    simp only [OuterComma, List.getElem?_nil, reduceCtorEq, false_and, iff_false]
    intro hnone
    cases hnone
  · exact separates_splitAtCommas h index

end

end Token

end FrameScript
