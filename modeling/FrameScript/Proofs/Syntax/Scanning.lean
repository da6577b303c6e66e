import FrameScript.Proofs.Syntax.Nesting

/-!
# Scanning runs of tokens

The parser hands on the tokens that are left. Here the same runs are read by index: a reader goes
past a call by the length of what it encloses, and a splitter counts the depth of nesting without
going below zero. Both keep a record of the runs that they hand over and of the indices that they
reach. Main statement: the results are those of the parser.
-/

namespace FrameScript

namespace Scan

/-- What happens to runs of tokens while the statement of a line is read. -/
inductive Event where
  /-- A run is read as an expression. -/
  | expression (run : List Token)
  /-- A run is split into arguments. -/
  | arguments (run : List Token)
  /-- A parenthesis closes at an index of a run that is split, at the depth counted so far. -/
  | close (run : List Token) (index depth : Nat)
  /-- A run was split to its end, and these segments were read as expressions, in this order. -/
  | split (run : List Token) (segments : List (List Token))
  /-- Behind the call at an index of a run, the reader goes on at another index. -/
  | skip (run : List Token) (index next : Nat)

/-- A calculation that may fail, with what happened until it ended. -/
structure Recorded (α : Type) where
  events : List Event
  result : Except ScriptError α

namespace Recorded

/-- Nothing but an event. -/
def note (event : Event) : Recorded Unit :=
  ⟨[event], .ok ()⟩

/-- A calculation in which nothing happens. -/
def ofResult {α : Type} (result : Except ScriptError α) : Recorded α :=
  ⟨[], result⟩

instance : Monad Recorded where
  pure a := ofResult (.ok a)
  bind x f := match x.result with
    | .error error => ⟨x.events, .error error⟩
    | .ok a => ⟨x.events ++ (f a).events, (f a).result⟩

section

variable {α β : Type}

/-- Behind a calculation that succeeds the next one goes on. -/
theorem bind_ok {x : Recorded α} {a : α} (h : x.result = .ok a) (f : α → Recorded β) :
    x >>= f = ⟨x.events ++ (f a).events, (f a).result⟩ := by
  change (match x.result with
    | .error error => ⟨x.events, .error error⟩
    | .ok a => ⟨x.events ++ (f a).events, (f a).result⟩ : Recorded β) = _
  rw [h]

/-- Behind a calculation that fails nothing happens. -/
theorem bind_error {x : Recorded α} {error : ScriptError} (h : x.result = .error error)
    (f : α → Recorded β) : x >>= f = ⟨x.events, .error error⟩ := by
  change (match x.result with
    | .error error => ⟨x.events, .error error⟩
    | .ok a => ⟨x.events ++ (f a).events, (f a).result⟩ : Recorded β) = _
  rw [h]

/-- What a calculation gives does not depend on what is recorded. -/
@[simp]
theorem result_bind (x : Recorded α) (f : α → Recorded β) :
    (x >>= f).result = x.result >>= fun a => (f a).result := by
  cases h : x.result with
  | error error =>
    rw [bind_error h]
    rfl
  | ok a =>
    rw [bind_ok h]
    rfl

/-- Where two calculations in turn succeed, both do, and the events are those of both. -/
theorem of_bind_ok {x : Recorded α} {f : α → Recorded β} {b : β} (h : (x >>= f).result = .ok b) :
    ∃ a, x.result = .ok a ∧ (f a).result = .ok b ∧
      (x >>= f).events = x.events ++ (f a).events := by
  rw [result_bind] at h
  obtain ⟨a, ha, hb⟩ := bind_eq_ok.mp h
  exact ⟨a, ha, hb, by rw [bind_ok ha]⟩

/-- A calculation that only wraps the result of another has no events of its own. -/
theorem of_return_ok {x : Recorded α} {f : α → β} {b : β}
    (h : (x >>= fun a => pure (f a)).result = .ok b) :
    ∃ a, x.result = .ok a ∧ f a = b ∧ (x >>= fun a => pure (f a)).events = x.events := by
  obtain ⟨a, ha, hb, hevents⟩ := of_bind_ok h
  exact ⟨a, ha, pure_eq_ok.mp hb, hevents.trans (List.append_nil _)⟩

/-- An event happens before what follows it. -/
@[simp]
theorem note_bind (event : Event) (f : Unit → Recorded α) :
    note event >>= f = ⟨event :: (f ()).events, (f ()).result⟩ := rfl

/-- The result is as it was given. -/
@[simp]
theorem result_ofResult (result : Except ScriptError α) : (ofResult result).result = result := rfl

/-- What is given back is the result. -/
@[simp]
theorem result_pure (a : α) : (pure a : Recorded α).result = .ok a := rfl

/-- Nothing happens where a result is only given back. -/
@[simp]
theorem events_pure (a : α) : (pure a : Recorded α).events = [] := rfl

end

end Recorded

open Recorded

/-- What parentheses enclose is shorter than the run by one of them at least. -/
theorem length_lt_of_enclosed {run inner after : List Token} {index : Nat}
    (h : Stmt.enclosed (run.drop index) = .ok (inner, after)) :
    index + inner.length < run.length := by
  have hlength := congrArg List.length (Token.eq_of_upToClose (Stmt.enclosed_eq_ok.mp h))
  simp only [List.length_drop, List.length_append, List.length_cons] at hlength
  omega

/-! ### Reading by index -/

mutual

/-- The expression of a run of tokens. -/
def expression (run : List Token) : Recorded Expr := do
  note (.expression run)
  let found ← pieces run 0
  ofResult (Piece.climb found)
termination_by (run.length, 2, 0)

/-- The elements of a run of tokens from an index on. Behind a call the index is past its name, its
two parentheses and the tokens between them. -/
def pieces (run : List Token) (index : Nat) : Recorded (List Piece) :=
  if hindex : index < run.length then
    match run[index], run[index + 1]? with
    | .identifier name, some .openParen =>
      match hclose : Stmt.enclosed (run.drop (index + 2)) with
      | .error error => ofResult (.error error)
      | .ok (inner, _) =>
        have := length_lt_of_enclosed hclose
        do
          let args ← arguments inner
          note (.skip run index (index + inner.length + 3))
          let others ← pieces run (index + inner.length + 3)
          return .call name args :: others
    | token, _ => do
      let others ← pieces run (index + 1)
      return .single token :: others
  else return []
termination_by (run.length, 1, run.length - index)

/-- The arguments that a run of tokens forms. -/
def arguments (run : List Token) : Recorded (List Expr) := do
  note (.arguments run)
  if run.isEmpty then
    note (.split run [])
    return []
  else
    let (found, args) ← segments run 0 0 0
    note (.split run found)
    return args
termination_by (run.length, 4, 0)

/-- The segments of a run between commas, with their expressions, from an index on. The depth of
nesting is counted along, and the segment at hand begins at `start`. -/
def segments (run : List Token) (depth start index : Nat) :
    Recorded (List (List Token) × List Expr) :=
  if hindex : index < run.length then
    match run[index] with
    | .openParen => segments run (depth + 1) start (index + 1)
    | .closeParen => do
      note (.close run index depth)
      segments run (depth - 1) start (index + 1)
    | .comma =>
      if depth = 0 then do
        let arg ← expression ((run.take index).drop start)
        let (later, args) ← segments run depth (index + 1) (index + 1)
        return ((run.take index).drop start :: later, arg :: args)
      else segments run depth start (index + 1)
    | _ => segments run depth start (index + 1)
  else do
    let arg ← expression (run.drop start)
    return ([run.drop start], [arg])
termination_by (run.length, 3, run.length - index)
decreasing_by all_goals (simp [Prod.lex_def]; omega)

end

/-- The condition of a header. -/
def header (keyword : Token) : List Token → Recorded Expr
  | .openParen :: rest => do
    let (inner, after) ← ofResult (Stmt.enclosed rest)
    ofResult (Stmt.expectEnd (Stmt.dropOpenBrace after))
    expression inner
  | _ => ofResult (.error (.malformed (.noOpenParen keyword)))

/-- The statement that begins with an identifier. -/
def named (name : String) : List Token → Recorded Stmt
  | .openParen :: rest => do
    let (inner, after) ← ofResult (Stmt.enclosed rest)
    ofResult (Stmt.expectEnd after)
    let args ← arguments inner
    return .call name args
  | .assign :: rest => return .assign name (← expression rest)
  | _ => ofResult (.error (.malformed (.noCallOrAssignment name)))

/-- The statement of one line's tokens. A line that holds no expression has nothing to record. -/
def statement : List Token → Recorded Stmt
  | .identifier name :: rest => named name rest
  | .ifWord :: rest => return .cond (← header .ifWord rest) []
  | .whileWord :: rest => return .loop (← header .whileWord rest) []
  | .varWord :: .identifier name :: .assign :: rest => return .declare name (← expression rest)
  | tokens => ofResult (Stmt.ofTokens tokens)

/-! ### One step of a loop -/

section

variable {run inner after : List Token} {name : String} {depth start index : Nat}

/-- At a call its arguments are split, and the index is moved behind it. -/
theorem pieces_call (hindex : index < run.length) (hname : run[index] = .identifier name)
    (hopen : run[index + 1]? = some .openParen)
    (hclose : Stmt.enclosed (run.drop (index + 2)) = .ok (inner, after)) :
    pieces run index = do
      let args ← arguments inner
      note (.skip run index (index + inner.length + 3))
      let others ← pieces run (index + inner.length + 3)
      return .call name args :: others := by
  rw [pieces, dif_pos hindex]
  simp only [hname, hopen]
  split
  · next herror =>
    rw [hclose] at herror
    cases herror
  · next hok =>
    rw [hclose] at hok
    cases hok
    rfl

/-- A call without its closing parenthesis is refused. -/
theorem pieces_unclosed (hindex : index < run.length) (hname : run[index] = .identifier name)
    (hopen : run[index + 1]? = some .openParen) {error : ScriptError}
    (hclose : Stmt.enclosed (run.drop (index + 2)) = .error error) :
    pieces run index = ofResult (.error error) := by
  rw [pieces, dif_pos hindex]
  simp only [hname, hopen]
  split
  · next herror =>
    rw [hclose] at herror
    cases herror
    rfl
  · next hok =>
    rw [hclose] at hok
    cases hok

/-- Any other token is an element of its own. -/
theorem pieces_single (hindex : index < run.length)
    (h : ∀ name, run[index] = .identifier name → run[index + 1]? = some .openParen → False) :
    pieces run index = do
      let others ← pieces run (index + 1)
      return .single run[index] :: others := by
  rw [pieces, dif_pos hindex]
  split
  · next name hname hopen => exact (h name hname hopen).elim
  · rfl

/-- Behind the end of a run there are no elements. -/
theorem pieces_end (hindex : ¬index < run.length) : pieces run index = pure [] := by
  rw [pieces, dif_neg hindex]

/-- The empty run has no arguments, though a splitter would find one empty segment in it. -/
theorem arguments_nil :
    arguments [] = do
      note (.arguments [])
      note (.split [] [])
      return [] := by
  rw [arguments]
  rfl

/-- A run of tokens is split into its segments. -/
theorem arguments_of_ne_nil (h : run ≠ []) :
    arguments run = do
      note (.arguments run)
      let (found, args) ← segments run 0 0 0
      note (.split run found)
      return args := by
  rw [arguments, if_neg (by simpa using h)]

/-- A closing parenthesis is recorded with the depth, which then is one less. -/
theorem segments_close (hindex : index < run.length) (h : run[index] = .closeParen) :
    segments run depth start index =
      note (.close run index depth) >>= fun _ => segments run (depth - 1) start (index + 1) := by
  rw [segments, dif_pos hindex]
  simp only [h]

/-- A comma outside all parentheses ends the segment at hand. -/
theorem segments_comma (hindex : index < run.length) (h : run[index] = .comma) :
    segments run 0 start index = do
      let arg ← expression ((run.take index).drop start)
      let (later, args) ← segments run 0 (index + 1) (index + 1)
      return ((run.take index).drop start :: later, arg :: args) := by
  rw [segments, dif_pos hindex]
  simp only [h, if_true]

/-- Any other token is part of the segment at hand. -/
theorem segments_other (hindex : index < run.length) (hclose : run[index] ≠ .closeParen)
    (hcomma : run[index] = .comma → depth ≠ 0) :
    segments run depth start index =
      segments run (Token.depthBehind depth run[index]) start (index + 1) := by
  rw [segments, dif_pos hindex]
  split <;> simp_all [Token.depthBehind]

/-- The end of a run ends the segment at hand. -/
theorem segments_end (hindex : ¬index < run.length) :
    segments run depth start index = do
      let arg ← expression (run.drop start)
      return ([run.drop start], [arg]) := by
  rw [segments, dif_neg hindex]

end

/-- Induction along the recursive calls. The tokens at which a splitter does no more than to count
the depth are one case. -/
theorem induct {ofExpression ofArguments : List Token → Prop} {ofPieces : List Token → Nat → Prop}
    {ofSegments : List Token → Nat → Nat → Nat → Prop}
    (expression : ∀ run, ofPieces run 0 → ofExpression run)
    (unclosed : ∀ run index (hindex : index < run.length) name,
      run[index] = .identifier name → run[index + 1]? = some .openParen →
      ∀ error, Stmt.enclosed (run.drop (index + 2)) = .error error → ofPieces run index)
    (call : ∀ run index (hindex : index < run.length) name,
      run[index] = .identifier name → run[index + 1]? = some .openParen →
      ∀ inner after, Stmt.enclosed (run.drop (index + 2)) = .ok (inner, after) →
      ofArguments inner → ofPieces run (index + inner.length + 3) → ofPieces run index)
    (single : ∀ run index (hindex : index < run.length),
      (∀ name, run[index] = .identifier name → run[index + 1]? = some .openParen → False) →
      ofPieces run (index + 1) → ofPieces run index)
    (stop : ∀ run index, ¬index < run.length → ofPieces run index)
    (arguments : ∀ run, ofSegments run 0 0 0 → ofArguments run)
    (close : ∀ run depth start index (hindex : index < run.length), run[index] = .closeParen →
      ofSegments run (depth - 1) start (index + 1) → ofSegments run depth start index)
    (comma : ∀ run start index (hindex : index < run.length), run[index] = .comma →
      ofExpression ((run.take index).drop start) → ofSegments run 0 (index + 1) (index + 1) →
      ofSegments run 0 start index)
    (other : ∀ run depth start index (hindex : index < run.length), run[index] ≠ .closeParen →
      (run[index] = .comma → depth ≠ 0) →
      ofSegments run (Token.depthBehind depth run[index]) start (index + 1) →
      ofSegments run depth start index)
    (last : ∀ run depth start index, ¬index < run.length → ofExpression (run.drop start) →
      ofSegments run depth start index) :
    (∀ run, ofExpression run) ∧ (∀ run index, ofPieces run index) ∧ (∀ run, ofArguments run) ∧
      ∀ run depth start index, ofSegments run depth start index := by
  apply Scan.expression.mutual_induct
  · exact expression
  · intro run index hindex name hopen hname
    exact unclosed run index hindex name hname hopen
  · intro run index hindex name hopen hname inner after hclose _
    exact call run index hindex name hname hopen inner after hclose
  · exact single
  · exact stop
  · exact arguments
  · intro run depth start index hindex hopen ih
    exact other run depth start index hindex (by simp [hopen]) (by simp [hopen]) (hopen ▸ ih)
  · exact close
  · exact comma
  · intro run depth start index hindex hcomma hdepth ih
    exact other run depth start index hindex (by simp [hcomma]) (fun _ => hdepth) (hcomma ▸ ih)
  · intro run depth start index hindex hopen hclose hcomma ih
    have hsame : Token.depthBehind depth run[index] = depth :=
      Token.depthBehind_of_ne hopen hclose
    exact other run depth start index hindex hclose (fun h => (hcomma h).elim) (hsame.symm ▸ ih)
  · exact last

/-! ### The segments that are to come -/

section

variable {run : List Token} {depth start index : Nat}

/-- The segments of a run that a splitter has yet to read when it stands at an index. -/
def remaining (run : List Token) (depth start index : Nat) : List (List Token) :=
  ((run.take index).drop start ++ (Token.splitAtCommas depth (run.drop index)).1) ::
    (Token.splitAtCommas depth (run.drop index)).2

/-- From the start on, all segments are to be read. -/
theorem remaining_all (h : run ≠ []) : remaining run 0 0 0 = Token.argumentRuns run := by
  rw [Token.argumentRuns, if_neg (by simpa using h)]
  rfl

/-- The segment that a comma ends is read before those behind it. -/
theorem remaining_comma (hindex : index < run.length) (h : run[index] = .comma) :
    remaining run 0 start index =
      (run.take index).drop start :: remaining run 0 (index + 1) (index + 1) := by
  rw [remaining, List.drop_eq_getElem_cons hindex, h]
  simp [remaining, Token.splitAtCommas]

/-- A token inside a segment leaves the same segments to be read. -/
theorem remaining_other (hindex : index < run.length) (hstart : start ≤ index)
    (hcomma : run[index] = .comma → depth ≠ 0) :
    remaining run depth start index =
      remaining run (Token.depthBehind depth run[index]) start (index + 1) := by
  have hlength : start ≤ (run.take index).length := by
    rw [List.length_take]
    omega
  rw [remaining, List.drop_eq_getElem_cons hindex, Token.splitAtCommas_cons hcomma, remaining,
    List.take_succ_eq_append_getElem hindex, List.drop_append_of_le_length hlength]
  simp

/-- The last segment is what there is from its start on. -/
theorem remaining_end (h : ¬index < run.length) :
    remaining run depth start index = [run.drop start] := by
  have hle : run.length ≤ index := by omega
  rw [remaining, List.drop_eq_nil_of_le hle, List.take_of_length_le hle]
  simp [Token.splitAtCommas]

end

/-! ### The results -/

section

variable {run inner after : List Token} {name : String} {index : Nat}

/-- The first run is parsed before the others. -/
theorem parseRuns_cons (run : List Token) (others : List (List Token)) :
    Token.parseRuns (run :: others) = do
      let first ← Expr.ofTokens run
      let rest ← Token.parseRuns others
      return first :: rest := by
  rw [Token.parseRuns, Expr.ofTokens]
  cases Token.fold run <;> rfl

/-- A call folds to what its parentheses enclose and to what stands behind them. -/
theorem fold_enclosed (name : String) (rest : List Token) :
    Token.fold (.identifier name :: .openParen :: rest) = do
      let (inner, after) ← Stmt.enclosed rest
      let args ← Token.parseRuns (Token.argumentRuns inner)
      let found ← Token.fold after
      return .call name args :: found := by
  cases hclose : Token.upToClose 0 rest with
  | some split =>
    rw [Token.fold_call hclose, Stmt.enclosed_eq_ok.mpr hclose]
    rfl
  | none =>
    rw [Token.fold]
    split
    · rw [Stmt.enclosed, hclose]
      rfl
    · next hsome =>
      rw [hclose] at hsome
      cases hsome

/-- The tokens from the index of a call on. -/
theorem drop_call (hindex : index < run.length) (hname : run[index] = .identifier name)
    (hopen : run[index + 1]? = some .openParen) :
    run.drop index = .identifier name :: .openParen :: run.drop (index + 2) := by
  obtain ⟨hnext, hopen⟩ := List.getElem?_eq_some_iff.mp hopen
  rw [List.drop_eq_getElem_cons hindex, List.drop_eq_getElem_cons hnext, hname, hopen]

/-- Past a call are the tokens behind the parenthesis that closes it. -/
theorem drop_skip (hclose : Stmt.enclosed (run.drop (index + 2)) = .ok (inner, after)) :
    run.drop (index + inner.length + 3) = after := by
  have hdrop := Token.eq_of_upToClose (Stmt.enclosed_eq_ok.mp hclose)
  rw [show index + inner.length + 3 = index + 2 + (inner.length + 1) by omega, ← List.drop_drop,
    hdrop, List.drop_append]
  simp

/-- Reading by index gives what the parser gives for the tokens from the index on. -/
theorem result_eq :
    (∀ run, (expression run).result = Expr.ofTokens run) ∧
      (∀ run index, (pieces run index).result = Token.fold (run.drop index)) ∧
      (∀ run, (arguments run).result = Expr.argumentsOfTokens run) ∧
      ∀ run depth start index, start ≤ index → (segments run depth start index).result =
        (Token.parseRuns (remaining run depth start index)).map
          fun args => (remaining run depth start index, args) := by
  apply induct
  case expression =>
    intro run ih
    rw [expression, note_bind, result_bind, ih]
    rfl
  case unclosed =>
    intro run index hindex name hname hopen error hclose
    rw [pieces_unclosed hindex hname hopen hclose, drop_call hindex hname hopen, fold_enclosed,
      hclose]
    rfl
  case call =>
    intro run index hindex name hname hopen inner after hclose ihinner ihafter
    rw [pieces_call hindex hname hopen hclose, drop_call hindex hname hopen, fold_enclosed,
      hclose, ← drop_skip hclose]
    simp only [result_bind, note_bind, result_pure, ihinner, ihafter]
    rfl
  case single =>
    intro run index hindex hsingle ih
    rw [pieces_single hindex hsingle, List.drop_eq_getElem_cons hindex, Token.fold_single]
    · simp only [result_bind, result_pure, ih]
      rfl
    · intro name hname hopen
      rw [List.head?_drop] at hopen
      exact hsingle name hname hopen
  case stop =>
    intro run index hindex
    rw [pieces_end hindex, List.drop_eq_nil_of_le (by omega), Token.fold]
    rfl
  case arguments =>
    intro run ih
    rw [Expr.argumentsOfTokens]
    by_cases hempty : run = []
    · subst hempty
      rw [arguments_nil, Token.argumentRuns, Token.parseRuns.eq_def]
      rfl
    · rw [arguments_of_ne_nil hempty, note_bind, result_bind, ih (Nat.le_refl 0),
        remaining_all hempty]
      cases Token.parseRuns (Token.argumentRuns run) <;> rfl
  case close =>
    intro run depth start index hindex hclose ih hstart
    rw [segments_close hindex hclose, remaining_other hindex hstart (by simp [hclose]), hclose]
    exact ih (by omega)
  case comma =>
    intro run start index hindex hcomma ihexpression ih hstart
    rw [segments_comma hindex hcomma, remaining_comma hindex hcomma, parseRuns_cons]
    simp only [result_bind, ihexpression, ih (Nat.le_refl _), result_pure]
    cases Expr.ofTokens ((run.take index).drop start) with
    | error error => rfl
    | ok arg => cases Token.parseRuns (remaining run 0 (index + 1) (index + 1)) <;> rfl
  case other =>
    intro run depth start index hindex hclose hcomma ih hstart
    rw [segments_other hindex hclose hcomma, remaining_other hindex hstart hcomma]
    exact ih (by omega)
  case last =>
    intro run depth start index hindex ih hstart
    rw [segments_end hindex, remaining_end hindex, parseRuns_cons]
    simp only [result_bind, ih, Token.parseRuns]
    cases Expr.ofTokens (run.drop start) <;> rfl

/-- The expression that is read is the one of the parser. -/
theorem result_expression (run : List Token) : (expression run).result = Expr.ofTokens run :=
  result_eq.1 run

/-- The arguments that are read are those of the parser. -/
theorem result_arguments (run : List Token) :
    (arguments run).result = Expr.argumentsOfTokens run :=
  result_eq.2.2.1 run

/-- A run that is split to its end is split into the runs of the parser. -/
theorem eq_of_result_segments {found : List (List Token)} {args : List Expr} (hrun : run ≠ [])
    (h : (segments run 0 0 0).result = .ok (found, args)) :
    found = Token.argumentRuns run ∧ found.length = args.length := by
  rw [result_eq.2.2.2 run 0 0 0 (Nat.le_refl 0), remaining_all hrun] at h
  obtain ⟨others, hothers, heq⟩ := map_eq_ok.mp h
  cases heq
  exact ⟨rfl, (Token.spelled_of_fold_and_parseRuns.2 _ _ hothers).length_eq.symm⟩

/-- The condition that is read is the one of the parser. -/
theorem result_header (keyword : Token) (tokens : List Token) :
    (header keyword tokens).result = Stmt.parseHeader keyword tokens := by
  unfold header Stmt.parseHeader
  split
  · simp only [result_bind, result_ofResult, result_expression]
  · simp

/-- The statement that is read is the one of the parser. -/
theorem result_named (name : String) (tokens : List Token) :
    (named name tokens).result = Stmt.parseNamed name tokens := by
  unfold named Stmt.parseNamed
  split
  · simp only [result_bind, result_ofResult, result_arguments]
    rfl
  · simp only [result_bind, result_expression]
    rfl
  · simp

/-- Reading a line with a record of what happens gives what the parser gives. -/
theorem result_statement (tokens : List Token) :
    (statement tokens).result = Stmt.ofTokens tokens := by
  unfold statement
  split
  · exact result_named _ _
  · rw [result_bind, result_header]
    rfl
  · rw [result_bind, result_header]
    rfl
  · rw [result_bind, result_expression]
    rfl
  · rfl

end

end Scan

end FrameScript
