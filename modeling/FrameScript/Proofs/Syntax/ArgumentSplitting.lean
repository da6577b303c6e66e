import FrameScript.Proofs.Syntax.Scanning

/-!
# Splitting arguments

Every run that is split into arguments stood between a parenthesis and the one that closes it. So
the depth that the splitter counts is that of nesting, the segments are cut at exactly the commas
outside all parentheses, and a reader that skips a call goes on right behind it. Main statement:
this holds of every recursive call while a line is read, and an accepted line splits once for each
call of its statement.
-/

namespace FrameScript

/-! ### Calls of a tree -/

mutual

/-- How many arguments each call of an expression has, a call behind those in its arguments. -/
def Expr.arities : Expr → List Nat
  | .number _ | .bool _ | .variable _ => []
  | .binary left _ right => left.arities ++ right.arities
  | .call _ args => Expr.listArities args ++ [args.length]

/-- How many arguments the calls of several expressions have. -/
def Expr.listArities : List Expr → List Nat
  | [] => []
  | e :: es => e.arities ++ Expr.listArities es

end

/-- How many arguments the calls of a statement have, those of a body left out. -/
def Stmt.arities : Stmt → List Nat
  | .call _ args => Expr.listArities args ++ [args.length]
  | .assign _ e | .declare _ e | .cond e _ | .loop e _ => e.arities
  | .leave | .suspend => []

/-- How many arguments the calls of an element have. -/
def Piece.arities : Piece → List Nat
  | .single _ => []
  | .call name args => (Expr.call name args).arities

/-- An operand has the calls of its element. -/
theorem Piece.arities_of_operand {piece : Piece} {e : Expr} (h : piece.operand = .ok e) :
    e.arities = piece.arities := by
  cases piece with
  | call name args =>
    cases h
    rfl
  | single token =>
    cases token with
    | number text =>
      obtain ⟨x, -, -, rfl⟩ := numberLiteral_eq_ok h
      rfl
    | trueWord | falseWord | identifier name =>
      cases h
      rfl
    | ifWord | whileWord | varWord | breakWord | yieldWord | plus | minus | star | slash | less
    | greater | assign | openParen | closeParen | openBrace | closeBrace | comma | finish => cases h

/-- An operator is no call. -/
theorem Piece.arities_of_op? {piece : Piece} {op : BinaryOp} (h : piece.op? = some op) :
    piece.arities = [] := by
  cases piece with
  | single token => rfl
  | call name args => cases h

/-- Climbing keeps the calls in order. -/
theorem Piece.arities_of_climb {pieces : List Piece} {e : Expr} (h : climb pieces = .ok e) :
    e.arities = pieces.flatMap arities := by
  induction hlength : pieces.length using Nat.strongRecOn generalizing pieces e with
  | ind n ih =>
    unfold climb at h
    split at h
    · cases h
    · next piece => simp [arities_of_operand h]
    · split at h
      · cases h
      · next left op right hsplit =>
        have hshorter := length_splitHeaviest hsplit
        obtain ⟨pivot, hpivot, rfl, -, -⟩ := eq_of_splitHeaviest hsplit
        obtain ⟨l, hl, h⟩ := bind_eq_ok.mp h
        obtain ⟨r, hr, h⟩ := bind_eq_ok.mp h
        cases h
        rw [Expr.arities, ih _ (by omega) hl rfl, ih _ (by omega) hr rfl, List.flatMap_append,
          List.flatMap_cons, arities_of_op? hpivot, List.nil_append]

namespace Scan

open Recorded

/-! ### Exact events -/

/-- What an event among others says about the parentheses and commas of its run. -/
def Event.Exact (events : List Event) : Event → Prop
  | .expression _ => True
  | .arguments run =>
    (∀ front, front <+: run → front.count .closeParen ≤ front.count .openParen) ∧
      run.count .closeParen = run.count .openParen
  -- The depth is that of nesting, and one can be taken from it.
  | .close run index depth =>
    0 < depth ∧ depth + (run.take index).count .closeParen = (run.take index).count .openParen
  -- The segments are those of the parser. All of them were read, and no parenthesis was missed.
  | .split run segments =>
    segments = Token.argumentRuns run ∧ [Token.comma].intercalate segments = run ∧
      (∀ index, Token.Separates segments index ↔ run[index]? = some .comma ∧
        (run.take index).count .closeParen = (run.take index).count .openParen) ∧
      (∀ segment ∈ segments, .expression segment ∈ events) ∧
      ∀ index, run[index]? = some .closeParen → ∃ depth, .close run index depth ∈ events
  -- The tokens from the next index on are those with which the parser goes on.
  | .skip run index next =>
    next ≤ run.length ∧ (∃ name, run[index]? = some (.identifier name)) ∧
      (∃ closing, Token.Closes run (index + 1) closing ∧ next = closing + 1) ∧
      ∃ inner, Stmt.enclosed (run.drop (index + 2)) = .ok (inner, run.drop next)

/-- All of several events are exact. -/
def Exact (events : List Event) : Prop :=
  ∀ event ∈ events, event.Exact events

/-- More events leave an exact one exact. -/
theorem Event.Exact.mono {event : Event} {events more : List Event} (h : event.Exact events)
    (hsub : events ⊆ more) : event.Exact more := by
  cases event with
  | split run segments =>
    obtain ⟨hsame, hjoined, hcut, hread, hmet⟩ := h
    refine ⟨hsame, hjoined, hcut, fun segment hsegment => hsub (hread segment hsegment), ?_⟩
    intro index hindex
    obtain ⟨depth, hdepth⟩ := hmet index hindex
    exact ⟨depth, hsub hdepth⟩
  | expression run | arguments run | close run index depth | skip run index next => exact h

namespace Exact

variable {α β : Type} {event : Event} {events more : List Event}

/-- An empty record is exact. -/
theorem nil : Exact [] := by
  simp [Exact]

/-- Exact events stay so when they are put together. -/
theorem append (h : Exact events) (hmore : Exact more) : Exact (events ++ more) := by
  intro event hevent
  rcases List.mem_append.mp hevent with hevent | hevent
  · exact (h event hevent).mono (List.subset_append_left events more)
  · exact (hmore event hevent).mono (List.subset_append_right events more)

/-- An exact event may come first. -/
theorem cons (hevent : event.Exact events) (h : Exact events) : Exact (event :: events) := by
  intro other hother
  rcases List.mem_cons.mp hother with rfl | hother
  · exact hevent.mono (List.subset_cons_self other events)
  · exact (h other hother).mono (List.subset_cons_self event events)

/-- An exact event may come last. -/
theorem snoc (h : Exact events) (hevent : event.Exact events) : Exact (events ++ [event]) := by
  intro other hother
  rcases List.mem_append.mp hother with hother | hother
  · exact (h other hother).mono (List.subset_append_left events [event])
  · obtain rfl := List.mem_singleton.mp hother
    exact hevent.mono (List.subset_append_left events [other])

/-- Readings one after the other are exact if each of them is. -/
theorem bind {x : Recorded α} {f : α → Recorded β} (hx : Exact x.events)
    (hf : ∀ a, x.result = .ok a → Exact (f a).events) : Exact (x >>= f).events := by
  cases h : x.result with
  | error error =>
    rw [bind_error h]
    exact hx
  | ok a =>
    rw [bind_ok h]
    exact hx.append (hf a h)

end Exact

/-! ### What a splitter records -/

/-- What the record of a splitter holds that went through a run from an index on: a reading of
each segment, and the depth at each closing parenthesis. -/
structure Covers (run : List Token) (index : Nat) (found : List (List Token))
    (events : List Event) : Prop where
  read : ∀ segment ∈ found, .expression segment ∈ events
  met : ∀ i, index ≤ i → run[i]? = some .closeParen → ∃ depth, .close run i depth ∈ events

namespace Covers

variable {run segment : List Token} {depth index : Nat} {found : List (List Token)}
  {events more : List Event}

/-- More events leave covered what was covered. -/
theorem mono (h : Covers run index found events) (hsub : events ⊆ more) :
    Covers run index found more := by
  refine ⟨fun segment hsegment => hsub (h.read segment hsegment), fun i hle hi => ?_⟩
  obtain ⟨depth, hdepth⟩ := h.met i hle hi
  exact ⟨depth, hsub hdepth⟩

/-- A token that closes nothing has nothing to record. -/
theorem back (hindex : index < run.length) (hclose : run[index] ≠ .closeParen)
    (h : Covers run (index + 1) found events) : Covers run index found events := by
  refine ⟨h.read, fun i hle hi => h.met i ?_ hi⟩
  by_contra hlt
  obtain rfl : i = index := by omega
  rw [List.getElem?_eq_getElem hindex] at hi
  exact hclose (Option.some.inj hi)

/-- A closing parenthesis is recorded with the depth at which it is met. -/
theorem close (h : Covers run (index + 1) found events) :
    Covers run index found (.close run index depth :: events) := by
  have hmore := h.mono (List.subset_cons_self (.close run index depth) events)
  refine ⟨hmore.read, fun i hle hi => ?_⟩
  rcases Nat.eq_or_lt_of_le hle with rfl | hlt
  · exact ⟨depth, List.mem_cons_self⟩
  · exact hmore.met i hlt hi

/-- A segment that was read joins those found behind it. -/
theorem cons (hsegment : .expression segment ∈ events) (h : Covers run index found more) :
    Covers run index (segment :: found) (events ++ more) := by
  have hmore := h.mono (List.subset_append_right events more)
  refine ⟨fun other hother => ?_, hmore.met⟩
  rcases List.mem_cons.mp hother with rfl | hother
  · exact List.mem_append_left more hsegment
  · exact hmore.read other hother

/-- Behind the end of the run there is no parenthesis. -/
theorem nil (hindex : ¬index < run.length) : Covers run index [] [] := by
  refine ⟨by simp, fun i hle hi => ?_⟩
  rw [List.getElem?_eq_none (by omega)] at hi
  cases hi

end Covers

/-- A reading of an expression is recorded as one. -/
theorem expression_mem_events (run : List Token) :
    .expression run ∈ (expression run).events := by
  rw [expression]
  simp

section

variable {run : List Token} {depth start index : Nat}

/-- A splitter that reaches the end has read all that it found. -/
theorem covers_segments {found : List (List Token)} {args : List Expr}
    (h : (segments run depth start index).result = .ok (found, args)) :
    Covers run index found (segments run depth start index).events := by
  -- Only the splitter calls itself here: that it reads a segment is in the record of any reading.
  induction hleft : run.length - index using Nat.strongRecOn
    generalizing depth start index found args with
  | ind left ih =>
    by_cases hindex : index < run.length
    · by_cases hclose : run[index] = .closeParen
      · rw [segments_close hindex hclose] at h ⊢
        exact (ih _ (by omega) h rfl).close
      · refine .back hindex hclose ?_
        by_cases hcut : run[index] = .comma ∧ depth = 0
        · obtain ⟨hcomma, rfl⟩ := hcut
          rw [segments_comma hindex hcomma] at h ⊢
          obtain ⟨arg, -, h, hfirst⟩ := of_bind_ok h
          obtain ⟨⟨later, others⟩, hothers, h, hrest⟩ := of_bind_ok h
          cases h
          rw [hfirst, hrest, events_pure, List.append_nil]
          exact .cons (expression_mem_events _) (ih _ (by omega) hothers rfl)
        · rw [segments_other hindex hclose (by tauto)] at h ⊢
          exact ih _ (by omega) h rfl
    · rw [segments_end hindex] at h ⊢
      obtain ⟨arg, -, heq, hlast⟩ := of_return_ok h
      cases heq
      rw [hlast, ← List.append_nil (expression (run.drop start)).events]
      exact .cons (expression_mem_events _) (.nil hindex)

/-! ### Every event is exact -/

/-- A call is skipped up to the parenthesis that closes it. -/
theorem exact_skip {name : String} {inner after : List Token} (events : List Event)
    (hindex : index < run.length) (hname : run[index] = .identifier name)
    (hopen : run[index + 1]? = some .openParen)
    (hclose : Stmt.enclosed (run.drop (index + 2)) = .ok (inner, after)) :
    Event.Exact events (.skip run index (index + inner.length + 3)) := by
  have hinner := Token.nested_of_upToClose (Stmt.enclosed_eq_ok.mp hclose)
  have hdrop := Token.eq_of_upToClose (Stmt.enclosed_eq_ok.mp hclose)
  have hlength := length_lt_of_enclosed hclose
  have hcloses : Token.Closes run (index + 1) (index + 2 + inner.length) := by
    refine ⟨hopen, ?_, by omega, ?_⟩
    · rw [← List.getElem?_drop, hdrop]
      simp
    · rw [List.drop_take, hdrop]
      simp [hinner]
  refine ⟨by omega, ⟨name, ?_⟩, ⟨_, hcloses, by omega⟩, inner, ?_⟩
  · rw [List.getElem?_eq_getElem hindex, hname]
  · rw [hclose, drop_skip hclose]

/-- A nested run is split at the commas outside all parentheses. -/
theorem exact_split {events : List Event} (hrun : Token.Nested 0 run)
    (hcovers : Covers run 0 (Token.argumentRuns run) events) :
    Event.Exact events (.split run (Token.argumentRuns run)) := by
  refine ⟨rfl, Token.intercalate_argumentRuns run, fun index => ?_, hcovers.read,
    fun index => ?_⟩
  · simpa [Token.OuterComma] using Token.separates_argumentRuns hrun
  · exact hcovers.met index (Nat.zero_le index)

/-- Splitting a nested run is exact if all events along its segments are. -/
theorem exact_arguments (hrun : Token.Nested 0 run) (h : Exact (segments run 0 0 0).events) :
    Exact (arguments run).events := by
  by_cases hempty : run = []
  · subst hempty
    rw [arguments_nil]
    exact .cons hrun.pairs (.cons (exact_split hrun ⟨by simp [Token.argumentRuns], by simp⟩) .nil)
  · rw [arguments_of_ne_nil hempty, note_bind]
    refine .cons hrun.pairs ?_
    cases hresult : (segments run 0 0 0).result with
    | error error =>
      rw [bind_error hresult]
      exact h
    | ok pair =>
      obtain ⟨found, args⟩ := pair
      obtain ⟨rfl, -⟩ := eq_of_result_segments hempty hresult
      rw [bind_ok hresult]
      exact h.snoc (exact_split hrun (covers_segments hresult))

/-- All events are exact, if the runs that are split are nested and the depth is counted right. -/
theorem exact_events :
    (∀ run, Exact (expression run).events) ∧
      (∀ run index, Exact (pieces run index).events) ∧
      (∀ run, Token.Nested 0 run → Exact (arguments run).events) ∧
      ∀ run depth start index, Token.Nested 0 run →
        depth + (run.take index).count .closeParen = (run.take index).count .openParen →
        Exact (segments run depth start index).events := by
  -- What a parenthesis encloses is nested anywhere, so only the splitter has a hypothesis.
  apply induct
  case expression =>
    intro run ih
    rw [expression, note_bind]
    exact .cons trivial (.bind ih fun _ _ => .nil)
  case unclosed =>
    intro run index hindex name hname hopen error hclose
    rw [pieces_unclosed hindex hname hopen hclose]
    exact .nil
  case call =>
    intro run index hindex name hname hopen inner after hclose ihinner ihafter
    have hinner := Token.nested_of_upToClose (Stmt.enclosed_eq_ok.mp hclose)
    rw [pieces_call hindex hname hopen hclose]
    refine .bind (ihinner hinner) fun args _ => ?_
    exact .cons (exact_skip _ hindex hname hopen hclose) (.bind ihafter fun _ _ => .nil)
  case single =>
    intro run index hindex hsingle ih
    rw [pieces_single hindex hsingle]
    exact .bind ih fun _ _ => .nil
  case stop =>
    intro run index hindex
    rw [pieces_end hindex]
    exact .nil
  case arguments =>
    intro run ih hrun
    exact exact_arguments hrun (ih hrun rfl)
  case close =>
    intro run depth start index hindex hclose ih hrun hcounted
    have hpos := hrun.depth_pos hindex hclose hcounted
    have hstep := Token.depthBehind_add_count_take hindex (fun _ => hpos) hcounted
    rw [hclose] at hstep
    rw [segments_close hindex hclose]
    exact .cons ⟨hpos, hcounted⟩ (ih hrun hstep)
  case comma =>
    intro run start index hindex hcomma ihexpression ih hrun hcounted
    have hstep := Token.depthBehind_add_count_take hindex (by simp [hcomma]) hcounted
    rw [hcomma] at hstep
    rw [segments_comma hindex hcomma]
    exact .bind ihexpression fun _ _ => .bind (ih hrun hstep) fun _ _ => .nil
  case other =>
    intro run depth start index hindex hclose hcomma ih hrun hcounted
    rw [segments_other hindex hclose hcomma]
    exact ih hrun (Token.depthBehind_add_count_take hindex (fun h => (hclose h).elim) hcounted)
  case last =>
    intro run depth start index hindex ih hrun hcounted
    rw [segments_end hindex]
    exact .bind ih fun _ _ => .nil

/-- All events of reading a header are exact. -/
theorem exact_header (keyword : Token) (tokens : List Token) :
    Exact (header keyword tokens).events := by
  unfold header
  split
  · exact .bind .nil fun _ _ => .bind .nil fun _ _ => exact_events.1 _
  · exact .nil

/-- All events of reading a statement that begins with a name are exact. -/
theorem exact_named (name : String) (tokens : List Token) : Exact (named name tokens).events := by
  unfold named
  split
  · refine .bind .nil fun (inner, after) hclose => .bind .nil fun _ _ => ?_
    have hinner := Token.nested_of_upToClose (Stmt.enclosed_eq_ok.mp hclose)
    exact .bind (exact_events.2.2.1 inner hinner) fun _ _ => .nil
  · exact .bind (exact_events.1 _) fun _ _ => .nil
  · exact .nil

/-- All events of reading a statement are exact. -/
theorem exact_statement (tokens : List Token) : Exact (statement tokens).events := by
  unfold statement
  split
  · exact exact_named _ _
  · exact .bind (exact_header _ _) fun _ _ => .nil
  · exact .bind (exact_header _ _) fun _ _ => .nil
  · exact .bind (exact_events.1 _) fun _ _ => .nil
  · exact .nil

/-! ### Every call is split -/

/-- Into how many segments a run was split. -/
def Event.arity? : Event → Option Nat
  | .split _ segments => some segments.length
  | _ => none

/-- Reading that succeeds has split once for each call, in order. -/
theorem arities_events :
    (∀ run e, (expression run).result = .ok e →
      (expression run).events.filterMap Event.arity? = e.arities) ∧
      (∀ run index found, (pieces run index).result = .ok found →
        (pieces run index).events.filterMap Event.arity? = found.flatMap Piece.arities) ∧
      (∀ run args, (arguments run).result = .ok args →
        (arguments run).events.filterMap Event.arity? = Expr.listArities args ++ [args.length]) ∧
      ∀ run depth start index found args,
        (segments run depth start index).result = .ok (found, args) →
        (segments run depth start index).events.filterMap Event.arity? =
          Expr.listArities args := by
  apply induct
  case expression =>
    intro run ih e h
    rw [expression] at h ⊢
    obtain ⟨⟨⟩, -, h, hnote⟩ := of_bind_ok h
    obtain ⟨found, hfound, hclimb, hpieces⟩ := of_bind_ok h
    rw [hnote, hpieces, List.filterMap_append, List.filterMap_append, ih found hfound,
      Piece.arities_of_climb hclimb]
    exact List.append_nil _
  case unclosed =>
    intro run index hindex name hname hopen error hclose found h
    rw [pieces_unclosed hindex hname hopen hclose] at h
    cases h
  case call =>
    intro run index hindex name hname hopen inner after hclose ihinner ihafter found h
    rw [pieces_call hindex hname hopen hclose] at h ⊢
    obtain ⟨args, hargs, h, hcall⟩ := of_bind_ok h
    obtain ⟨⟨⟩, -, h, hskip⟩ := of_bind_ok h
    obtain ⟨others, hothers, rfl, hrest⟩ := of_return_ok h
    rw [hcall, hskip, hrest, List.filterMap_append, List.filterMap_append, ihinner args hargs,
      ihafter others hothers]
    rfl
  case single =>
    intro run index hindex hsingle ih found h
    rw [pieces_single hindex hsingle] at h ⊢
    obtain ⟨others, hothers, rfl, hrest⟩ := of_return_ok h
    rw [hrest, ih others hothers]
    rfl
  case stop =>
    intro run index hindex found h
    rw [pieces_end hindex] at h ⊢
    cases h
    rfl
  case arguments =>
    intro run ih args h
    by_cases hempty : run = []
    · subst hempty
      rw [arguments_nil] at h ⊢
      cases h
      rfl
    · rw [arguments_of_ne_nil hempty] at h ⊢
      obtain ⟨⟨⟩, -, h, hnote⟩ := of_bind_ok h
      obtain ⟨⟨found, others⟩, hfound, h, hsegments⟩ := of_bind_ok h
      obtain ⟨⟨⟩, -, h, hsplit⟩ := of_bind_ok h
      cases h
      have hlength := (eq_of_result_segments hempty hfound).2
      rw [hnote, hsegments, hsplit, events_pure, List.append_nil, List.filterMap_append,
        List.filterMap_append, ih found _ hfound, ← hlength]
      rfl
  case close =>
    intro run depth start index hindex hclose ih found args h
    rw [segments_close hindex hclose] at h ⊢
    exact ih found args h
  case comma =>
    intro run start index hindex hcomma ihexpression ih found args h
    rw [segments_comma hindex hcomma] at h ⊢
    obtain ⟨arg, harg, h, hfirst⟩ := of_bind_ok h
    obtain ⟨⟨later, others⟩, hothers, h, hrest⟩ := of_bind_ok h
    cases h
    rw [hfirst, hrest, events_pure, List.append_nil, List.filterMap_append, ihexpression arg harg,
      ih later others hothers, Expr.listArities]
  case other =>
    intro run depth start index hindex hclose hcomma ih found args h
    rw [segments_other hindex hclose hcomma] at h ⊢
    exact ih found args h
  case last =>
    intro run depth start index hindex ih found args h
    rw [segments_end hindex] at h ⊢
    obtain ⟨arg, harg, heq, hlast⟩ := of_return_ok h
    cases heq
    rw [hlast, ih arg harg, Expr.listArities, Expr.listArities, List.append_nil]

/-- A header splits once for each call of its condition. -/
theorem arities_header {keyword : Token} {tokens : List Token} {e : Expr}
    (h : (header keyword tokens).result = .ok e) :
    (header keyword tokens).events.filterMap Event.arity? = e.arities := by
  unfold header at h ⊢
  split at h
  · obtain ⟨⟨inner, after⟩, -, h, hclose⟩ := of_bind_ok h
    obtain ⟨⟨⟩, -, h, hend⟩ := of_bind_ok h
    rw [hclose, hend]
    exact arities_events.1 inner e h
  · cases h

/-- A statement that begins with a name splits once for each of its calls. -/
theorem arities_named {name : String} {tokens : List Token} {s : Stmt}
    (h : (named name tokens).result = .ok s) :
    (named name tokens).events.filterMap Event.arity? = s.arities := by
  unfold named at h ⊢
  split at h
  · obtain ⟨⟨inner, after⟩, -, h, hclose⟩ := of_bind_ok h
    obtain ⟨⟨⟩, -, h, hend⟩ := of_bind_ok h
    obtain ⟨args, hargs, rfl, hcall⟩ := of_return_ok h
    rw [hclose, hend, hcall]
    exact arities_events.2.2.1 inner args hargs
  · obtain ⟨value, hvalue, rfl, hassign⟩ := of_return_ok h
    rw [hassign]
    exact arities_events.1 _ value hvalue
  · cases h

/-- A line that is accepted splits once for each call of its statement, in order, and into as many
segments as the call has arguments. -/
theorem arities_statement {tokens : List Token} {s : Stmt}
    (h : (statement tokens).result = .ok s) :
    (statement tokens).events.filterMap Event.arity? = s.arities := by
  unfold statement at h ⊢
  split at h
  · exact arities_named h
  · obtain ⟨condition, hcondition, rfl, hevents⟩ := of_return_ok h
    rw [hevents]
    exact arities_header hcondition
  · obtain ⟨condition, hcondition, rfl, hevents⟩ := of_return_ok h
    rw [hevents]
    exact arities_header hcondition
  · obtain ⟨initializer, hinitializer, rfl, hevents⟩ := of_return_ok h
    rw [hevents]
    exact arities_events.1 _ initializer hinitializer
  · next hnamed hif hwhile hvar =>
    cases Stmt.ofTokens_eq_ok_iff.mp h with
    | call | assign => exact (hnamed _ _ rfl).elim
    | declare => exact (hvar _ _ rfl).elim
    | cond => exact (hif _ rfl).elim
    | loop => exact (hwhile _ rfl).elim
    | leave | suspend => rfl

/-- Argument splitting is exact whenever a line is read. The record is that of the parser's own
result; every run that is split has its parentheses in pairs, so that the depth counted is above
zero wherever one closes; the segments, joined with commas, are the run, cut at exactly the commas
outside all parentheses; every call is skipped to right behind the parenthesis that closes it. A
line that is accepted has split once for each call of its statement. -/
theorem statement_splits_exactly (tokens : List Token) :
    (statement tokens).result = Stmt.ofTokens tokens ∧ Exact (statement tokens).events ∧
      ∀ s, Stmt.ofTokens tokens = .ok s →
        (statement tokens).events.filterMap Event.arity? = s.arities := by
  have hresult := result_statement tokens
  exact ⟨hresult, exact_statement tokens, fun s hs => arities_statement (hresult.trans hs)⟩

/-- The comma of an inner call separates no arguments of the outer one. -/
theorem statement_splits_exactly_nested :
    let ts := [.identifier "f", .openParen, .identifier "g", .openParen, .trueWord, .comma,
      .falseWord, .closeParen, .comma, .identifier "x", .closeParen]
    let s := Stmt.call "f" [.call "g" [.bool true, .bool false], .variable "x"]
    Stmt.ofTokens ts = .ok s ∧ (statement ts).result = .ok s ∧
      (statement ts).events.filterMap Event.arity? = [2, 2] := by
  intro ts s
  have hparsed : Stmt.ofTokens ts = .ok s := by cbv
  obtain ⟨hresult, -, harities⟩ := statement_splits_exactly ts
  exact ⟨hparsed, hresult.trans hparsed, harities s hparsed⟩

end

end Scan

end FrameScript
