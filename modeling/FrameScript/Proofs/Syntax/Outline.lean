import FrameScript.Proofs.Syntax.Blocks
import FrameScript.Proofs.Syntax.Lines
import FrameScript.Proofs.Syntax.Spacing

/-!
# The outline of a loaded text

A text is loaded exactly if its lines are well nested, and then the program has their statements in
order, each at its depth. Otherwise the error names the first wrong line, and with it the shortest
beginning of the text that is not loaded.
-/

namespace FrameScript

/-! ### Loading -/

namespace Program

/-- The kinds of the lines of a text. -/
def lineKinds (source : String) : List LineKind :=
  (Text.lines source).map LineKind.ofLine

/-- The first lines of a text are of the kinds that they have in the whole text. -/
theorem lineKinds_firstLines (n : Nat) (source : String) :
    lineKinds (Text.firstLines n source) = (lineKinds source).take n := by
  rw [lineKinds, Text.lines_firstLines, List.map_take, lineKinds]

/-- What holds once all lines are read. -/
theorem holds_of_read {source : String} {u : Unfinished} (h : Program.read source = .ok u) :
    u.Holds (lineKinds source) := by
  simpa [lineKinds] using Unfinished.Holds.start.takeLines h

/-- Loading fails only while lines are read. -/
theorem load_eq_error {source : String} {error : ScriptError} :
    Program.load source = .error error ↔ Program.read source = .error error := by
  unfold load
  cases Program.read source <;> simp [Except.map]

/-- A text is loaded exactly if no line of it is wrong. -/
theorem exists_load_iff {source : String} :
    (∃ p, Program.load source = .ok p) ↔ ∀ i kind error, (lineKinds source)[i]? = some kind →
      ¬LineKind.Wrong ((lineKinds source).take i) kind error := by
  constructor
  · rintro ⟨p, hp⟩ i kind error hi
    obtain ⟨u, hu, -⟩ := map_eq_ok.mp hp
    rw [lineKinds, List.getElem?_map, Option.map_eq_some_iff] at hi
    obtain ⟨line, hline, rfl⟩ := hi
    simpa [lineKinds] using Unfinished.Holds.start.not_wrong hu hline error
  · intro hright
    cases hload : Program.load source with
    | ok p => exact ⟨p, rfl⟩
    | error error =>
      obtain ⟨i, line, inner, hline, -, hwrong, -⟩ :=
        Unfinished.Holds.start.takeLines_eq_error (load_eq_error.mp hload)
      refine absurd hwrong ?_
      rw [List.nil_append, List.map_take]
      exact hright i _ inner (by rw [lineKinds, List.getElem?_map, hline]; rfl)

/-- An error names the first wrong line, and what is wrong with it. -/
theorem exists_of_load_eq_error {source : String} {error : ScriptError}
    (h : Program.load source = .error error) :
    ∃ i kind inner, error = .line (i + 1) inner ∧ (lineKinds source)[i]? = some kind ∧
      LineKind.Wrong ((lineKinds source).take i) kind inner ∧
      ∀ j < i, ∀ other reason, (lineKinds source)[j]? = some other →
        ¬LineKind.Wrong ((lineKinds source).take j) other reason := by
  obtain ⟨i, line, inner, hline, rfl, hwrong, v, hv⟩ :=
    Unfinished.Holds.start.takeLines_eq_error (load_eq_error.mp h)
  have hbefore : ∃ p, Program.load (Text.firstLines i source) = .ok p :=
    ⟨v.finish, map_eq_ok.mpr ⟨v, by rw [Program.read, Text.lines_firstLines, hv], rfl⟩⟩
  rw [exists_load_iff, lineKinds_firstLines] at hbefore
  refine ⟨i, LineKind.ofLine line, inner, by rw [Nat.add_comm], ?_, ?_, ?_⟩
  · rw [lineKinds, List.getElem?_map, hline]
    rfl
  · rwa [List.nil_append, List.map_take] at hwrong
  · intro j hj other reason hother
    have hnone := hbefore j other reason
    rw [List.getElem?_take_of_lt hj, List.take_take, Nat.min_eq_left (Nat.le_of_lt hj)] at hnone
    exact hnone hother

/-- The beginnings of a text that are not loaded are those with its first wrong line. -/
theorem exists_load_firstLines_iff {source : String} {i : Nat} {kind : LineKind}
    {inner : ScriptError} (hi : (lineKinds source)[i]? = some kind)
    (hwrong : LineKind.Wrong ((lineKinds source).take i) kind inner)
    (hfirst : ∀ j < i, ∀ other reason, (lineKinds source)[j]? = some other →
      ¬LineKind.Wrong ((lineKinds source).take j) other reason) (n : Nat) :
    (∃ p, Program.load (Text.firstLines n source) = .ok p) ↔ n ≤ i := by
  rw [exists_load_iff, lineKinds_firstLines]
  constructor
  · intro hright
    by_contra hlt
    have hnone := hright i kind inner
    rw [List.getElem?_take_of_lt (by omega), List.take_take, Nat.min_eq_left (by omega)] at hnone
    exact hnone hi hwrong
  · intro hle j other reason hother
    have hj : j < n := by
      by_contra hge
      rw [List.getElem?_take_eq_none (by omega)] at hother
      cases hother
    rw [List.getElem?_take_of_lt hj] at hother
    rw [List.take_take, Nat.min_eq_left (Nat.le_of_lt hj)]
    exact hfirst j (by omega) other reason hother

/-- A text is loaded exactly if its lines are well nested. Then the program has the statements of
the lines in order, each nested as deep as headers exceed closing braces before it. Otherwise the
error names the first wrong line with its own error, and the beginnings of the text that are not
loaded are those that reach this line. -/
theorem load_outline (source : String) :
    ((∃ p, Program.load source = .ok p) ↔ LineKind.WellNested (lineKinds source)) ∧
    (∀ p, Program.load source = .ok p →
      Stmt.bodyPreorder 0 p.statements = LineKind.entries [] (lineKinds source)) ∧
    ∀ error, Program.load source = .error error →
      ∃ i kind inner, error = .line (i + 1) inner ∧ (lineKinds source)[i]? = some kind ∧
        LineKind.Wrong ((lineKinds source).take i) kind inner ∧
        (∀ j < i, ∀ other reason, (lineKinds source)[j]? = some other →
          ¬LineKind.Wrong ((lineKinds source).take j) other reason) ∧
        ∀ n, (∃ reason, Program.load (Text.firstLines n source) = .error reason) ↔ i + 1 ≤ n := by
  refine ⟨exists_load_iff.trans LineKind.wellNested_iff.symm, fun p hp => ?_, fun error h => ?_⟩
  · obtain ⟨u, hu, rfl⟩ := map_eq_ok.mp hp
    exact (holds_of_read hu).finish
  · obtain ⟨i, kind, inner, heq, hi, hwrong, hfirst⟩ := exists_of_load_eq_error h
    refine ⟨i, kind, inner, heq, hi, hwrong, hfirst, fun n => ?_⟩
    have hloads := exists_load_firstLines_iff hi hwrong hfirst n
    rw [Nat.succ_le_iff, ← Nat.not_le, ← hloads]
    cases Program.load (Text.firstLines n source) <;> simp

/-- A block, and a closing brace too many. -/
theorem load_strayClose :
    let source := "if (true)\nyield\n\x7d\n\x7d"
    Program.load source = .error (.line 4 (.malformed .noOpenBlock)) ∧
      ∃ p, Program.load (Text.firstLines 3 source) = .ok p ∧
        Stmt.bodyPreorder 0 p.statements = [(0, .cond (.bool true) []), (1, .suspend)] := by
  intro source
  have hkinds : lineKinds source =
      [.header (.cond (.bool true) []), .plain .suspend, .close, .close] := by cbv
  obtain ⟨hiff, -, herror⟩ := load_outline source
  have hbad : ¬LineKind.WellNested (lineKinds source) := fun hnested =>
    absurd (hnested.closes_le 4) (by rw [hkinds]; decide)
  cases hload : Program.load source with
  | ok p => exact absurd (hiff.mp ⟨p, hload⟩) hbad
  | error error =>
    obtain ⟨i, kind, inner, rfl, hi, hwrong, -, hbeginnings⟩ := herror error hload
    obtain ⟨rfl, rfl⟩ : i = 3 ∧ inner = .malformed .noOpenBlock := by
      rw [hkinds] at hi hwrong
      rcases i with _ | _ | _ | _ | i
      · cases hi
        cases hwrong
      · cases hi
        cases hwrong
      · cases hi
        cases hwrong with
        | close hnone => exact absurd hnone (by decide)
      · cases hi
        cases hwrong
        exact ⟨rfl, rfl⟩
      · simp at hi
    refine ⟨rfl, ?_⟩
    cases hfirst : Program.load (Text.firstLines 3 source) with
    | error reason => exact absurd ((hbeginnings 3).mp ⟨reason, hfirst⟩) (by decide)
    | ok p =>
      refine ⟨p, rfl, ?_⟩
      rw [(load_outline _).2.1 p hfirst, lineKinds_firstLines, hkinds]
      rfl

end Program

end FrameScript
