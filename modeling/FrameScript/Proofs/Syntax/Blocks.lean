import FrameScript.Program.Loader
import FrameScript.Proofs.Syntax.Acceptance

/-!
# The blocks of a program

A line opens a block, closes one, or adds a statement, and its kind can be told from the line alone.
While lines are read, the open blocks are as many as the headers exceed the closing braces, and the
statements read so far stand in the unfinished program in order, each as deep as it has to be. A
text is a program as long as no line is bad and none closes a block that is not there.
-/

namespace FrameScript

/-! ### Kinds of lines -/

/-- What a line does to the block structure of a program. -/
inductive LineKind where
  /-- Nothing. -/
  | blank
  /-- A closing brace alone. -/
  | close
  /-- The first line of a statement with a body. -/
  | header (s : Stmt)
  /-- A statement without a body. -/
  | plain (s : Stmt)
  /-- No line of a program, and why. -/
  | bad (error : ScriptError)

namespace LineKind

/-- The kind of a line. -/
def ofLine (line : String) : LineKind :=
  match Token.ofText line with
  | .error error => .bad error
  | .ok [] => .blank
  | .ok [.closeBrace] => .close
  | .ok (.closeBrace :: token :: _) => .bad (.malformed (.afterCloseBrace token))
  | .ok ts =>
    match Stmt.ofTokens ts with
    | .error error => .bad error
    | .ok s => if s.hasBody then .header s else .plain s

/-- Whether a line opens a block. -/
def isHeader : LineKind → Bool
  | .header _ => true
  | _ => false

/-- Whether a line closes a block. -/
def isClose : LineKind → Bool
  | .close => true
  | _ => false

/-- The number of headers among lines. -/
def headers (kinds : List LineKind) : Nat :=
  kinds.countP isHeader

/-- The number of closing braces among lines. -/
def closes (kinds : List LineKind) : Nat :=
  kinds.countP isClose

/-- The statement that a line adds behind others, and how deep it is nested. -/
def entry (before : List LineKind) : LineKind → List (Nat × Stmt)
  | .header s | .plain s => [(headers before - closes before, s)]
  | .blank | .close | .bad _ => []

/-- The statements that lines add behind others, in order, each with its depth. -/
def entries (before : List LineKind) : List LineKind → List (Nat × Stmt)
  | [] => []
  | kind :: rest => kind.entry before ++ entries (before ++ [kind]) rest

/-- What is wrong with a line behind others: it is bad, or it closes a block where none is open. -/
inductive Wrong (before : List LineKind) : LineKind → ScriptError → Prop
  | bad (error : ScriptError) : Wrong before (.bad error) error
  | close (h : headers before = closes before) :
    Wrong before .close (.malformed .noOpenBlock)

/-- Lines that are not bad, and never close more blocks than they opened before. -/
structure WellNested (kinds : List LineKind) : Prop where
  good : ∀ error, .bad error ∉ kinds
  closes_le : ∀ n, closes (kinds.take n) ≤ headers (kinds.take n)

/-- A header comes with an empty body, and a plain statement has none. -/
def Fresh : LineKind → Prop
  | .header s => s.hasBody = true ∧ s.withBody [] = s
  | .plain s => s.hasBody = false
  | .blank | .close | .bad _ => True

/-- What a line is parsed as has no statements inside yet. -/
theorem fresh_ofLine (line : String) : (ofLine line).Fresh := by
  unfold ofLine
  split
  · trivial
  · trivial
  · trivial
  · trivial
  · split
    · trivial
    · next s hs =>
      have hspelled := Stmt.ofTokens_eq_ok_iff.mp hs
      split
      · next hbody =>
        refine ⟨hbody, ?_⟩
        cases hspelled <;> rfl
      · next hbody => exact Bool.eq_false_iff.mpr hbody

/-- One more closing brace is counted. -/
theorem closes_append (kinds : List LineKind) (kind : LineKind) :
    closes (kinds ++ [kind]) = closes kinds + if kind.isClose then 1 else 0 := by
  simp [closes, List.countP_append, List.countP_singleton]

/-- One more header is counted. -/
theorem headers_append (kinds : List LineKind) (kind : LineKind) :
    headers (kinds ++ [kind]) = headers kinds + if kind.isHeader then 1 else 0 := by
  simp [headers, List.countP_append, List.countP_singleton]

/-- Lines are well nested exactly if none of them is wrong behind those before it. -/
theorem wellNested_iff {kinds : List LineKind} :
    WellNested kinds ↔
      ∀ i kind error, kinds[i]? = some kind → ¬Wrong (kinds.take i) kind error := by
  constructor
  · rintro ⟨hgood, hcloses⟩ i kind error hi hwrong
    cases hwrong with
    | bad => exact hgood error (List.mem_of_getElem? hi)
    | close hnone =>
      have hle := hcloses (i + 1)
      rw [List.take_add_one, hi, Option.toList_some, closes_append, headers_append, hnone] at hle
      simp [isClose, isHeader] at hle
  · intro hright
    refine ⟨fun error hmem => ?_, fun n => ?_⟩
    · obtain ⟨i, hi⟩ := List.getElem?_of_mem hmem
      exact hright i _ error hi (.bad error)
    · induction n with
      | zero => simp [closes]
      | succ n ih =>
        cases hn : kinds[n]? with
        | none => rwa [List.take_add_one, hn, Option.toList_none, List.append_nil]
        | some kind =>
          rw [List.take_add_one, hn, Option.toList_some, closes_append, headers_append]
          cases kind with
          | close =>
            have hne : headers (kinds.take n) ≠ closes (kinds.take n) :=
              fun hnone => hright n _ _ hn (.close hnone)
            simp only [isClose, isHeader]
            grind
          | blank | header s | plain s | bad error =>
            simp only [isClose, isHeader]
            grind

/-- The entry of one more line comes last. -/
theorem entries_append (before kinds : List LineKind) (kind : LineKind) :
    entries before (kinds ++ [kind]) = entries before kinds ++ kind.entry (before ++ kinds) := by
  induction kinds generalizing before with
  | nil => simp [entries]
  | cons first kinds ih => simp [entries, ih]

end LineKind

/-! ### Statements and their depths -/

namespace Stmt

mutual

/-- A statement without its body, and all statements inside it, in order and each with its depth. -/
def preorder (depth : Nat) : Stmt → List (Nat × Stmt)
  | .cond condition body => (depth, .cond condition []) :: bodyPreorder (depth + 1) body
  | .loop condition body => (depth, .loop condition []) :: bodyPreorder (depth + 1) body
  | .call name args => [(depth, .call name args)]
  | .assign name value => [(depth, .assign name value)]
  | .declare name initializer => [(depth, .declare name initializer)]
  | .leave => [(depth, .leave)]
  | .suspend => [(depth, .suspend)]

/-- Several statements and all statements inside them. -/
def bodyPreorder (depth : Nat) : List Stmt → List (Nat × Stmt)
  | [] => []
  | s :: body => s.preorder depth ++ bodyPreorder depth body

end

/-- The outline of statements behind others comes last. -/
theorem bodyPreorder_append (depth : Nat) (body last : List Stmt) :
    bodyPreorder depth (body ++ last) = bodyPreorder depth body ++ bodyPreorder depth last := by
  induction body with
  | nil => rfl
  | cons s body ih => simp [bodyPreorder, ih]

/-- The outline of one statement is its own. -/
theorem bodyPreorder_singleton (depth : Nat) (s : Stmt) :
    bodyPreorder depth [s] = s.preorder depth := by
  simp [bodyPreorder]

/-- A statement without a body is its own outline. -/
theorem preorder_plain {s : Stmt} (h : s.hasBody = false) (depth : Nat) :
    s.preorder depth = [(depth, s)] := by
  cases s with
  | cond condition body | loop condition body => cases h
  | call name args | assign name value | declare name initializer | leave | suspend => rfl

end Stmt

/-- A block that ends is its header with all statements inside, one deeper. -/
theorem OpenBlock.preorder_endWith {block : OpenBlock} (h : block.header.hasBody = true)
    (last : List Stmt) (depth : Nat) :
    (block.endWith last).preorder depth =
      (depth, block.header.withBody []) :: Stmt.bodyPreorder (depth + 1) (block.body ++ last) := by
  unfold endWith
  cases hheader : block.header with
  | cond condition body | loop condition body => rfl
  | call name args | assign name value | declare name initializer | leave | suspend =>
    rw [hheader] at h
    cases h

namespace Unfinished

/-- The headers of open blocks and the statements inside, from the outermost block on. -/
def blocksOutline : List OpenBlock → List (Nat × Stmt)
  | [] => []
  | block :: outer =>
    blocksOutline outer ++ (outer.length, block.header.withBody []) ::
      Stmt.bodyPreorder (outer.length + 1) block.body

/-- All statements of an unfinished program, in order and each with its depth. -/
def outline (u : Unfinished) : List (Nat × Stmt) :=
  Stmt.bodyPreorder 0 u.statements ++ blocksOutline u.blocks

/-- A statement behind the others comes last in the outline. -/
theorem outline_append (u : Unfinished) (s : Stmt) :
    (u.append s).outline = u.outline ++ s.preorder u.blocks.length := by
  unfold append outline
  split
  · next hblocks =>
    simp [hblocks, blocksOutline, Stmt.bodyPreorder_append, Stmt.bodyPreorder_singleton]
  · next block outer hblocks =>
    simp [hblocks, blocksOutline, Stmt.bodyPreorder_append, Stmt.bodyPreorder_singleton]

/-- Adding a statement leaves as many blocks open. -/
@[simp] theorem length_blocks_append (u : Unfinished) (s : Stmt) :
    (u.append s).blocks.length = u.blocks.length := by
  unfold append
  split <;> simp_all

/-- Ending all blocks puts their statements where they belong. -/
theorem bodyPreorder_closeAll {blocks : List OpenBlock}
    (h : ∀ block ∈ blocks, block.header.hasBody = true) (last : List Stmt) :
    Stmt.bodyPreorder 0 (closeAll blocks last) =
      blocksOutline blocks ++ Stmt.bodyPreorder blocks.length last := by
  induction blocks generalizing last with
  | nil => rfl
  | cons block outer ih =>
    obtain ⟨hblock, houter⟩ := List.forall_mem_cons.mp h
    rw [closeAll, ih houter, Stmt.bodyPreorder_singleton, block.preorder_endWith hblock,
      Stmt.bodyPreorder_append, blocksOutline, List.append_assoc, List.cons_append]
    rfl

/-! ### Reading lines -/

/-- Reads a line of some kind. -/
def takeKind (u : Unfinished) : LineKind → Except ScriptError Unfinished
  | .blank => .ok u
  | .close =>
    match u.closeBlock? with
    | none => .error (.malformed .noOpenBlock)
    | some closed => .ok closed
  | .header s => .ok (u.openBlock s)
  | .plain s => .ok (u.append s)
  | .bad error => .error error

/-- Only the kind of a line matters. -/
theorem takeLine_eq (u : Unfinished) (line : String) :
    u.takeLine line = u.takeKind (LineKind.ofLine line) := by
  unfold takeLine LineKind.ofLine
  cases Token.ofText line with
  | error error => rfl
  | ok ts =>
    simp only [Bind.bind, Except.bind]
    split
    · rfl
    · rfl
    · rfl
    · next hempty hclose hbrace =>
      symm
      split
      · next heq => cases heq
      · next heq => exact absurd (Except.ok.inj heq) hempty
      · next heq => exact absurd (Except.ok.inj heq) hclose
      · next heq => exact absurd (Except.ok.inj heq) (hbrace _ _)
      · next heq =>
        cases heq
        cases Stmt.ofTokens ts with
        | error error => rfl
        | ok s => cases hbody : s.hasBody <;> simp [hbody, takeKind, pure, Except.pure]

/-- What is known of an unfinished program once lines of certain kinds are read: as many blocks are
open as there were more headers than closing braces, and the statements stand in order. -/
structure Holds (kinds : List LineKind) (u : Unfinished) : Prop where
  depth : u.blocks.length + LineKind.closes kinds = LineKind.headers kinds
  outline_eq : u.outline = LineKind.entries [] kinds
  opened : ∀ block ∈ u.blocks, block.header.hasBody = true

namespace Holds

variable {kinds : List LineKind} {kind : LineKind} {u v : Unfinished} {lines : List String}
  {number : Nat} {error : ScriptError}

/-- Nothing is read at the start. -/
theorem start : Holds [] {} :=
  ⟨rfl, rfl, by simp⟩

/-- The depth at which the next statement stands. -/
theorem depth_eq (h : Holds kinds u) :
    LineKind.headers kinds - LineKind.closes kinds = u.blocks.length := by
  have hdepth := h.depth
  omega

/-- A plain line keeps what is known. -/
theorem append {s : Stmt} (h : Holds kinds u) (hs : s.hasBody = false) :
    Holds (kinds ++ [.plain s]) (u.append s) := by
  refine ⟨?_, ?_, ?_⟩
  · simpa [LineKind.closes_append, LineKind.headers_append, LineKind.isClose, LineKind.isHeader]
      using h.depth
  · rw [outline_append, h.outline_eq, LineKind.entries_append, Stmt.preorder_plain hs,
      List.nil_append, LineKind.entry, h.depth_eq]
  · unfold Unfinished.append
    split
    · exact h.opened
    · next block outer hblocks =>
      have hopened := h.opened
      rw [hblocks] at hopened
      exact List.forall_mem_cons.mpr (List.forall_mem_cons.mp hopened)

/-- A header keeps what is known, with one more open block. -/
theorem openBlock {s : Stmt} (h : Holds kinds u) (hs : s.hasBody = true)
    (hempty : s.withBody [] = s) : Holds (kinds ++ [.header s]) (u.openBlock s) := by
  refine ⟨?_, ?_, List.forall_mem_cons.mpr ⟨hs, h.opened⟩⟩
  · have hdepth := h.depth
    rw [LineKind.closes_append, LineKind.headers_append, ← hdepth]
    simp [Unfinished.openBlock, LineKind.isClose, LineKind.isHeader]
    omega
  · have houtline : (u.openBlock s).outline = u.outline ++ [(u.blocks.length, s)] := by
      simp [outline, Unfinished.openBlock, blocksOutline, hempty, Stmt.bodyPreorder]
    rw [houtline, h.outline_eq, LineKind.entries_append, List.nil_append, LineKind.entry,
      h.depth_eq]

/-- Closing the innermost block moves its statements but not their order or depth. -/
theorem closeBlock {block : OpenBlock} {outer : List OpenBlock} (h : Holds kinds u)
    (hblocks : u.blocks = block :: outer) :
    Holds (kinds ++ [.close]) ({ u with blocks := outer }.append (block.endWith [])) := by
  obtain ⟨hdepth, houtline, hopened⟩ := h
  rw [hblocks] at hdepth hopened
  obtain ⟨hblock, houter⟩ := List.forall_mem_cons.mp hopened
  refine ⟨?_, ?_, ?_⟩
  · rw [LineKind.closes_append, LineKind.headers_append, ← hdepth]
    simp [LineKind.isClose, LineKind.isHeader]
    omega
  · rw [outline_append, block.preorder_endWith hblock, LineKind.entries_append, ← houtline]
    simp [outline, hblocks, blocksOutline, LineKind.entry]
  · unfold Unfinished.append
    split
    · exact houter
    · next next rest hrest =>
      have hrest : outer = next :: rest := hrest
      rw [hrest] at houter
      exact List.forall_mem_cons.mpr (List.forall_mem_cons.mp houter)

/-- A line that is read keeps what is known. -/
theorem takeKind (h : Holds kinds u) (hfresh : kind.Fresh) (hv : u.takeKind kind = .ok v) :
    Holds (kinds ++ [kind]) v := by
  cases kind with
  | blank =>
    cases hv
    refine ⟨?_, ?_, h.opened⟩
    · simpa [LineKind.closes_append, LineKind.headers_append, LineKind.isClose, LineKind.isHeader]
        using h.depth
    · rw [h.outline_eq, LineKind.entries_append, LineKind.entry, List.append_nil]
  | close =>
    unfold Unfinished.takeKind closeBlock? at hv
    cases hblocks : u.blocks with
    | nil =>
      rw [hblocks] at hv
      cases hv
    | cons block outer =>
      rw [hblocks] at hv
      cases hv
      exact h.closeBlock hblocks
  | header s =>
    cases hv
    exact h.openBlock hfresh.1 hfresh.2
  | plain s =>
    cases hv
    exact h.append hfresh
  | bad error => cases hv

/-- A line is refused exactly if something is wrong with it, and with this error. -/
theorem takeKind_eq_error (h : Holds kinds u) :
    u.takeKind kind = .error error ↔ LineKind.Wrong kinds kind error := by
  constructor
  · intro herror
    cases kind with
    | blank | header s | plain s => cases herror
    | close =>
      unfold Unfinished.takeKind closeBlock? at herror
      cases hblocks : u.blocks with
      | nil =>
        rw [hblocks] at herror
        cases herror
        have hdepth := h.depth
        rw [hblocks] at hdepth
        exact .close (by simpa using hdepth.symm)
      | cons block outer =>
        rw [hblocks] at herror
        cases herror
    | bad error =>
      cases herror
      exact .bad error
  · rintro (_ | hnone)
    · rfl
    · have hdepth := h.depth
      have hblocks : u.blocks = [] := List.eq_nil_of_length_eq_zero (by omega)
      rw [Unfinished.takeKind, closeBlock?, hblocks]

/-- Lines that are all read keep what is known. -/
theorem takeLines (h : Holds kinds u) (hv : Unfinished.takeLines number lines u = .ok v) :
    Holds (kinds ++ lines.map LineKind.ofLine) v := by
  induction lines generalizing kinds u number with
  | nil =>
    cases hv
    simpa using h
  | cons line lines ih =>
    rw [Unfinished.takeLines, takeLine_eq] at hv
    split at hv
    · cases hv
    · next w hw =>
      have hall := ih (h.takeKind (LineKind.fresh_ofLine line) hw) hv
      simpa using hall

/-- When lines are all read, none of them is wrong. -/
theorem not_wrong (h : Holds kinds u) (hv : Unfinished.takeLines number lines u = .ok v) {i : Nat}
    {line : String} (hline : lines[i]? = some line) (error : ScriptError) :
    ¬LineKind.Wrong (kinds ++ (lines.take i).map LineKind.ofLine) (LineKind.ofLine line) error := by
  induction lines generalizing kinds u number i with
  | nil => simp at hline
  | cons first lines ih =>
    rw [Unfinished.takeLines, takeLine_eq] at hv
    split at hv
    · cases hv
    · next w hw =>
      cases i with
      | zero =>
        cases hline
        rw [List.take_zero, List.map_nil, List.append_nil, ← h.takeKind_eq_error, hw]
        nofun
      | succ i =>
        have hrest := ih (h.takeKind (LineKind.fresh_ofLine first) hw) hv hline
        simpa using hrest

/-- When lines are not all read, one of them is wrong, all before it are read, and the error names
it. -/
theorem takeLines_eq_error (h : Holds kinds u)
    (herror : Unfinished.takeLines number lines u = .error error) :
    ∃ i line source, lines[i]? = some line ∧ error = .line (number + i) source ∧
      LineKind.Wrong (kinds ++ (lines.take i).map LineKind.ofLine) (LineKind.ofLine line) source ∧
      ∃ v, Unfinished.takeLines number (lines.take i) u = .ok v := by
  induction lines generalizing kinds u number with
  | nil => cases herror
  | cons line lines ih =>
    rw [Unfinished.takeLines, takeLine_eq] at herror
    split at herror
    · next source hsource =>
      cases herror
      refine ⟨0, line, source, rfl, rfl, ?_, u, rfl⟩
      simpa using h.takeKind_eq_error.mp hsource
    · next w hw =>
      obtain ⟨i, wrong, source, hget, rfl, hwrong, v, hv⟩ :=
        ih (h.takeKind (LineKind.fresh_ofLine line) hw) herror
      refine ⟨i + 1, wrong, source, hget, by rw [Nat.add_assoc, Nat.add_comm 1 i], ?_, v, ?_⟩
      · simpa using hwrong
      · rw [List.take_succ_cons, Unfinished.takeLines, takeLine_eq, hw]
        exact hv

/-- The program that is loaded has the outline that its lines describe. -/
theorem finish (h : Holds kinds u) :
    Stmt.bodyPreorder 0 u.finish.statements = LineKind.entries [] kinds := by
  rw [← h.outline_eq, Unfinished.finish, Stmt.bodyPreorder_append, bodyPreorder_closeAll h.opened,
    outline]
  simp [Stmt.bodyPreorder]

end Holds

end Unfinished

end FrameScript
