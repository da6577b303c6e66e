import FrameScript.Program.Loader
import FrameScript.Proofs.Syntax.Acceptance
import FrameScript.Proofs.Syntax.Lines
import FrameScript.Proofs.Syntax.Signs

/-!
# Loaded programs

A line ends a block, opens one or adds a statement. Each of them keeps the program canonical while
it is read, and keeps the minus signs of the lines read so far.
-/

namespace FrameScript

namespace Unfinished

/-! ### One line -/

section

variable {u v : Unfinished} {line : String} {ts : List Token}

/-- The statement of a line opens a block or joins the innermost one. -/
def add (u : Unfinished) (s : Stmt) : Unfinished :=
  if s.hasBody then u.openBlock s else u.append s

/-- What a line that is read can do. -/
theorem takeLine_cases (h : u.takeLine line = .ok v) :
    ∃ ts, Token.ofText line = .ok ts ∧
      (ts = [] ∧ v = u ∨
        ts = [.closeBrace] ∧ (∃ block outer, u.blocks = block :: outer ∧
          v = { u with blocks := outer }.append (block.endWith [])) ∨
        ∃ s : Stmt, s.Spelled ts ∧ v = u.add s) := by
  obtain ⟨ts, hts, h⟩ := bind_eq_ok.mp h
  refine ⟨ts, hts, ?_⟩
  split at h
  · cases h
    exact .inl ⟨rfl, rfl⟩
  · refine .inr (.inl ⟨rfl, ?_⟩)
    unfold closeBlock? at h
    cases hblocks : u.blocks with
    | nil =>
      rw [hblocks] at h
      cases h
    | cons block outer =>
      rw [hblocks] at h
      cases h
      exact ⟨block, outer, rfl, rfl⟩
  · cases h
  · obtain ⟨s, hs, h⟩ := bind_eq_ok.mp h
    cases h
    exact .inr (.inr ⟨s, Stmt.ofTokens_eq_ok_iff.mp hs, rfl⟩)

/-- A line that spells a statement adds it. -/
theorem takeLine_of_spelled {s : Stmt} (hts : Token.ofText line = .ok ts) (hs : s.Spelled ts) :
    u.takeLine line = .ok (u.add s) := by
  have hstatement := Stmt.ofTokens_eq_ok_iff.mpr hs
  unfold takeLine
  rw [hts]
  simp only [Bind.bind, Except.bind]
  split
  · cases hstatement
  · cases hstatement
  · cases hstatement
  · rw [hstatement]
    rfl

/-- A closing brace alone ends the innermost block. -/
theorem takeLine_of_closeBrace {block : OpenBlock} {outer : List OpenBlock}
    (hts : Token.ofText line = .ok [.closeBrace]) (hblocks : u.blocks = block :: outer) :
    u.takeLine line = .ok ({ u with blocks := outer }.append (block.endWith [])) := by
  unfold takeLine closeBlock?
  rw [hts, hblocks]
  rfl

end

/-! ### Reading keeps the program canonical -/

/-- A header with its body so far, all of it canonical. -/
structure SoundBlock (block : OpenBlock) : Prop where
  header : block.header.Canonical
  hasBody : ∃ inner, block.header.body? = some inner
  body : Stmt.BodyCanonical block.body

/-- An unfinished program that ends as a canonical one. -/
structure Sound (u : Unfinished) : Prop where
  statements : Stmt.BodyCanonical u.statements
  blocks : ∀ block ∈ u.blocks, SoundBlock block

/-- Canonical statements stay so behind others. -/
theorem bodyCanonical_append {body last : List Stmt} (hbody : Stmt.BodyCanonical body)
    (hlast : Stmt.BodyCanonical last) : Stmt.BodyCanonical (body ++ last) := by
  rw [Stmt.bodyCanonical_iff] at *
  intro s hs
  exact (List.mem_append.mp hs).elim (hbody s) (hlast s)

/-- A block that ends is a canonical statement. -/
theorem SoundBlock.endWith {block : OpenBlock} {last : List Stmt} (h : SoundBlock block)
    (hlast : Stmt.BodyCanonical last) : (block.endWith last).Canonical :=
  h.header.withBody (bodyCanonical_append h.body hlast)

/-- A canonical statement at the end keeps an unfinished program sound. -/
theorem Sound.append {u : Unfinished} {s : Stmt} (h : u.Sound) (hs : s.Canonical) :
    (u.append s).Sound := by
  have hlast : Stmt.BodyCanonical [s] := ⟨hs, trivial⟩
  unfold Unfinished.append
  split
  · exact ⟨bodyCanonical_append h.statements hlast, h.blocks⟩
  · next block outer hblocks =>
    have hall := h.blocks
    rw [hblocks] at hall
    have hblock := hall block (by simp)
    refine ⟨h.statements, fun other hother => ?_⟩
    rcases List.mem_cons.mp hother with rfl | hother
    · exact ⟨hblock.header, hblock.hasBody, bodyCanonical_append hblock.body hlast⟩
    · exact hall other (List.mem_cons_of_mem _ hother)

/-- A canonical statement from a line keeps an unfinished program sound. -/
theorem Sound.add {u : Unfinished} {s : Stmt} (h : u.Sound) (hs : s.Canonical) :
    (u.add s).Sound := by
  unfold Unfinished.add
  split
  · next hbody =>
    refine ⟨h.statements, fun other hother => ?_⟩
    rcases List.mem_cons.mp hother with rfl | hother
    · exact ⟨hs, Option.isSome_iff_exists.mp hbody, trivial⟩
    · exact h.blocks other hother
  · exact h.append hs

/-- A line that is read keeps an unfinished program sound. -/
theorem Sound.takeLine {u v : Unfinished} {line : String} (h : u.Sound)
    (hline : u.takeLine line = .ok v) : v.Sound := by
  obtain ⟨ts, hts, hcases⟩ := takeLine_cases hline
  rcases hcases with ⟨-, rfl⟩ | ⟨-, block, outer, hblocks, rfl⟩ | ⟨s, hs, rfl⟩
  · exact h
  · have hall := h.blocks
    rw [hblocks] at hall
    have houter : Sound { u with blocks := outer } :=
      ⟨h.statements, fun other hother => hall other (List.mem_cons_of_mem _ hother)⟩
    exact houter.append ((hall block (by simp)).endWith trivial)
  · exact h.add (hs.canonical (Token.readAll_spec hts).1)

/-- Lines that are all read keep an unfinished program sound. -/
theorem Sound.takeLines {lines : List String} {u v : Unfinished} {number : Nat} (h : u.Sound)
    (hlines : takeLines number lines u = .ok v) : v.Sound := by
  induction lines generalizing u number with
  | nil =>
    cases hlines
    exact h
  | cons line lines ih =>
    rw [Unfinished.takeLines] at hlines
    split at hlines
    · cases hlines
    · next w hline => exact ih (h.takeLine hline) hlines

/-- Ending all blocks leaves canonical statements. -/
theorem bodyCanonical_closeAll {blocks : List OpenBlock} {last : List Stmt}
    (hblocks : ∀ block ∈ blocks, SoundBlock block) (hlast : Stmt.BodyCanonical last) :
    Stmt.BodyCanonical (closeAll blocks last) := by
  induction blocks generalizing last with
  | nil => exact hlast
  | cons block outer ih =>
    refine ih (fun other hother => hblocks other (List.mem_cons_of_mem _ hother)) ⟨?_, trivial⟩
    exact (hblocks block (by simp)).endWith hlast

/-- A sound program ends as a canonical one. -/
theorem Sound.finish {u : Unfinished} (h : u.Sound) : u.finish.Canonical :=
  bodyCanonical_append h.statements (bodyCanonical_closeAll h.blocks trivial)

end Unfinished

/-- Every program that is loaded is canonical. -/
theorem Program.canonical_of_load {source : String} {p : Program}
    (h : Program.load source = .ok p) : p.Canonical := by
  obtain ⟨u, hu, rfl⟩ := map_eq_ok.mp h
  have hstart : Unfinished.Sound {} := ⟨trivial, by simp⟩
  exact (hstart.takeLines hu).finish

/-! ### Reading keeps the minus signs -/

/-- How many minus signs the text of several statements has. -/
def Stmt.bodyMinuses (body : List Stmt) : Nat :=
  Text.minuses (Stmt.bodyText 0 body)

/-- The minus signs of statements add up. -/
theorem Stmt.bodyMinuses_append (body last : List Stmt) :
    Stmt.bodyMinuses (body ++ last) = Stmt.bodyMinuses body + Stmt.bodyMinuses last := by
  have hempty : Text.minuses "" = 0 := rfl
  induction body with
  | nil => simp [bodyMinuses, bodyText, hempty]
  | cons s body ih =>
    simp only [bodyMinuses, List.cons_append, bodyText, Text.minuses_append] at ih ⊢
    omega

/-- The text of a statement is that of its head and of its body. -/
theorem Stmt.bodyMinuses_singleton (s : Stmt) :
    Stmt.bodyMinuses [s] = Text.minuses s.headText + Stmt.bodyMinuses (s.body?.getD []) := by
  have hempty : Text.minuses "" = 0 := rfl
  unfold bodyMinuses
  rw [bodyText, bodyText, Text.minuses_append, hempty, Nat.add_zero, Text.minuses_textAt,
    Text.minuses_bodyDepth _ 1 0]

namespace Unfinished

/-- How many minus signs the text of a block has. -/
def blockMinuses (block : OpenBlock) : Nat :=
  Text.minuses block.header.headText + Stmt.bodyMinuses block.body

/-- How many minus signs the text of an unfinished program has. -/
def minuses (u : Unfinished) : Nat :=
  Stmt.bodyMinuses u.statements + (u.blocks.map blockMinuses).sum

/-- A block that ends has the minus signs that it had before, and those of its last statements. -/
theorem SoundBlock.minuses_endWith {block : OpenBlock} (h : SoundBlock block) (last : List Stmt) :
    Stmt.bodyMinuses [block.endWith last] = blockMinuses block + Stmt.bodyMinuses last := by
  obtain ⟨inner, hinner⟩ := h.hasBody
  have hparts : (block.endWith last).headText = block.header.headText ∧
      (block.endWith last).body? = some (block.body ++ last) := by
    unfold OpenBlock.endWith
    cases hheader : block.header with
    | cond condition old | loop condition old => exact ⟨rfl, rfl⟩
    | call name args | assign name value | declare name initializer | leave | suspend =>
      rw [hheader] at hinner
      cases hinner
  rw [Stmt.bodyMinuses_singleton, hparts.1, hparts.2, Option.getD_some, Stmt.bodyMinuses_append,
    blockMinuses, Nat.add_assoc]

/-- A statement at the end adds its minus signs. -/
theorem minuses_append (u : Unfinished) (s : Stmt) :
    (u.append s).minuses = u.minuses + Stmt.bodyMinuses [s] := by
  unfold append minuses
  split
  · next hblocks => simp [hblocks, Stmt.bodyMinuses_append]
  · next block outer hblocks =>
    simp [hblocks, blockMinuses, Stmt.bodyMinuses_append]
    omega

/-- A statement from one line comes with an empty body, if it has one. -/
theorem minuses_add (u : Unfinished) {s : Stmt} {ts : List Token} (hs : s.Spelled ts) :
    (u.add s).minuses = u.minuses + Text.minuses s.headText := by
  have hempty : Stmt.bodyMinuses [] = 0 := rfl
  unfold add
  split
  · next hbody =>
    simp [openBlock, minuses, blockMinuses, hempty]
    omega
  · next hbody =>
    rw [minuses_append, Stmt.bodyMinuses_singleton]
    cases hs with
    | cond | loop => exact absurd rfl hbody
    | call | assign | declare | leave | suspend => simp [Stmt.body?, hempty]

/-- A line that is read adds its minus signs. -/
theorem Sound.minuses_takeLine {u v : Unfinished} {line : String} (h : u.Sound)
    (hline : u.takeLine line = .ok v) : v.minuses = u.minuses + Text.minuses line := by
  obtain ⟨ts, hts, hcases⟩ := takeLine_cases hline
  obtain ⟨hlegible, hcount⟩ := Token.readAll_spec hts
  change Text.minuses line = _ at hcount
  rcases hcases with ⟨rfl, rfl⟩ | ⟨rfl, block, outer, hblocks, rfl⟩ | ⟨s, hs, rfl⟩
  · rw [hcount]
    rfl
  · have hblock := h.blocks block (by simp [hblocks])
    rw [minuses_append, hblock.minuses_endWith, hcount]
    simp only [minuses, hblocks, List.map_cons, List.sum_cons]
    have hempty : Stmt.bodyMinuses [] = 0 := rfl
    have hbrace : [Token.closeBrace].count .minus = 0 := rfl
    omega
  · rw [minuses_add u hs, hs.minuses_eq (hs.canonical hlegible), hcount]

/-- Lines that are all read add all their minus signs. -/
theorem Sound.minuses_takeLines {lines : List String} {u v : Unfinished} {number : Nat}
    (h : u.Sound) (hlines : Unfinished.takeLines number lines u = .ok v) :
    v.minuses = u.minuses + (lines.map Text.minuses).sum := by
  induction lines generalizing u number with
  | nil =>
    cases hlines
    rfl
  | cons line lines ih =>
    rw [Unfinished.takeLines] at hlines
    split at hlines
    · cases hlines
    · next w hline =>
      rw [ih (h.takeLine hline) hlines, h.minuses_takeLine hline, List.map_cons, List.sum_cons,
        Nat.add_assoc]

/-- Ending all blocks loses no minus signs. -/
theorem minuses_closeAll {blocks : List OpenBlock} (hblocks : ∀ block ∈ blocks, SoundBlock block)
    (last : List Stmt) :
    Stmt.bodyMinuses (closeAll blocks last) =
      (blocks.map blockMinuses).sum + Stmt.bodyMinuses last := by
  induction blocks generalizing last with
  | nil => simp [closeAll]
  | cons block outer ih =>
    have houter : ∀ other ∈ outer, SoundBlock other :=
      fun other hother => hblocks other (List.mem_cons_of_mem _ hother)
    rw [closeAll, ih houter, (hblocks block (by simp)).minuses_endWith, List.map_cons,
      List.sum_cons]
    omega

/-- An unfinished program ends with the minus signs that it has. -/
theorem Sound.minuses_finish {u : Unfinished} (h : u.Sound) :
    Stmt.bodyMinuses u.finish.statements = u.minuses := by
  have hempty : Stmt.bodyMinuses [] = 0 := rfl
  rw [Unfinished.finish, Stmt.bodyMinuses_append, minuses_closeAll h.blocks, hempty]
  rfl

end Unfinished

/-- The text of a loaded program has the minus signs of its source. -/
theorem Program.minuses_of_load {source : String} {p : Program}
    (h : Program.load source = .ok p) : Text.minuses p.text = Text.minuses source := by
  obtain ⟨u, hu, rfl⟩ := map_eq_ok.mp h
  have hstart : Unfinished.Sound {} := ⟨trivial, by simp⟩
  have hlines : ((Text.lines source).map Text.minuses).sum = Text.minuses source := by
    rw [Text.lines, List.map_map]
    simpa [Function.comp_def, Text.minuses] using Text.count_splitLines source.toList
  have hempty : Unfinished.minuses {} = 0 := rfl
  have hcount := hstart.minuses_takeLines hu
  rw [hlines, hempty, Nat.zero_add, ← (hstart.takeLines hu).minuses_finish] at hcount
  exact hcount

end FrameScript
