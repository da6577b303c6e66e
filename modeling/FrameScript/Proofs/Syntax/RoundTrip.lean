import FrameScript.Program.Editing
import FrameScript.Proofs.Syntax.Loading

/-!
# Loading what was printed

The text of a program is loaded as an equal program exactly if the program is canonical. All
programs that loading and editing lead to are.
-/

namespace FrameScript

/-! ### Printed lines -/

/-- A line feed behind characters of one line ends this line. -/
theorem Text.splitLines_line {line : List Char} (h : Text.InLine line) (rest : List Char) :
    Text.splitLines (line ++ '\n' :: rest) = line :: Text.splitLines rest := by
  induction line with
  | nil => rfl
  | cons c line ih =>
    obtain ⟨hfeed, hreturn⟩ := h c (by simp)
    have hline := ih fun d hd => h d (List.mem_cons_of_mem _ hd)
    rw [List.cons_append, Text.splitLines]
    · rw [hline]
    · rintro others rfl
      exact absurd rfl hreturn
    · exact hfeed

namespace Unfinished

/-- Reading the lines of characters, whatever the number of the first one is. -/
def Reads (cs : List Char) (u v : Unfinished) : Prop :=
  ∀ number, takeLines number ((Text.splitLines cs).map String.ofList) u = .ok v

/-- The first line is read before those behind it. -/
theorem Reads.line {text rest : List Char} {u v w : Unfinished} (hline : Text.InLine text)
    (htake : u.takeLine (String.ofList text) = .ok v) (hrest : Reads rest v w) :
    Reads (text ++ '\n' :: rest) u w := by
  intro number
  rw [Text.splitLines_line hline, List.map_cons, takeLines, htake]
  exact hrest (number + 1)

/-- Indentation stays in its line. -/
theorem inLine_indent (depth : Nat) : Text.InLine (Stmt.indent depth).toList := by
  intro c hc
  rw [Stmt.indent, String.toList_ofList] at hc
  rw [List.eq_of_mem_replicate hc]
  decide

/-- Indentation does not count. -/
theorem ofText_indent {depth : Nat} {text : String} {ts : List Token}
    (h : Token.Writes text ts) :
    Token.ofText (String.ofList ((Stmt.indent depth).toList ++ text.toList)) = .ok ts := by
  have hnil : Token.Ends [] := by simp [Token.Ends]
  have htext := h.lexes [] [] hnil .nil
  rw [List.append_nil, List.append_nil] at htext
  have hall := htext.blanks (4 * depth) 1
  simpa [Token.ofText, Lexer.start, Stmt.indent] using hall

/-- The first line of a statement adds the statement without its body. -/
theorem Reads.head {depth : Nat} {s : Stmt} {rest : List Char} {u w : Unfinished}
    (hs : s.Canonical) (hrest : Reads rest (u.add (s.withBody [])) w) :
    Reads ((Stmt.indent depth).toList ++ s.headText.toList ++ '\n' :: rest) u w := by
  obtain ⟨ts, hts, hwrites⟩ := s.writes_head hs
  exact .line ((inLine_indent depth).append hwrites.inLine)
    (takeLine_of_spelled (ofText_indent hwrites) hts) hrest

/-- A closing brace ends the block. -/
theorem Reads.close {depth : Nat} {header : Stmt} {body : List Stmt} {rest : List Char}
    {u w : Unfinished}
    (hrest : Reads rest (u.append (header.withBody body)) w) :
    Reads ((Stmt.indent depth).toList ++ '\x7d' :: '\n' :: rest)
      { u with blocks := { header, body } :: u.blocks } w := by
  have hbrace : Token.Writes "\x7d" [.closeBrace] :=
    ⟨fun _ _ _ h => .sign (c := '\x7d') rfl h, by simp [Text.InLine]⟩
  have htake := takeLine_of_closeBrace (u := { u with blocks := { header, body } :: u.blocks })
    (@ofText_indent depth _ _ hbrace) rfl
  have hend : OpenBlock.endWith { header, body } [] = header.withBody body := by
    rw [OpenBlock.endWith, List.append_nil]
  rw [hend] at htake
  have hall := Reads.line ((inLine_indent depth).append hbrace.inLine) htake hrest
  simpa using hall

/-- Statements that join the innermost block one after the other make up its body. -/
theorem foldl_append_openBlock (u : Unfinished) (header : Stmt) (done body : List Stmt) :
    body.foldl append { u with blocks := { header, body := done } :: u.blocks } =
      { u with blocks := { header, body := done ++ body } :: u.blocks } := by
  induction body generalizing done with
  | nil => simp
  | cons s body ih =>
    rw [List.foldl_cons]
    refine (ih (done ++ [s])).trans ?_
    simp

/-- Statements that come one after the other at top level make up the program. -/
theorem foldl_append_start (done body : List Stmt) :
    body.foldl append { statements := done } = { statements := done ++ body } := by
  induction body generalizing done with
  | nil => simp
  | cons s body ih =>
    rw [List.foldl_cons]
    refine (ih (done ++ [s])).trans ?_
    simp

/-- The line of a statement without a body. -/
theorem Reads.plain {depth : Nat} {s : Stmt} {rest : List Char} {u w : Unfinished}
    (hbody : s.body? = none) (hs : s.Canonical) (hrest : Reads rest (u.append s) w) :
    Reads ((s.textAt depth).toList ++ rest) u w := by
  have hadd : u.add (s.withBody []) = u.append s := by
    cases s with
    | cond condition body | loop condition body => cases hbody
    | call name args | assign name value | declare name initializer | leave | suspend => rfl
  rw [← hadd] at hrest
  have hall := @Reads.head depth _ _ _ _ hs hrest
  rw [Stmt.textAt_eq, Stmt.tailText, hbody]
  simpa using hall

/-- The lines of a block, if those of its body are read. -/
theorem Reads.block {depth : Nat} {s : Stmt} {body : List Stmt} {rest : List Char}
    {u w : Unfinished} (hbody : s.body? = some body) (hs : s.Canonical)
    (hinner : ∀ {behind : List Char} {v : Unfinished}, Reads behind (body.foldl append v) w →
      Reads ((Stmt.bodyText (depth + 1) body).toList ++ behind) v w)
    (hrest : Reads rest (u.append s) w) : Reads ((s.textAt depth).toList ++ rest) u w := by
  have hheader : (s.withBody []).withBody body = s ∧
      u.add (s.withBody []) = u.openBlock (s.withBody []) := by
    cases s with
    | cond condition body | loop condition body =>
      cases hbody
      exact ⟨rfl, rfl⟩
    | call name args | assign name value | declare name initializer | leave | suspend => cases hbody
  rw [← hheader.1] at hrest
  have hclose := @Reads.close depth _ _ _ _ _ hrest
  have hfilled := foldl_append_openBlock u (s.withBody []) [] body
  rw [List.nil_append] at hfilled
  rw [← hfilled] at hclose
  have hopened := hinner hclose
  change Reads _ (u.openBlock (s.withBody [])) w at hopened
  rw [← hheader.2] at hopened
  have hall := @Reads.head depth _ _ _ _ hs hopened
  rw [Stmt.textAt_eq, Stmt.tailText, hbody]
  simpa using hall

mutual

/-- The lines of a canonical statement add the statement. -/
theorem reads_statement : ∀ (s : Stmt) (depth : Nat) {rest : List Char} {u w : Unfinished},
    s.Canonical → Reads rest (u.append s) w → Reads ((s.textAt depth).toList ++ rest) u w
  | .cond _ body, depth, _, _, _, h, hrest =>
    .block rfl h (reads_body body (depth + 1) h.2) hrest
  | .loop _ body, depth, _, _, _, h, hrest =>
    .block rfl h (reads_body body (depth + 1) h.2) hrest
  | .call _ _, _, _, _, _, h, hrest => .plain rfl h hrest
  | .assign _ _, _, _, _, _, h, hrest => .plain rfl h hrest
  | .declare _ _, _, _, _, _, h, hrest => .plain rfl h hrest
  | .leave, _, _, _, _, h, hrest => .plain rfl h hrest
  | .suspend, _, _, _, _, h, hrest => .plain rfl h hrest

/-- The lines of canonical statements add the statements. -/
theorem reads_body : ∀ (body : List Stmt) (depth : Nat) {rest : List Char} {u w : Unfinished},
    Stmt.BodyCanonical body → Reads rest (body.foldl append u) w →
      Reads ((Stmt.bodyText depth body).toList ++ rest) u w
  | [], _, _, _, _, _, hrest => hrest
  | s :: body, depth, rest, u, w, ⟨hs, hbody⟩, hrest => by
    have hbehind := reads_body body depth hbody hrest
    rw [Stmt.bodyText, String.toList_append, List.append_assoc]
    exact reads_statement s depth hs hbehind

end

end Unfinished

/-! ### Programs -/

/-- The text of a canonical program is loaded as the program itself. -/
theorem Program.load_text {p : Program} (h : p.Canonical) : Program.load p.text = .ok p := by
  have hend : Unfinished.Reads [] { statements := p.statements } { statements := p.statements } :=
    fun _ => rfl
  have hstart := Unfinished.foldl_append_start [] p.statements
  rw [List.nil_append] at hstart
  have hlines := Unfinished.reads_body p.statements 0 (u := {}) h (by rw [hstart]; exact hend) 1
  rw [List.append_nil] at hlines
  have hread : Program.read p.text = .ok { statements := p.statements } := hlines
  rw [Program.load, hread]
  simp [Except.map, Unfinished.finish, Unfinished.closeAll]

/-- A program whose text is loaded as an equal program is canonical: what was loaded is, and its
text has no fewer minus signs. -/
theorem Program.canonical_of_load_text {p q : Program} (h : Program.load p.text = .ok q)
    (hsame : q.same p = true) : p.Canonical := by
  have hcount := Program.minuses_of_load h
  have hrecovers := Stmt.bodyRecovers_of_same q.statements p.statements 0
    (Program.canonical_of_load h) hsame
  exact hrecovers.of_le (Nat.le_of_eq hcount.symm)

/-! ### Edited programs -/

/-- The programs that loading leads to, and then inserting statements of single lines and removing
statements at any places. -/
inductive Program.Edited : Program → Prop
  | load {source : String} {p : Program} (h : Program.load source = .ok p) : Program.Edited p
  | insert {line : String} {s : Stmt} {p q : Program} {path : List Nat} {index : Nat}
    (hp : Program.Edited p) (hs : Stmt.ofLine line = .ok s)
    (h : p.insertAt? path index s = some q) : Program.Edited q
  | remove {s : Stmt} {p q : Program} {path : List Nat} {index : Nat} (hp : Program.Edited p)
    (h : p.removeAt? path index = some (s, q)) : Program.Edited q

/-- A statement that a line holds is canonical. -/
theorem Stmt.canonical_of_ofLine {line : String} {s : Stmt} (h : Stmt.ofLine line = .ok s) :
    s.Canonical := by
  obtain ⟨ts, hts, h⟩ := bind_eq_ok.mp h
  exact (Stmt.ofTokens_eq_ok_iff.mp h).canonical (Token.readAll_spec hts).1

/-- The bodies of canonical statements are canonical at every path. -/
theorem Stmt.bodyCanonical_bodyAt? {path : List Nat} {body inner : List Stmt}
    (h : Stmt.BodyCanonical body) (hinner : Stmt.bodyAt? path body = some inner) :
    Stmt.BodyCanonical inner := by
  induction path generalizing body with
  | nil =>
    cases hinner
    exact h
  | cons index path ih =>
    simp only [bodyAt?, Option.bind_eq_bind, Option.bind_eq_some_iff] at hinner
    obtain ⟨s, hs, below, hbelow, hinner⟩ := hinner
    have hstatement := Stmt.bodyCanonical_iff.mp h s (List.mem_of_getElem? hs)
    exact ih (hstatement.body hbelow) hinner

/-- Replacing a body by a canonical one keeps the statements around it canonical. -/
theorem Stmt.bodyCanonical_replaceAt? {path : List Nat} {replacement body edited : List Stmt}
    (hreplacement : Stmt.BodyCanonical replacement) (h : Stmt.BodyCanonical body)
    (hedited : Stmt.replaceAt? replacement path body = some edited) :
    Stmt.BodyCanonical edited := by
  induction path generalizing body edited with
  | nil =>
    cases hedited
    exact hreplacement
  | cons index path ih =>
    simp only [replaceAt?, Option.bind_eq_bind, Option.bind_eq_some_iff] at hedited
    obtain ⟨s, hs, below, hbelow, inner, hinner, heq⟩ := hedited
    cases heq
    have hstatement := Stmt.bodyCanonical_iff.mp h s (List.mem_of_getElem? hs)
    rw [Stmt.bodyCanonical_iff]
    intro other hother
    rcases List.mem_or_eq_of_mem_set hother with hother | rfl
    · exact Stmt.bodyCanonical_iff.mp h other hother
    · exact hstatement.withBody (ih (hstatement.body hbelow) hinner)

/-- Inserting a canonical statement leaves a canonical program canonical. -/
theorem Program.Canonical.insertAt? {p q : Program} {path : List Nat} {index : Nat} {s : Stmt}
    (h : p.Canonical) (hs : s.Canonical) (hq : p.insertAt? path index s = some q) :
    q.Canonical := by
  simp only [Program.insertAt?, Option.bind_eq_bind, Option.bind_eq_some_iff] at hq
  obtain ⟨body, hbody, hq⟩ := hq
  split at hq
  · simp only [Option.bind_eq_some_iff] at hq
    obtain ⟨edited, hedited, heq⟩ := hq
    cases heq
    refine Stmt.bodyCanonical_replaceAt? ?_ h hedited
    have hall := Stmt.bodyCanonical_iff.mp (Stmt.bodyCanonical_bodyAt? h hbody)
    rw [Stmt.bodyCanonical_iff]
    intro other hother
    rcases List.mem_append.mp hother with hother | hother
    · exact hall other (List.mem_of_mem_take hother)
    · rcases List.mem_cons.mp hother with rfl | hother
      · exact hs
      · exact hall other (List.mem_of_mem_drop hother)
  · cases hq

/-- Removing a statement leaves a canonical program canonical. -/
theorem Program.Canonical.removeAt? {p q : Program} {path : List Nat} {index : Nat} {s : Stmt}
    (h : p.Canonical) (hq : p.removeAt? path index = some (s, q)) : q.Canonical := by
  simp only [Program.removeAt?, Option.bind_eq_bind, Option.bind_eq_some_iff] at hq
  obtain ⟨body, hbody, removed, hremoved, edited, hedited, heq⟩ := hq
  cases heq
  refine Stmt.bodyCanonical_replaceAt? ?_ h hedited
  have hall := Stmt.bodyCanonical_iff.mp (Stmt.bodyCanonical_bodyAt? h hbody)
  rw [Stmt.bodyCanonical_iff]
  exact fun other hother => hall other (List.mem_of_mem_eraseIdx hother)

/-- Loading and editing lead to canonical programs. -/
theorem Program.Edited.canonical {p : Program} (h : p.Edited) : p.Canonical := by
  induction h with
  | load h => exact Program.canonical_of_load h
  | insert hp hs h ih => exact ih.insertAt? (Stmt.canonical_of_ofLine hs) h
  | remove hp h ih => exact ih.removeAt? h

/-- Printing and loading are inverse exactly on the canonical programs, and loading and editing lead
to no others. -/
theorem Program.load_text_same_iff_canonical :
    (∀ p : Program, (∃ q, Program.load p.text = .ok q ∧ q.same p = true) ↔ p.Canonical) ∧
      ∀ p : Program, p.Edited → p.Canonical := by
  refine ⟨fun p => ⟨?_, fun h => ?_⟩, fun p h => h.canonical⟩
  · rintro ⟨q, hq, hsame⟩
    exact Program.canonical_of_load_text hq hsame
  · exact ⟨p, Program.load_text h, Stmt.sameList_self p.statements h⟩

/-- A guarded `yield` as it is loaded, with an assignment put behind it and the `yield` taken out:
what is left is canonical, and its text is loaded again. -/
theorem Program.canonical_guardedYield :
    let drawn : Stmt := .assign "drawn" (.bool true)
    let loaded : Program := { statements := [.cond (.bool true) [.suspend]] }
    let longer : Program := { statements := [.cond (.bool true) [.suspend, drawn]] }
    let edited : Program := { statements := [.cond (.bool true) [drawn]] }
    Program.load "if (true)\nyield\n\x7d" = .ok loaded ∧ Stmt.ofLine "drawn = true" = .ok drawn ∧
      loaded.insertAt? [0] 1 drawn = some longer ∧
      longer.removeAt? [0] 0 = some (.suspend, edited) ∧
      edited.Edited ∧ edited.Canonical ∧
      ∃ q, Program.load edited.text = .ok q ∧ q.same edited = true := by
  intro drawn loaded longer edited
  have hload : Program.load "if (true)\nyield\n\x7d" = .ok loaded := by cbv
  have hline : Stmt.ofLine "drawn = true" = .ok drawn := by cbv
  have hinsert : loaded.insertAt? [0] 1 drawn = some longer := rfl
  have hremove : longer.removeAt? [0] 0 = some (.suspend, edited) := rfl
  have hedited : edited.Edited := .remove (.insert (.load hload) hline hinsert) hremove
  obtain ⟨hreturns, hcanonical⟩ := Program.load_text_same_iff_canonical
  have h := hcanonical edited hedited
  exact ⟨hload, hline, hinsert, hremove, hedited, h, (hreturns edited).mpr h⟩

end FrameScript
