import FrameScript.Proofs.Syntax.Lexing

/-!
# Tokens with white space around them

A line is read as certain tokens exactly if it holds their texts in order, with white space around
and between them. White space may be missing between two tokens unless the second would be read as
part of the first.
-/

namespace FrameScript.Token

/-- Whether two tokens in a row need white space between them: a word behind a word, or a number
behind a word or a number. -/
def fuses (first second : Token) : Bool :=
  first.isWord && (second.isWord || second.isNumber) || first.isNumber && second.isNumber

/-- The texts of tokens, each with a gap behind it. -/
def spread : List Token → List (List Char) → List Char
  | token :: ts, gap :: gaps => token.lexeme.toList ++ (gap ++ spread ts gaps)
  | _, _ => []

/-- White space behind every token, and some of it between tokens that need it. -/
structure Gaps (ts : List Token) (gaps : List (List Char)) : Prop where
  length_eq : gaps.length = ts.length
  blank : ∀ gap ∈ gaps, ∀ c ∈ gap, isSpace c = true
  apart : ∀ i first second, ts[i]? = some first → ts[i + 1]? = some second →
    first.fuses second = true → gaps[i]? ≠ some []

/-- Characters that hold the texts of tokens, with gaps around and between them. -/
def Spaced (ts : List Token) (cs : List Char) : Prop :=
  ∃ first gaps, (∀ c ∈ first, isSpace c = true) ∧ Gaps ts gaps ∧ cs = first ++ spread ts gaps

namespace Gaps

variable {first : Token} {ts : List Token} {gap : List Char} {gaps : List (List Char)}

/-- The empty run has no gaps. -/
theorem nil : Gaps [] [] :=
  ⟨rfl, by simp, by simp⟩

/-- A token and the gap behind it come before the others. -/
theorem cons (hgap : ∀ c ∈ gap, isSpace c = true)
    (hapart : ∀ second ∈ ts.head?, first.fuses second = true → gap ≠ []) (h : Gaps ts gaps) :
    Gaps (first :: ts) (gap :: gaps) := by
  refine ⟨by simp [h.length_eq], List.forall_mem_cons.mpr ⟨hgap, h.blank⟩, ?_⟩
  intro i left right hleft hright hfuses
  cases i with
  | zero =>
    cases hleft
    rw [List.getElem?_cons_succ, ← List.head?_eq_getElem?] at hright
    simpa using hapart right hright hfuses
  | succ i => exact h.apart i left right hleft hright hfuses

/-- The gap behind the first token, and those behind the others. -/
theorem exists_cons (h : Gaps (first :: ts) gaps) :
    ∃ gap rest, gaps = gap :: rest ∧ (∀ c ∈ gap, isSpace c = true) ∧
      (∀ second ∈ ts.head?, first.fuses second = true → gap ≠ []) ∧ Gaps ts rest := by
  cases gaps with
  | nil => cases h.length_eq
  | cons gap rest =>
    obtain ⟨hgap, hrest⟩ := List.forall_mem_cons.mp h.blank
    refine ⟨gap, rest, rfl, hgap, fun second hsecond hfuses => ?_, ?_⟩
    · have hapart := h.apart 0 first second rfl
      rw [List.getElem?_cons_succ, ← List.head?_eq_getElem?] at hapart
      simpa using hapart hsecond hfuses
    · exact ⟨Nat.succ.inj h.length_eq, hrest, fun i => h.apart (i + 1)⟩

end Gaps

/-! ### The characters of a token -/

section

variable {token first second : Token} {c : Char}

/-- No token goes on with white space. -/
theorem goesOn_of_isSpace (h : isSpace c = true) : token.goesOn c = false := by
  have hends : continuesWord c = false ∧ continuesNumber c = false := by
    simp only [isSpace, Bool.or_eq_true, beq_iff_eq] at h
    rcases h with ((rfl | rfl) | rfl) | rfl <;> decide
  simp [goesOn, hends]

/-- No token holds white space. -/
theorem Legible.isSpace_eq_false (h : token.Legible) :
    ∀ c ∈ token.lexeme.toList, isSpace c = false := by
  rcases h.cases with ⟨hword, -⟩ | ⟨hnumeral, -⟩ | ⟨c, hsign, hlexeme⟩
  · exact fun c hc => Token.isSpace_eq_false rfl (hword.continuesWord c hc)
  · exact fun c hc => Token.isSpace_eq_false rfl (hnumeral.continuesNumber c hc)
  · rw [hlexeme]
    intro d hd
    rw [List.mem_singleton.mp hd]
    unfold ofSign? at hsign
    split at hsign <;> cases hsign <;> rfl

/-- The first character of a token decides which tokens it goes on with. -/
theorem Legible.exists_head (h : second.Legible) :
    ∃ c cs, second.lexeme.toList = c :: cs ∧
      ∀ first : Token, first.goesOn c = first.fuses second := by
  have hkind : ∃ c cs, second.lexeme.toList = c :: cs ∧
      continuesWord c = (second.isWord || second.isNumber) ∧
      continuesNumber c = second.isNumber := by
    rcases h.cases with ⟨hword, heq⟩ | ⟨hnumeral, heq⟩ | ⟨c, hsign, hlexeme⟩
    · cases hlexeme : second.lexeme.toList with
      | nil =>
        rw [hlexeme] at hword
        exact hword.elim
      | cons c cs =>
        rw [hlexeme] at hword
        refine ⟨c, cs, rfl, ?_, ?_⟩
        · rw [heq, isWord_ofWord, continuesWord_of_startsWord hword.1, Bool.true_or]
        · rw [heq, isNumber_ofWord]
          by_contra hnumber
          rw [Bool.not_eq_false, continuesNumber, Bool.or_eq_true, beq_iff_eq] at hnumber
          rcases hnumber with hdigit | rfl
          · have hstart := startsWord_of_isDigit hdigit
            rw [hword.1] at hstart
            cases hstart
          · exact absurd hword.1 (by decide)
    · cases hlexeme : second.lexeme.toList with
      | nil =>
        rw [hlexeme] at hnumeral
        exact hnumeral.elim
      | cons c cs =>
        rw [hlexeme] at hnumeral
        refine ⟨c, cs, rfl, ?_, ?_⟩
        · rw [heq]
          simp [continuesWord, Char.isAlphanum, hnumeral.1, isWord, isNumber]
        · rw [heq]
          simp [continuesNumber, hnumeral.1, isNumber]
    · refine ⟨c, [], hlexeme, ?_⟩
      unfold ofSign? at hsign
      split at hsign <;> cases hsign <;> exact ⟨rfl, rfl⟩
  obtain ⟨c, cs, hlexeme, hword, hnumber⟩ := hkind
  exact ⟨c, cs, hlexeme, fun first => by rw [goesOn, hword, hnumber, fuses]⟩

end

/-! ### Reading and spacing -/

/-- A line that is read is spaced. -/
theorem spaced_of_readAll {lexer : Lexer} {ts : List Token} (h : readAll lexer = .ok ts) :
    Spaced ts lexer.rest := by
  obtain ⟨last, hreads, hlast⟩ := reads_of_readAll h
  have hlegible := (readAll_spec h).1
  clear h
  induction hreads with
  | nil lexer => exact ⟨lexer.rest, [], Lexer.isSpace_of_next hlast, .nil, by simp [spread]⟩
  | @cons lexer after last token ts hnext hne _ ih =>
    obtain ⟨gap, hgap, -, hparts, -, hapart⟩ := Lexer.parts_of_next hnext hne
    obtain ⟨-, hlegible⟩ := List.forall_mem_cons.mp hlegible
    obtain ⟨first, gaps, hfirst, hgaps, hafter⟩ := ih hlast hlegible
    refine ⟨gap, first :: gaps, hgap, .cons hfirst ?_ hgaps, by rw [hparts, hafter, spread]⟩
    -- without a gap, the next token would have been read as part of this one
    rintro second hsecond hfuses rfl
    obtain ⟨ts, rfl⟩ : ∃ us, ts = second :: us := List.head?_eq_some_iff.mp hsecond
    obtain ⟨next, gaps, rfl, -⟩ := hgaps.exists_cons
    obtain ⟨c, cs, hlexeme, hgoesOn⟩ := (hlegible second List.mem_cons_self).exists_head
    have hgoes := hapart c (by rw [hafter, spread, hlexeme]; rfl)
    rw [hgoesOn, hfuses] at hgoes
    cases hgoes

/-- Spaced tokens are read, wherever in a line they stand. -/
theorem Spaced.lexes {ts : List Token} {cs : List Char} (hlegible : ∀ token ∈ ts, token.Legible)
    (h : Spaced ts cs) : Lexes cs ts := by
  obtain ⟨first, gaps, hfirst, hgaps, rfl⟩ := h
  refine .gap hfirst ?_
  induction ts generalizing gaps with
  | nil => exact .nil
  | cons token ts ih =>
    obtain ⟨gap, gaps, rfl, hgap, hapart, hrest⟩ := hgaps.exists_cons
    obtain ⟨htoken, hts⟩ := List.forall_mem_cons.mp hlegible
    refine .lexeme htoken ?_ (.gap hgap (ih hts gaps hrest))
    intro c hc
    cases gap with
    | cons d gap =>
      cases hc
      exact goesOn_of_isSpace (hgap c List.mem_cons_self)
    | nil =>
      cases ts with
      | nil =>
        obtain rfl := List.eq_nil_of_length_eq_zero hrest.length_eq
        cases hc
      | cons second ts =>
        obtain ⟨next, gaps, rfl, -⟩ := hrest.exists_cons
        obtain ⟨d, ds, hlexeme, hgoesOn⟩ := (hts second List.mem_cons_self).exists_head
        rw [List.nil_append, spread, hlexeme] at hc
        cases hc
        rw [hgoesOn]
        by_contra hfuses
        exact hapart second rfl (by simpa using hfuses) rfl

/-- A line is read as the tokens whose spaced texts it holds. -/
theorem ofText_eq_ok_iff {text : String} {ts : List Token} :
    ofText text = .ok ts ↔ (∀ token ∈ ts, token.Legible) ∧ Spaced ts text.toList := by
  constructor
  · exact fun h => ⟨(readAll_spec h).1, spaced_of_readAll h⟩
  · exact fun ⟨hlegible, h⟩ => h.lexes hlegible 1

/-! ### What spaced texts keep -/

/-- Without its white space, a line is the texts of its tokens. -/
theorem Spaced.filter_eq {ts : List Token} {cs : List Char}
    (hlegible : ∀ token ∈ ts, token.Legible) (h : Spaced ts cs) :
    cs.filter (fun c => !isSpace c) = ts.flatMap (·.lexeme.toList) := by
  have hblank : ∀ {gap : List Char}, (∀ c ∈ gap, isSpace c = true) →
      gap.filter (fun c => !isSpace c) = [] :=
    fun hgap => List.filter_eq_nil_iff.mpr fun c hc => by simp [hgap c hc]
  obtain ⟨first, gaps, hfirst, hgaps, rfl⟩ := h
  rw [List.filter_append, hblank hfirst, List.nil_append]
  induction ts generalizing gaps with
  | nil => rfl
  | cons token ts ih =>
    obtain ⟨gap, gaps, rfl, hgap, -, hrest⟩ := hgaps.exists_cons
    obtain ⟨htoken, hts⟩ := List.forall_mem_cons.mp hlegible
    have hlexeme : token.lexeme.toList.filter (fun c => !isSpace c) = token.lexeme.toList :=
      List.filter_eq_self.mpr fun c hc => by simp [htoken.isSpace_eq_false c hc]
    rw [spread, List.filter_append, List.filter_append, hlexeme, hblank hgap, ih hts gaps hrest,
      List.nil_append, List.flatMap_cons]

/-- A token alone is spaced. -/
theorem spaced_singleton (token : Token) : Spaced [token] token.lexeme.toList :=
  ⟨[], [[]], by simp, .cons (by simp) (by simp) .nil, by simp [spread]⟩

/-- Tokens with one blank between them are spaced. -/
theorem spaced_intercalate (ts : List Token) :
    Spaced ts (" ".intercalate (ts.map lexeme)).toList := by
  rw [String.toList_intercalate]
  induction ts with
  | nil => exact ⟨[], [], by simp, .nil, rfl⟩
  | cons token ts ih =>
    cases ts with
    | nil => simpa using spaced_singleton token
    | cons second ts =>
      obtain ⟨first, gaps, hfirst, hgaps, heq⟩ := ih
      have hgap : ∀ c ∈ ' ' :: first, isSpace c = true :=
        List.forall_mem_cons.mpr ⟨rfl, hfirst⟩
      refine ⟨[], (' ' :: first) :: gaps, by simp, .cons hgap (by simp) hgaps, ?_⟩
      simp only [List.map_cons, List.intercalate_cons_cons] at heq ⊢
      rw [heq, spread]
      simp

/-- A line is read as certain tokens exactly if these are legible and it holds their texts, with
white space around and between them wherever two of them would fuse. So no character is lost but
white space, the tokens with one blank between them are read as themselves, and so is each alone. -/
theorem ofText_eq_ok_iff_spaced :
    (∀ text ts, ofText text = .ok ts ↔
      (∀ token ∈ ts, token.Legible) ∧ Spaced ts text.toList) ∧
    ∀ text ts, ofText text = .ok ts →
      text.toList.filter (fun c => !isSpace c) = ts.flatMap (·.lexeme.toList) ∧
      ofText (" ".intercalate (ts.map lexeme)) = .ok ts ∧
      ∀ token ∈ ts, ofText token.lexeme = .ok [token] := by
  refine ⟨fun text ts => ofText_eq_ok_iff, fun text ts h => ?_⟩
  obtain ⟨hlegible, hspaced⟩ := ofText_eq_ok_iff.mp h
  refine ⟨hspaced.filter_eq hlegible, ?_, fun token htoken => ?_⟩
  · exact ofText_eq_ok_iff.mpr ⟨hlegible, spaced_intercalate ts⟩
  · have hsingle : ∀ other ∈ [token], other.Legible := by simpa using hlegible token htoken
    exact ofText_eq_ok_iff.mpr ⟨hsingle, spaced_singleton token⟩

/-- A name may follow a number at once, but not the other way round. -/
theorem ofText_closeTogether :
    let ts := [.number "1", .identifier "x", .number "1", .openParen]
    Spaced ts "1x 1(".toList ∧ ofText "1x 1(" = .ok ts ∧ ofText "1 x 1 (" = .ok ts := by
  intro ts
  have hlegible : ∀ token ∈ ts, token.Legible := by
    have hname : IsName "x" := ⟨⟨rfl, by simp⟩, by decide⟩
    have hone : Decimal.Numeral "1".toList := ⟨rfl, by simp⟩
    simp only [ts, List.forall_mem_cons, List.not_mem_nil, false_imp_iff, implies_true, and_true]
    exact ⟨hone, hname, hone, trivial⟩
  have hspaced : Spaced ts "1x 1(".toList :=
    ⟨[], [[], [' '], [], []], by simp, .cons (by simp) (by simp [fuses, isNumber, isWord])
      (.cons (by simp [isSpace]) (by simp) (.cons (by simp) (by simp [fuses, isNumber, isWord])
        (.cons (by simp) (by simp) .nil))), rfl⟩
  obtain ⟨hread, hkeeps⟩ := ofText_eq_ok_iff_spaced
  have hone := (hread "1x 1(" ts).mpr ⟨hlegible, hspaced⟩
  exact ⟨hspaced, hone, (hkeeps _ ts hone).2.1⟩

end FrameScript.Token
