import FrameScript.Proofs.Result
import FrameScript.Proofs.Syntax.Canonical

/-!
# The tokens of a line

Every token that is read is legible: a name is a name and a number is a numeral. A legible token
that is written in front of further text is read back, unless the text goes on with the token.
-/

namespace FrameScript

/-! ### Legible tokens -/

/-- A token that a line can hold. -/
def Token.Legible : Token → Prop
  | .number text => Decimal.Numeral text.toList
  | .identifier name => Token.IsName name
  | .finish => False
  | _ => True

/-- Whether a token is a keyword or a name. -/
def Token.isWord : Token → Bool
  | .identifier _ | .ifWord | .whileWord | .varWord | .breakWord | .trueWord | .falseWord
  | .yieldWord => true
  | _ => false

/-- Whether a token is a number. -/
def Token.isNumber : Token → Bool
  | .number _ => true
  | _ => false

/-- Whether a character behind a token is read as part of it. -/
def Token.goesOn (token : Token) (c : Char) : Bool :=
  token.isWord && Token.continuesWord c || token.isNumber && Token.continuesNumber c

/-- A word is written as the word that it was read from. -/
theorem Token.lexeme_ofWord (word : String) : (Token.ofWord word).lexeme = word := by
  unfold ofWord
  split_ifs <;> simp_all [lexeme]

/-- What a word is read as is a keyword or a name. -/
theorem Token.isWord_ofWord (word : String) : (Token.ofWord word).isWord = true := by
  unfold ofWord
  split_ifs <;> rfl

/-- What a word is read as is no number. -/
theorem Token.isNumber_ofWord (word : String) : (Token.ofWord word).isNumber = false := by
  unfold ofWord
  split_ifs <;> rfl

/-- A word is a keyword or a name. -/
theorem Token.legible_ofWord {word : String} (h : Token.IsWord word.toList) :
    (Token.ofWord word).Legible := by
  by_cases hfree : word ∈ Token.keywords
  · simp only [keywords, List.mem_cons, List.not_mem_nil, or_false] at hfree
    rcases hfree with rfl | rfl | rfl | rfl | rfl | rfl | rfl <;> exact trivial
  · have hname : Token.IsName word := ⟨h, hfree⟩
    rw [hname.ofWord_eq]
    exact hname

/-- The sign of a character is written with this character, and nothing goes on with it. -/
theorem Token.ofSign_spec {c : Char} {token : Token} (h : Token.ofSign? c = some token) :
    token.Legible ∧ token.lexeme.toList = [c] ∧ token.isWord = false ∧ token.isNumber = false := by
  unfold ofSign? at h
  split at h <;> cases h <;> exact ⟨trivial, rfl, rfl, rfl⟩

/-- A legible token is a word, a numeral or a sign. -/
theorem Token.Legible.cases {token : Token} (h : token.Legible) :
    (Token.IsWord token.lexeme.toList ∧ token = Token.ofWord token.lexeme) ∨
      (Decimal.Numeral token.lexeme.toList ∧ token = .number token.lexeme) ∨
      ∃ c, Token.ofSign? c = some token ∧ token.lexeme.toList = [c] := by
  cases token with
  | number text => exact .inr (.inl ⟨h, rfl⟩)
  | identifier name => exact .inl ⟨h.word, h.ofWord_eq.symm⟩
  | ifWord | whileWord | varWord | breakWord | trueWord | falseWord | yieldWord =>
    exact .inl ⟨isWord_of_mem_keywords (by decide), rfl⟩
  | plus | minus | star | slash | less | greater | assign | openParen | closeParen | openBrace
  | closeBrace | comma => exact .inr (.inr ⟨_, rfl, rfl⟩)
  | finish => exact h.elim

/-- Only the minus sign is written with a minus sign. -/
theorem Token.Legible.count_lexeme {token : Token} (h : token.Legible) :
    token.lexeme.toList.count '-' = [token].count .minus := by
  cases token with
  | number text =>
    refine List.count_eq_zero.mpr fun hmem => ?_
    exact absurd (Decimal.Numeral.continuesNumber h _ hmem) (by decide)
  | identifier name =>
    refine List.count_eq_zero.mpr fun hmem => ?_
    exact absurd (h.word.continuesWord _ hmem) (by decide)
  | ifWord | whileWord | varWord | breakWord | trueWord | falseWord | yieldWord | plus | minus
  | star | slash | less | greater | assign | openParen | closeParen | openBrace | closeBrace
  | comma | finish => decide

/-- A character that starts a word is read as one with all that goes on with it. -/
theorem Token.isWord_takeWhile {c : Char} {rest : List Char} (h : Token.startsWord c = true) :
    Token.IsWord ((c :: rest).takeWhile Token.continuesWord) := by
  rw [List.takeWhile_cons_of_pos (Token.continuesWord_of_startsWord h)]
  exact ⟨h, fun d hd => List.mem_takeWhile_imp hd⟩

/-- A digit is read as a numeral with all that goes on with it. -/
theorem Token.numeral_takeWhile {c : Char} {rest : List Char} (h : c.isDigit = true) :
    Decimal.Numeral ((c :: rest).takeWhile Token.continuesNumber) := by
  rw [List.takeWhile_cons_of_pos (Decimal.continuesNumber_of_isDigit h)]
  exact ⟨h, fun d hd => List.mem_takeWhile_imp hd⟩

namespace Lexer

/-- Skipping a run as long as it can be leaves what follows it. -/
theorem rest_skip (lexer : Lexer) (p : Char → Bool) :
    lexer.rest = lexer.rest.takeWhile p ++
        (lexer.skip (lexer.rest.takeWhile p).length).rest ∧
      ∀ c ∈ (lexer.skip (lexer.rest.takeWhile p).length).rest.head?, p c = false := by
  have hparts := List.takeWhile_append_dropWhile (p := p) (l := lexer.rest)
  have hskip : (lexer.skip (lexer.rest.takeWhile p).length).rest = lexer.rest.dropWhile p := by
    change lexer.rest.drop _ = _
    nth_rewrite 2 [← hparts]
    exact List.drop_left
  rw [hskip]
  refine ⟨hparts.symm, fun c hc => ?_⟩
  have hhead := List.head?_dropWhile_not p lexer.rest
  rw [hc] at hhead
  exact hhead

/-- What is read at a place: a legible token, its text, and behind it nothing that goes on with
it. -/
structure Takes (lexer : Lexer) (token : Token) (after : Lexer) : Prop where
  legible : token.Legible
  rest_eq : lexer.rest = token.lexeme.toList ++ after.rest
  apart : ∀ c ∈ after.rest.head?, token.goesOn c = false

/-- A place is read as a token, unless it is the end of the line. -/
theorem read_spec {lexer after : Lexer} {token : Token} (h : lexer.read = (.ok token, after)) :
    lexer.Takes token after ∨ token = .finish ∧ lexer.rest = [] ∧ after = lexer := by
  unfold read at h
  split at h
  · next hrest =>
    cases h
    exact .inr ⟨rfl, hrest, rfl⟩
  · next c rest hrest =>
    left
    split at h
    · next hc =>
      cases h
      have hword : Token.IsWord (lexer.rest.takeWhile Token.continuesWord) := by
        rw [hrest]
        exact Token.isWord_takeWhile hc
      obtain ⟨hparts, hend⟩ := lexer.rest_skip Token.continuesWord
      refine ⟨Token.legible_ofWord (by rwa [String.toList_ofList]), ?_, fun d hd => ?_⟩
      · rwa [Token.lexeme_ofWord, String.toList_ofList]
      · rw [Token.goesOn, hend d hd, Token.isNumber_ofWord]
        simp
    · split at h
      · next hc =>
        cases h
        have hnumeral : Decimal.Numeral (lexer.rest.takeWhile Token.continuesNumber) := by
          rw [hrest]
          exact Token.numeral_takeWhile hc
        obtain ⟨hparts, hend⟩ := lexer.rest_skip Token.continuesNumber
        refine ⟨?_, ?_, fun d hd => ?_⟩
        · change Decimal.Numeral (String.ofList _).toList
          rwa [String.toList_ofList]
        · rwa [Token.lexeme, String.toList_ofList]
        · rw [Token.goesOn, hend d hd]
          simp [Token.isWord]
      · split at h
        · next sign hsign =>
          cases h
          obtain ⟨hlegible, hlexeme, hword, hnumber⟩ := Token.ofSign_spec hsign
          refine ⟨hlegible, ?_, fun d _ => by simp [Token.goesOn, hword, hnumber]⟩
          rw [hlexeme, hrest, skip, hrest]
          rfl
        · cases h

/-- White space, and then a token, unless it is the end of the line. -/
theorem next_spec {lexer after : Lexer} {token : Token} (h : lexer.next = (.ok token, after)) :
    ∃ gap, (∀ c ∈ gap, Token.isSpace c = true) ∧ lexer.rest = gap ++ lexer.skipSpace.rest ∧
      (lexer.skipSpace.Takes token after ∨
        token = .finish ∧ lexer.skipSpace.rest = [] ∧ after = lexer.skipSpace) := by
  refine ⟨lexer.rest.takeWhile Token.isSpace, fun c hc => List.mem_takeWhile_imp hc, ?_,
    read_spec h⟩
  exact (lexer.rest_skip Token.isSpace).1

end Lexer

/-! ### Reading the next token -/

/-- The end of a line is no token in it. -/
theorem Token.Legible.ne_finish {token : Token} (h : token.Legible) : token ≠ .finish := by
  rintro rfl
  exact h

/-- A character of a kind that no white space is. -/
theorem Token.isSpace_eq_false {c : Char} {p : Char → Bool}
    (hp : [' ', '\t', '\r', '\n'].any p = false) (h : p c = true) : Token.isSpace c = false := by
  by_contra hspace
  have hmem : c ∈ [' ', '\t', '\r', '\n'] := by
    simp only [isSpace, Bool.not_eq_false, Bool.or_eq_true, beq_iff_eq] at hspace
    simpa [or_assoc] using hspace
  exact List.any_eq_false.mp hp c hmem h

/-- No digit starts a word. -/
theorem Token.startsWord_of_isDigit {c : Char} (h : c.isDigit = true) :
    Token.startsWord c = false := by
  simp only [Char.isDigit, Bool.and_eq_true, decide_eq_true_eq] at h
  by_contra hword
  simp only [startsWord, Char.isAlpha, Char.isUpper, Char.isLower, Bool.not_eq_false,
    Bool.or_eq_true, Bool.and_eq_true, decide_eq_true_eq, beq_iff_eq] at hword
  rcases hword with hletter | rfl
  · grind
  · revert h
    decide

namespace Lexer

variable {lexer after last : Lexer} {c : Char} {cs run : List Char} {token : Token}
  {ts : List Token}

/-- A run as long as it can be is read at once. -/
theorem skip_run {p : Char → Bool} (hrun : ∀ c ∈ run, p c = true)
    (hend : ∀ c ∈ cs.head?, p c = false) (column : Nat) :
    (run ++ cs).takeWhile p = run ∧ skip { rest := run ++ cs, column } run.length =
      { rest := cs, column := column + run.length } := by
  constructor
  · rw [List.takeWhile_append_of_pos hrun]
    cases cs with
    | nil => simp
    | cons c cs =>
      rw [List.takeWhile_cons_of_neg (by simp [hend c rfl]), List.append_nil]
  · unfold skip
    rw [List.drop_left]

/-- A place that is not white space is read at once. -/
theorem next_eq_read {lexer : Lexer} (h : ∀ c ∈ lexer.rest.head?, Token.isSpace c = false) :
    lexer.next = lexer.read := by
  have hnone : lexer.rest.takeWhile Token.isSpace = [] := by
    cases hrest : lexer.rest with
    | nil => rfl
    | cons c rest =>
      refine List.takeWhile_cons_of_neg ?_
      simp [h c (by rw [hrest]; rfl)]
  unfold next skipSpace
  rw [hnone]
  rfl

/-- White space before a token does not count. -/
theorem next_space (hc : Token.isSpace c = true) (column : Nat) :
    next { rest := c :: cs, column } = next { rest := cs, column := column + 1 } := by
  unfold next skipSpace skip
  rw [List.takeWhile_cons_of_pos hc]
  simp only [List.length_cons, List.drop_succ_cons]
  congr 2
  omega

/-- White space before a token does not count, however much there is. -/
theorem next_gap {gap : List Char} (hgap : ∀ c ∈ gap, Token.isSpace c = true) (column : Nat) :
    next { rest := gap ++ cs, column } = next { rest := cs, column := column + gap.length } := by
  induction gap generalizing column with
  | nil => rfl
  | cons c gap ih =>
    obtain ⟨hc, hgap⟩ := List.forall_mem_cons.mp hgap
    rw [List.cons_append, next_space hc, ih hgap, List.length_cons]
    congr 2
    omega

/-- A written word is read. -/
theorem next_word (hrun : Token.IsWord run)
    (hend : ∀ c ∈ cs.head?, Token.continuesWord c = false) (column : Nat) :
    next { rest := run ++ cs, column } =
      (.ok (Token.ofWord (String.ofList run)), { rest := cs, column := column + run.length }) := by
  obtain ⟨htake, hskip⟩ := skip_run hrun.continuesWord hend column
  cases run with
  | nil => exact hrun.elim
  | cons c rest =>
    have hc := hrun.1
    rw [next_eq_read (by simpa using Token.isSpace_eq_false rfl hc)]
    unfold read
    simp only [List.cons_append] at htake hskip ⊢
    rw [if_pos hc, htake, hskip]

/-- A written numeral is read. -/
theorem next_numeral (hrun : Decimal.Numeral run)
    (hend : ∀ c ∈ cs.head?, Token.continuesNumber c = false) (column : Nat) :
    next { rest := run ++ cs, column } =
      (.ok (.number (String.ofList run)), { rest := cs, column := column + run.length }) := by
  obtain ⟨htake, hskip⟩ := skip_run hrun.continuesNumber hend column
  cases run with
  | nil => exact hrun.elim
  | cons c rest =>
    have hc := hrun.1
    rw [next_eq_read (by simpa using Token.isSpace_eq_false rfl hc)]
    unfold read
    simp only [List.cons_append] at htake hskip ⊢
    rw [if_neg (by simp [Token.startsWord_of_isDigit hc]), if_pos hc, htake, hskip]

/-- A written sign is read. -/
theorem next_sign (hsign : Token.ofSign? c = some token) (column : Nat) :
    next { rest := c :: cs, column } = (.ok token, { rest := cs, column := column + 1 }) := by
  have hother : Token.isSpace c = false ∧ Token.startsWord c = false ∧ c.isDigit = false := by
    unfold Token.ofSign? at hsign
    split at hsign <;> cases hsign <;> decide
  obtain ⟨hspace, hword, hdigit⟩ := hother
  rw [next_eq_read (by simpa using hspace)]
  unfold read
  simp only [hword, hdigit, hsign]
  rfl

/-- A written token is read, if what follows does not go on with it. -/
theorem next_lexeme (htoken : token.Legible) (hend : ∀ c ∈ cs.head?, token.goesOn c = false)
    (column : Nat) :
    next { rest := token.lexeme.toList ++ cs, column } =
      (.ok token, { rest := cs, column := column + token.lexeme.toList.length }) := by
  rcases htoken.cases with ⟨hword, heq⟩ | ⟨hnumeral, heq⟩ | ⟨c, hsign, hlexeme⟩
  · have hends : ∀ c ∈ cs.head?, Token.continuesWord c = false := by
      intro c hc
      have hc' := hend c hc
      rw [heq, Token.goesOn, Token.isWord_ofWord] at hc'
      simp only [Bool.true_and, Bool.or_eq_false_iff] at hc'
      exact hc'.1
    have hnext := next_word hword hends column
    rwa [String.ofList_toList, ← heq] at hnext
  · have hends : ∀ c ∈ cs.head?, Token.continuesNumber c = false := by
      intro c hc
      have hc' := hend c hc
      rw [heq] at hc'
      simpa [Token.goesOn, Token.isWord, Token.isNumber] using hc'
    have hnext := next_numeral hnumeral hends column
    rwa [String.ofList_toList, ← heq] at hnext
  · rw [hlexeme]
    exact next_sign hsign column

/-- Before the end of a line stands only white space. -/
theorem isSpace_of_next (h : lexer.next.1 = .ok .finish) :
    ∀ c ∈ lexer.rest, Token.isSpace c = true := by
  obtain ⟨gap, hgap, hrest, htakes | ⟨-, hend, -⟩⟩ := next_spec (Prod.ext h rfl)
  · exact htakes.legible.elim
  · rw [hrest, hend, List.append_nil]
    exact hgap

/-- A token that is read stands behind white space, and nothing behind it goes on with it. -/
theorem parts_of_next (h : lexer.next = (.ok token, after)) (hne : token ≠ .finish) :
    ∃ gap, (∀ c ∈ gap, Token.isSpace c = true) ∧ token.Legible ∧
      lexer.rest = gap ++ (token.lexeme.toList ++ after.rest) ∧
      after.column = lexer.column + gap.length + token.lexeme.toList.length ∧
      ∀ c ∈ after.rest.head?, token.goesOn c = false := by
  obtain ⟨gap, hgap, hrest, htakes | ⟨hfinish, -⟩⟩ := next_spec h
  · obtain ⟨cs, column⟩ := lexer
    obtain rfl : cs = gap ++ (token.lexeme.toList ++ after.rest) := by
      rw [← htakes.rest_eq]
      exact hrest
    refine ⟨gap, hgap, htakes.legible, rfl, ?_, htakes.apart⟩
    rw [next_gap hgap, next_lexeme htakes.legible htakes.apart] at h
    rw [← (Prod.mk.inj h).2]
  · exact absurd hfinish hne

end Lexer

/-! ### Reading one token after the other -/

section

variable {lexer after : Lexer} {token : Token}

/-- Reading ends with an error where the next token is one. -/
theorem Token.readAll_error {error : ScriptError} (h : lexer.next = (.error error, after)) :
    Token.readAll lexer = .error error := by
  rw [Token.readAll]
  split
  · next heq =>
    rw [h] at heq
    cases heq
    rfl
  · next heq =>
    rw [h] at heq
    cases heq

/-- Reading ends at the end of the line. -/
theorem Token.readAll_finish (h : lexer.next = (.ok .finish, after)) :
    Token.readAll lexer = .ok [] := by
  rw [Token.readAll]
  split
  · next heq =>
    rw [h] at heq
    cases heq
  · next heq =>
    rw [h] at heq
    cases heq
    rfl

/-- A token is read before those behind it. -/
theorem Token.readAll_cons (h : lexer.next = (.ok token, after)) (hne : token ≠ .finish) :
    Token.readAll lexer = (Token.readAll after).map (token :: ·) := by
  rw [Token.readAll]
  split
  · next heq =>
    rw [h] at heq
    cases heq
  · next heq =>
    rw [h] at heq
    cases heq
    rw [dif_neg hne]

/-- What is read depends on the next token and the place behind it. -/
theorem Token.readAll_congr {other : Lexer} (h : lexer.next = other.next) :
    Token.readAll lexer = Token.readAll other := by
  rcases hnext : other.next with ⟨error | token, after⟩
  · rw [readAll_error (h.trans hnext), readAll_error hnext]
  · by_cases hne : token = .finish
    · subst hne
      rw [readAll_finish (h.trans hnext), readAll_finish hnext]
    · rw [readAll_cons (h.trans hnext) hne, readAll_cons hnext hne]

end

namespace Lexer

/-- Between a place and another one stand certain tokens. -/
inductive Reads : Lexer → List Token → Lexer → Prop
  | nil (lexer : Lexer) : Reads lexer [] lexer
  | cons {lexer after last : Lexer} {token : Token} {ts : List Token}
    (next : lexer.next = (.ok token, after)) (ne_finish : token ≠ .finish)
    (rest : Reads after ts last) : Reads lexer (token :: ts) last

/-- An answer with which reading ends. -/
def Final (answer : Except ScriptError Token) : Prop :=
  ∀ token, answer = .ok token → token = .finish

section

variable {lexer last : Lexer} {ts : List Token}

/-- The tokens up to a place, and what is answered there. -/
theorem Reads.readAll_eq (h : Reads lexer ts last) (hfinal : Final last.next.1) :
    Token.readAll lexer = last.next.1.map fun _ => ts := by
  induction h with
  | nil lexer =>
    rcases hnext : lexer.next with ⟨error | token, after⟩
    · exact Token.readAll_error hnext
    · rw [hnext] at hfinal
      obtain rfl := hfinal token rfl
      exact Token.readAll_finish hnext
  | @cons lexer after last token ts hnext hne _ ih =>
    rw [Token.readAll_cons hnext hne, ih hfinal]
    cases last.next.1 <;> rfl

/-- From every place, tokens are read until reading ends. -/
theorem exists_reads (lexer : Lexer) :
    ∃ ts last, Reads lexer ts last ∧ Final last.next.1 := by
  induction lexer using Token.readAll.induct with
  | case1 lexer error after hnext => exact ⟨[], lexer, .nil lexer, by simp [hnext, Final]⟩
  | case2 lexer after hnext => exact ⟨[], lexer, .nil lexer, by simp [hnext, Final]⟩
  | case3 lexer token after hnext hne _ ih =>
    obtain ⟨ts, last, hreads, hfinal⟩ := ih
    exact ⟨token :: ts, last, .cons hnext hne hreads, hfinal⟩

end

end Lexer

/-- What is read are the tokens up to the end of the line. -/
theorem Token.reads_of_readAll {lexer : Lexer} {ts : List Token}
    (h : Token.readAll lexer = .ok ts) :
    ∃ last, lexer.Reads ts last ∧ last.next.1 = .ok .finish := by
  obtain ⟨us, last, hreads, hfinal⟩ := lexer.exists_reads
  rw [hreads.readAll_eq hfinal] at h
  obtain ⟨token, htoken, rfl⟩ := map_eq_ok.mp h
  obtain rfl := hfinal token htoken
  exact ⟨last, hreads, htoken⟩

/-- If reading fails, there are tokens up to the place of the error. -/
theorem Token.exists_reads_of_error {lexer : Lexer} {error : ScriptError}
    (h : Token.readAll lexer = .error error) :
    ∃ ts last, lexer.Reads ts last ∧ last.next.1 = .error error := by
  obtain ⟨ts, last, hreads, hfinal⟩ := lexer.exists_reads
  rw [hreads.readAll_eq hfinal] at h
  exact ⟨ts, last, hreads, map_eq_error.mp h⟩

/-- White space has no minus signs. -/
theorem Token.count_gap {gap : List Char} (h : ∀ c ∈ gap, Token.isSpace c = true) :
    gap.count '-' = 0 :=
  List.count_eq_zero.mpr fun hmem => absurd (h _ hmem) (by decide)

/-- The tokens of a line are legible, and its minus signs are among them. -/
theorem Token.readAll_spec {lexer : Lexer} {ts : List Token} (h : Token.readAll lexer = .ok ts) :
    (∀ token ∈ ts, token.Legible) ∧ lexer.rest.count '-' = ts.count .minus := by
  obtain ⟨last, hreads, hlast⟩ := reads_of_readAll h
  clear h
  induction hreads with
  | nil lexer => exact ⟨by simp, Token.count_gap (Lexer.isSpace_of_next hlast)⟩
  | cons hnext hne _ ih =>
    obtain ⟨gap, hgap, hlegible, hparts, -, -⟩ := Lexer.parts_of_next hnext hne
    obtain ⟨hall, hcounts⟩ := ih hlast
    refine ⟨List.forall_mem_cons.mpr ⟨hlegible, hall⟩, ?_⟩
    rw [hparts, List.count_append, List.count_append, Token.count_gap hgap,
      hlegible.count_lexeme, hcounts, Nat.zero_add, ← List.count_append, List.singleton_append]

/-! ### Reading written tokens -/

/-- The tokens of characters, wherever in a line these stand. -/
def Token.Lexes (cs : List Char) (ts : List Token) : Prop :=
  ∀ column, Token.readAll { rest := cs, column } = .ok ts

/-- Characters that go on with no word and no number. -/
def Token.Ends (cs : List Char) : Prop :=
  ∀ c ∈ cs.head?, Token.continuesWord c = false ∧ Token.continuesNumber c = false

namespace Token.Lexes

variable {c : Char} {cs run : List Char} {ts : List Token} {token : Token}

/-- The empty line has no tokens. -/
theorem nil : Lexes [] [] :=
  fun _ => readAll_finish rfl

/-- White space in front adds no token. -/
theorem gap {spaces : List Char} (hspaces : ∀ c ∈ spaces, Token.isSpace c = true)
    (h : Lexes cs ts) : Lexes (spaces ++ cs) ts := by
  intro column
  rw [readAll_congr (Lexer.next_gap hspaces column)]
  exact h _

/-- A blank in front adds no token. -/
theorem blank (h : Lexes cs ts) : Lexes (' ' :: cs) ts := by
  have hblank : ∀ c ∈ [' '], isSpace c = true := by simp [isSpace]
  exact .gap hblank h

/-- Blanks in front add no token. -/
theorem blanks (n : Nat) (h : Lexes cs ts) : Lexes (List.replicate n ' ' ++ cs) ts :=
  .gap (fun c hc => by rw [List.eq_of_mem_replicate hc]; rfl) h

/-- Characters that are read as a token, and the rest. -/
theorem cons (htoken : token.Legible)
    (hnext : ∀ column, Lexer.next { rest := run ++ cs, column } =
      (.ok token, { rest := cs, column := column + run.length }))
    (h : Lexes cs ts) : Lexes (run ++ cs) (token :: ts) := by
  intro column
  rw [readAll_cons (hnext column) htoken.ne_finish, h]
  rfl

/-- A word is one token, if what follows does not go on with it. -/
theorem word (hrun : Token.IsWord run) (hend : ∀ c ∈ cs.head?, Token.continuesWord c = false)
    (h : Lexes cs ts) : Lexes (run ++ cs) (Token.ofWord (String.ofList run) :: ts) := by
  refine .cons (legible_ofWord ?_) (Lexer.next_word hrun hend) h
  rwa [String.toList_ofList]

/-- A numeral is one token, if what follows does not go on with it. -/
theorem numeral (hrun : Decimal.Numeral run)
    (hend : ∀ c ∈ cs.head?, Token.continuesNumber c = false) (h : Lexes cs ts) :
    Lexes (run ++ cs) (.number (String.ofList run) :: ts) := by
  refine .cons ?_ (Lexer.next_numeral hrun hend) h
  change Decimal.Numeral (String.ofList run).toList
  rwa [String.toList_ofList]

/-- A sign is one token, whatever follows. -/
theorem sign (hsign : Token.ofSign? c = some token) (h : Lexes cs ts) :
    Lexes (c :: cs) (token :: ts) := by
  rw [← List.singleton_append]
  exact .cons (ofSign_spec hsign).1 (Lexer.next_sign hsign) h

/-- A written token is read, if what follows does not go on with it. -/
theorem lexeme (htoken : token.Legible) (hend : ∀ c ∈ cs.head?, token.goesOn c = false)
    (h : Lexes cs ts) : Lexes (token.lexeme.toList ++ cs) (token :: ts) :=
  .cons htoken (Lexer.next_lexeme htoken hend) h

end Token.Lexes

end FrameScript
