import FrameScript.Proofs.Syntax.Spacing

/-!
# Where reading a line breaks off

A line is read token by token up to the first character that neither starts a token nor goes on with
the one before it. The error names this character and its column, and whoever asks for the next
token gets it again and again. At the end of a line that is read, one gets `finish` again and again.
-/

namespace FrameScript

/-! ### Unknown characters -/

namespace Token

/-- The characters that are a token each. -/
def signs : List Char :=
  ['+', '-', '*', '/', '<', '>', '=', '(', ')', '\x7b', '\x7d', ',']

/-- A character that is no white space and is never read as a token or as part of a word. -/
def Unknown (c : Char) : Prop :=
  isSpace c = false ∧ continuesWord c = false ∧ c ∉ signs

/-- The signs are the characters that are a token each. -/
theorem ofSign?_eq_none_iff {c : Char} : ofSign? c = none ↔ c ∉ signs := by
  constructor
  · intro h hmem
    simp only [signs, List.mem_cons, List.not_mem_nil, or_false] at hmem
    rcases hmem with rfl | rfl | rfl | rfl | rfl | rfl | rfl | rfl | rfl | rfl | rfl | rfl <;>
      cases h
  · intro h
    unfold ofSign?
    split <;> first | rfl | exact absurd (by decide) h

/-- An unknown character is one with which nothing starts. -/
theorem unknown_iff {c : Char} :
    Unknown c ↔
      isSpace c = false ∧ startsWord c = false ∧ c.isDigit = false ∧ ofSign? c = none := by
  rw [Unknown, ofSign?_eq_none_iff, continuesWord, startsWord, Char.isAlphanum]
  simp only [Bool.or_eq_false_iff]
  tauto

end Token

namespace Lexer

variable {lexer after last : Lexer} {token : Token} {ts : List Token} {c : Char}
  {gap cs : List Char}

/-- An unknown character behind white space is an error. -/
theorem next_unknown (hgap : ∀ c ∈ gap, Token.isSpace c = true) (hc : Token.Unknown c)
    (column : Nat) :
    next { rest := gap ++ c :: cs, column } =
      (.error (.unknownCharacter c (column + gap.length)),
        { rest := c :: cs, column := column + gap.length }) := by
  obtain ⟨hspace, hword, hdigit, hsign⟩ := Token.unknown_iff.mp hc
  rw [next_gap hgap, next_eq_read (by simpa using hspace)]
  unfold read
  simp [hword, hdigit, hsign]

/-- Every error is an unknown character behind white space. -/
theorem exists_unknown_of_next {error : ScriptError} (h : lexer.next.1 = .error error) :
    ∃ gap c cs, (∀ d ∈ gap, Token.isSpace d = true) ∧ Token.Unknown c ∧
      lexer.rest = gap ++ c :: cs ∧ error = .unknownCharacter c (lexer.column + gap.length) := by
  obtain ⟨hrest, hspace⟩ := lexer.rest_skip Token.isSpace
  unfold next read at h
  split at h
  · cases h
  · next c cs hcs =>
    split_ifs at h with hword hdigit
    split at h
    · cases h
    · next hsign =>
      cases h
      have hhead : c ∈ lexer.skipSpace.rest.head? := by
        rw [hcs]
        rfl
      have hc : Token.isSpace c = false := hspace c hhead
      refine ⟨_, c, cs, fun d hd => List.mem_takeWhile_imp hd,
        Token.unknown_iff.mpr ⟨hc, by simpa using hword, by simpa using hdigit, hsign⟩, ?_, rfl⟩
      rw [← hcs]
      exact hrest

/-! ### One token after the other -/

/-- The answer to a request for the next token, after so many others. -/
def answer (lexer : Lexer) : Nat → Except ScriptError Token
  | 0 => lexer.next.1
  | count + 1 => lexer.next.2.answer count

/-- At the end of reading, the next request finds the same place and gets the same answer. -/
theorem next_of_final (h : Final lexer.next.1) : lexer.next.2.next = lexer.next := by
  have hstays : lexer.next.2 = lexer.skipSpace := by
    rcases hnext : lexer.next with ⟨error | token, after⟩
    · unfold next read at hnext
      grind
    · rw [hnext] at h
      obtain ⟨-, -, -, htakes | ⟨-, -, hafter⟩⟩ := next_spec hnext
      · exact absurd (h token rfl) htakes.legible.ne_finish
      · exact hafter
  rw [hstays]
  exact next_eq_read (lexer.rest_skip Token.isSpace).2

/-- At the end of reading, every further request gets the same answer. -/
theorem answer_of_final (h : Final lexer.next.1) (count : Nat) :
    lexer.answer count = lexer.next.1 := by
  induction count generalizing lexer with
  | zero => rfl
  | succ count ih =>
    have hsame := next_of_final h
    rw [← hsame] at h
    rw [answer, ih h, hsame]

namespace Reads

/-- Nothing stands between the end of a line and another place. -/
theorem eq_of_rest_eq_nil (h : Reads lexer ts last) (hrest : lexer.rest = []) :
    ts = [] ∧ last = lexer := by
  cases h with
  | nil => exact ⟨rfl, rfl⟩
  | cons hnext hne _ =>
    obtain ⟨gap, -, hlegible, hparts, -⟩ := parts_of_next hnext hne
    obtain ⟨c, cs, hlexeme, -⟩ := hlegible.exists_head
    rw [hrest, hlexeme] at hparts
    simp at hparts

/-- The requests are answered with the tokens in order, and then as at the end of reading. -/
theorem answer_eq (h : Reads lexer ts last) (hfinal : Final last.next.1) (count : Nat) :
    lexer.answer count = ts[count]?.elim last.next.1 .ok := by
  induction h generalizing count with
  | nil lexer => exact answer_of_final hfinal count
  | cons hnext _ _ ih =>
    cases count with
    | zero => rw [answer, hnext]; rfl
    | succ count =>
      rw [answer, hnext, List.getElem?_cons_succ]
      exact ih hfinal count

/-- The last of certain tokens stands in front of the place behind them, and what follows there does
not go on with it. -/
theorem of_getLast? (h : Reads lexer ts last) (htoken : ts.getLast? = some token) :
    token.Legible ∧ (∃ front, lexer.rest = front ++ (token.lexeme.toList ++ last.rest)) ∧
      ∀ c ∈ last.rest.head?, token.goesOn c = false := by
  induction h with
  | nil => cases htoken
  | @cons lexer after last first ts hnext hne hrest ih =>
    obtain ⟨gap, -, hlegible, hparts, -, hapart⟩ := parts_of_next hnext hne
    cases hrest with
    | nil =>
      cases htoken
      exact ⟨hlegible, ⟨gap, hparts⟩, hapart⟩
    | cons hnext' hne' hrest' =>
      rw [List.getLast?_cons_cons] at htoken
      obtain ⟨hlast, ⟨front, hfront⟩, hend⟩ := ih htoken
      refine ⟨hlast, ⟨gap ++ first.lexeme.toList ++ front, ?_⟩, hend⟩
      rw [hparts, hfront]
      simp

/-- What stands before a place is read as the same tokens without what stands behind it. -/
theorem exists_lexes (h : Reads lexer ts last) :
    ∃ read, lexer.rest = read ++ last.rest ∧ last.column = lexer.column + read.length ∧
      ∀ gap, (∀ c ∈ gap, Token.isSpace c = true) → Token.Lexes (read ++ gap) ts := by
  induction h with
  | nil lexer =>
    refine ⟨[], rfl, rfl, fun gap hgap => ?_⟩
    simpa using Token.Lexes.gap hgap .nil
  | @cons lexer after last token ts hnext hne _ ih =>
    obtain ⟨space, hspace, hlegible, hparts, hcolumn, hapart⟩ := parts_of_next hnext hne
    obtain ⟨read, hread, hbehind, hlexes⟩ := ih
    refine ⟨space ++ (token.lexeme.toList ++ read), ?_, ?_, fun gap hgap => ?_⟩
    · rw [hparts, hread]
      simp
    · rw [hbehind, hcolumn, List.length_append, List.length_append]
      omega
    · rw [List.append_assoc, List.append_assoc]
      refine .gap hspace (.lexeme hlegible (fun c hc => ?_) (hlexes gap hgap))
      cases read with
      | nil => exact Token.goesOn_of_isSpace (hgap c (List.mem_of_mem_head? hc))
      | cons d read =>
        rw [hread] at hapart
        exact hapart c hc

/-- More characters at the end of a line change nothing before them, unless the last token goes on
with them. -/
theorem append (h : Reads lexer ts last)
    (hend : last.rest = [] → ∀ token ∈ ts.getLast?, ∀ c ∈ cs.head?, token.goesOn c = false) :
    Reads { lexer with rest := lexer.rest ++ cs } ts { last with rest := last.rest ++ cs } := by
  induction h with
  | nil => exact .nil _
  | @cons lexer after last token ts hnext hne hrest ih =>
    obtain ⟨gap, hgap, hlegible, hparts, hcolumn, hapart⟩ := parts_of_next hnext hne
    have hapart' : ∀ c ∈ (after.rest ++ cs).head?, token.goesOn c = false := by
      intro c hc
      cases hafter : after.rest with
      | nil =>
        obtain ⟨rfl, rfl⟩ := hrest.eq_of_rest_eq_nil hafter
        rw [hafter] at hc
        exact hend hafter token rfl c hc
      | cons d rest =>
        rw [hafter] at hc hapart
        exact hapart c hc
    have hnext' : next { lexer with rest := lexer.rest ++ cs } =
        (.ok token, { after with rest := after.rest ++ cs }) := by
      rw [hparts, List.append_assoc, List.append_assoc, next_gap hgap,
        next_lexeme hlegible hapart', hcolumn]
    refine .cons hnext' hne (ih fun hlast other hother => hend hlast other ?_)
    cases ts with
    | nil => cases hother
    | cons second ts => rwa [List.getLast?_cons_cons]

end Reads

end Lexer

/-! ### Lines that break off -/

namespace Token

/-- The last token of a text is a number with no white space behind it. -/
def EndsInNumber (text : String) (ts : List Token) : Prop :=
  ∃ digits, ts.getLast? = some (.number digits) ∧ digits.toList <:+ text.toList

/-- A line breaks off at a column: what stands before it is read as certain tokens, and the
character there is neither known nor a point that goes on with a number. -/
def BreaksOff (text : String) (column : Nat) (c : Char) (ts : List Token) : Prop :=
  ∃ before after : String, text.toList = before.toList ++ c :: after.toList ∧
    before.length + 1 = column ∧ ofText before = .ok ts ∧ Unknown c ∧
    ¬ (c = '.' ∧ EndsInNumber before ts)

/-- Nothing but a number goes on with an unknown character, and only with a point. -/
theorem Unknown.goesOn_iff {c : Char} (hc : Unknown c) {token : Token} :
    token.goesOn c = true ↔ c = '.' ∧ ∃ digits, token = .number digits := by
  obtain ⟨-, hword, hdigit, -⟩ := unknown_iff.mp hc
  rw [goesOn, hc.2.1, continuesNumber, hdigit]
  cases token <;> simp [isNumber]

/-- A token at the end of characters has no white space behind it. -/
theorem Legible.gap_eq_nil {token : Token} (h : token.Legible) {cs gap : List Char}
    (hgap : ∀ c ∈ gap, isSpace c = true) (hsuffix : token.lexeme.toList <:+ cs ++ gap) :
    gap = [] := by
  rcases List.eq_nil_or_concat gap with rfl | ⟨spaces, space, rfl⟩
  · rfl
  · rw [List.concat_eq_append, ← List.append_assoc, List.suffix_concat_iff] at hsuffix
    rcases hsuffix with hempty | ⟨front, hlexeme, -⟩
    · obtain ⟨d, ds, hhead, -⟩ := h.exists_head
      rw [hempty] at hhead
      cases hhead
    · have hspace := h.isSpace_eq_false space (by simp [hlexeme])
      rw [hgap space (by simp)] at hspace
      cases hspace

variable {text : String} {column : Nat} {c : Char} {ts : List Token}

/-- A line breaks off where its tokens have been read and an error follows. -/
theorem breaksOff_of_reads {last : Lexer} (h : (Lexer.start text).Reads ts last)
    (herror : last.next.1 = .error (.unknownCharacter c column)) : BreaksOff text column c ts := by
  obtain ⟨gap, d, cs, hgap, hunknown, hrest, hsame⟩ := Lexer.exists_unknown_of_next herror
  cases hsame
  obtain ⟨read, hread, hcolumn, hlexes⟩ := h.exists_lexes
  have htext : text.toList = read ++ last.rest := hread
  refine ⟨String.ofList (read ++ gap), String.ofList cs, ?_, ?_, ?_, hunknown, ?_⟩
  · rw [htext, hrest, String.toList_ofList, String.toList_ofList, List.append_assoc]
  · rw [String.length_ofList, List.length_append, hcolumn]
    change _ = 1 + read.length + gap.length
    omega
  · unfold ofText Lexer.start
    rw [String.toList_ofList]
    exact hlexes gap hgap 1
  · rintro ⟨rfl, digits, hlast, hsuffix⟩
    obtain ⟨hlegible, -, hapart⟩ := h.of_getLast? hlast
    rw [String.toList_ofList] at hsuffix
    obtain rfl := hlegible.gap_eq_nil hgap hsuffix
    have hpoint := hapart '.' (by rw [hrest]; rfl)
    cases hpoint

/-- Where a line breaks off, its tokens have been read and an error follows. -/
theorem BreaksOff.exists_reads (h : BreaksOff text column c ts) :
    ∃ last, (Lexer.start text).Reads ts last ∧
      last.next.1 = .error (.unknownCharacter c column) := by
  obtain ⟨before, behind, htext, rfl, hread, hunknown, hpoint⟩ := h
  obtain ⟨last, hreads, hlast⟩ := reads_of_readAll hread
  obtain ⟨read, hparts, hcolumn, -⟩ := hreads.exists_lexes
  have hbefore : before.toList = read ++ last.rest := hparts
  have hgap := Lexer.isSpace_of_next hlast
  have hend : last.rest = [] → ∀ token ∈ ts.getLast?, ∀ d ∈ (c :: behind.toList).head?,
      token.goesOn d = false := by
    rintro hempty token htoken d hd
    cases hd
    by_contra hgoes
    obtain ⟨rfl, digits, rfl⟩ := hunknown.goesOn_iff.mp (by simpa using hgoes)
    obtain ⟨-, ⟨front, hfront⟩, -⟩ := hreads.of_getLast? htoken
    refine hpoint ⟨rfl, digits, htoken, front, ?_⟩
    rw [hempty, List.append_nil] at hfront
    exact hfront.symm
  have hstart : Lexer.start text =
      { Lexer.start before with rest := (Lexer.start before).rest ++ c :: behind.toList } := by
    unfold Lexer.start
    rw [htext]
  refine ⟨{ last with rest := last.rest ++ c :: behind.toList }, ?_, ?_⟩
  · rw [hstart]
    exact hreads.append hend
  · rw [Lexer.next_unknown hgap hunknown, hcolumn, ← String.length_toList, hbefore,
      List.length_append]
    change Except.error (ScriptError.unknownCharacter c (1 + read.length + last.rest.length)) = _
    congr 2
    omega

/-- A line is read, or it breaks off at the first character that is unknown and is no point that
goes on with a number. Requests for the next token are answered with the tokens in order, and then
with `finish` or with the error again and again. -/
theorem ofText_eq_error_iff_breaksOff :
    (∀ text error, ofText text = .error error → ∃ c column, error = .unknownCharacter c column) ∧
    (∀ text c column, ofText text = .error (.unknownCharacter c column) ↔
      ∃ ts, BreaksOff text column c ts) ∧
    (∀ text column c ts, BreaksOff text column c ts → ∀ count,
      (Lexer.start text).answer count = ts[count]?.elim (.error (.unknownCharacter c column)) .ok) ∧
    ∀ text ts, ofText text = .ok ts → ∀ count,
      (Lexer.start text).answer count = ts[count]?.elim (.ok .finish) .ok := by
  refine ⟨fun text error h => ?_, fun text c column => ⟨fun h => ?_, ?_⟩, ?_, fun text ts h => ?_⟩
  · obtain ⟨ts, last, -, herror⟩ := exists_reads_of_error h
    obtain ⟨gap, c, cs, -, -, -, hunknown⟩ := Lexer.exists_unknown_of_next herror
    exact ⟨c, _, hunknown⟩
  · obtain ⟨ts, last, hreads, herror⟩ := exists_reads_of_error h
    exact ⟨ts, breaksOff_of_reads hreads herror⟩
  · rintro ⟨ts, hbreaks⟩
    obtain ⟨last, hreads, herror⟩ := hbreaks.exists_reads
    rw [ofText, hreads.readAll_eq (by simp [herror, Lexer.Final]), herror]
    rfl
  · intro text column c ts hbreaks count
    obtain ⟨last, hreads, herror⟩ := hbreaks.exists_reads
    rw [hreads.answer_eq (by simp [herror, Lexer.Final]), herror]
  · intro count
    obtain ⟨last, hreads, hlast⟩ := reads_of_readAll h
    rw [hreads.answer_eq (by simp [hlast, Lexer.Final]), hlast]

/-- There is no sign for a remainder. -/
theorem ofText_remainder :
    BreaksOff "x = 1 % 2" 7 '%' [.identifier "x", .assign, .number "1"] ∧
    ofText "x = 1 % 2" = .error (.unknownCharacter '%' 7) ∧
    (Lexer.start "x = 1 % 2").answer 2 = .ok (.number "1") ∧
    ∀ count, (Lexer.start "x = 1 % 2").answer (count + 3) = .error (.unknownCharacter '%' 7) := by
  have hlexes : Lexes ['x', ' ', '=', ' ', '1', ' '] [.identifier "x", .assign, .number "1"] := by
    have hone : Decimal.Numeral ['1'] := ⟨rfl, by simp⟩
    have hname : IsWord ['x'] := ⟨rfl, by simp⟩
    have hnumber := Lexes.numeral hone (by simp [continuesNumber]) (.blank .nil)
    exact .word hname (by simp [continuesWord]) (.blank (.sign rfl (.blank hnumber)))
  have hbreaks : BreaksOff "x = 1 % 2" 7 '%' [.identifier "x", .assign, .number "1"] :=
    ⟨"x = 1 ", " 2", rfl, rfl, hlexes 1, ⟨rfl, rfl, by decide⟩, fun h => absurd h.1 (by decide)⟩
  obtain ⟨-, hread, hanswers, -⟩ := ofText_eq_error_iff_breaksOff
  refine ⟨hbreaks, (hread _ _ _).mpr ⟨_, hbreaks⟩, hanswers _ _ _ _ hbreaks 2, fun count => ?_⟩
  exact hanswers _ _ _ _ hbreaks (count + 3)

end Token

end FrameScript
