import FrameScript.ScriptError

/-!
# Reading tokens

A reader walks over one line and counts columns from one. Words and numbers are as long as they can
be. A character that starts no token is an error and is never passed, so the error stays.
-/

namespace FrameScript

/-- The white space between tokens. -/
def Token.isSpace (c : Char) : Bool :=
  c == ' ' || c == '\t' || c == '\r' || c == '\n'

/-- Whether a character starts a word. -/
def Token.startsWord (c : Char) : Bool :=
  c.isAlpha || c == '_'

/-- Whether a character continues a word. -/
def Token.continuesWord (c : Char) : Bool :=
  c.isAlphanum || c == '_'

/-- Whether a character continues a number. -/
def Token.continuesNumber (c : Char) : Bool :=
  c.isDigit || c == '.'

/-- A place in a line: what is left of it, and the column of the next character. -/
structure Lexer where
  rest : List Char
  column : Nat := 1
  deriving DecidableEq, Repr

namespace Lexer

/-- The beginning of a line. -/
def start (text : String) : Lexer where
  rest := text.toList

/-- The place behind a number of characters. -/
def skip (lexer : Lexer) (count : Nat) : Lexer where
  rest := lexer.rest.drop count
  column := lexer.column + count

/-- The place behind white space. -/
def skipSpace (lexer : Lexer) : Lexer :=
  lexer.skip (lexer.rest.takeWhile Token.isSpace).length

/-- The token at a place that is not white space, and the place behind it. -/
def read (lexer : Lexer) : Except ScriptError Token × Lexer :=
  match lexer.rest with
  | [] => (.ok .finish, lexer)
  | c :: _ =>
    if Token.startsWord c then
      let word := lexer.rest.takeWhile Token.continuesWord
      (.ok (Token.ofWord (String.ofList word)), lexer.skip word.length)
    else if c.isDigit then
      let number := lexer.rest.takeWhile Token.continuesNumber
      (.ok (.number (String.ofList number)), lexer.skip number.length)
    else
      match Token.ofSign? c with
      | some token => (.ok token, lexer.skip 1)
      | none => (.error (.unknownCharacter c lexer.column), lexer)

/-- The next token, and the place behind it. At the end of the line it is `finish`, again and
again. -/
def next (lexer : Lexer) : Except ScriptError Token × Lexer :=
  lexer.skipSpace.read

/-- Skipping characters makes the rest shorter by as many as there are. -/
theorem length_skip (lexer : Lexer) (count : Nat) :
    (lexer.skip count).rest.length = lexer.rest.length - count := by
  simp [skip]

/-- Skipping a run that is not empty uses up characters. -/
theorem length_skip_takeWhile_lt {lexer : Lexer} {c : Char} {rest : List Char} {p : Char → Bool}
    (hrest : lexer.rest = c :: rest) (hp : p c = true) :
    (lexer.skip (lexer.rest.takeWhile p).length).rest.length < lexer.rest.length := by
  have hrun : 0 < (lexer.rest.takeWhile p).length := by simp [hrest, hp]
  have hall : 0 < lexer.rest.length := by simp [hrest]
  rw [length_skip]
  omega

/-- Whatever is read besides the end of the line uses up at least one character. -/
theorem length_read_lt {lexer after : Lexer} {token : Token}
    (h : lexer.read = (.ok token, after)) (hne : token ≠ .finish) :
    after.rest.length < lexer.rest.length := by
  unfold read at h
  split at h
  · cases h
    exact absurd rfl hne
  · next c rest hrest =>
    split at h
    · next hc =>
      cases h
      refine length_skip_takeWhile_lt hrest ?_
      simp only [Token.startsWord, Token.continuesWord, Char.isAlphanum, Bool.or_eq_true] at hc ⊢
      exact hc.imp_left .inl
    · split at h
      · next hc =>
        cases h
        exact length_skip_takeWhile_lt hrest (by simp [Token.continuesNumber, hc])
      · split at h
        · cases h
          simp [length_skip, hrest]
        · cases h

/-- The next token uses up at least one character, unless it is the end of the line. -/
theorem length_next_lt {lexer after : Lexer} {token : Token}
    (h : lexer.next = (.ok token, after)) (hne : token ≠ .finish) :
    after.rest.length < lexer.rest.length := by
  have hread := length_read_lt h hne
  simp only [skipSpace, length_skip] at hread
  omega

end Lexer

/-- The tokens from a place to the end of the line. -/
def Token.readAll (lexer : Lexer) : Except ScriptError (List Token) :=
  match h : lexer.next with
  | (.error error, _) => .error error
  | (.ok token, after) =>
    if hne : token = .finish then .ok []
    else
      have := Lexer.length_next_lt h hne
      (Token.readAll after).map (token :: ·)
termination_by lexer.rest.length

/-- The tokens of a line. The first unknown character is an error of the whole line. -/
def Token.ofText (text : String) : Except ScriptError (List Token) :=
  Token.readAll (.start text)

end FrameScript
