import FrameScript.Text.Lines
import Mathlib

/-!
# The lines of a text

Splitting a text into lines loses nothing but line endings, and a beginning of the text that ends
with a line has the first lines of the text.
-/

namespace FrameScript.Text

/-- Splitting into lines drops line endings alone. -/
theorem count_splitLines (cs : List Char) :
    ((splitLines cs).map (List.count '-')).sum = cs.count '-' := by
  fun_induction splitLines cs with
  | case1 => rfl
  | case2 rest ih => simpa using ih
  | case3 rest ih => simpa using ih
  | case4 c rest hreturn hfeed hlines ih =>
    simp only [hlines, List.map_nil, List.sum_nil] at ih
    simp [List.count_cons, ← ih]
  | case5 c rest hreturn hfeed line lines hlines ih =>
    simp only [hlines, List.map_cons, List.sum_cons] at ih
    simp only [List.map_cons, List.sum_cons, List.count_cons, ← ih]
    omega

/-! ### The first lines -/

/-- The first lines of characters, with their endings. -/
def firstOf : Nat → List Char → List Char
  | 0, _ => []
  | _ + 1, [] => []
  | n + 1, '\n' :: rest => '\n' :: firstOf n rest
  | n + 1, c :: rest => c :: firstOf (n + 1) rest

/-- The first lines of a text, with their endings. -/
def firstLines (n : Nat) (text : String) : String :=
  String.ofList (firstOf n text.toList)

/-- A line feed ends the first line. -/
theorem firstOf_feed (n : Nat) (rest : List Char) :
    firstOf (n + 1) ('\n' :: rest) = '\n' :: firstOf n rest := by
  rw [firstOf]

/-- Any other character belongs to the first line. -/
theorem firstOf_cons {c : Char} (h : c ≠ '\n') (n : Nat) (rest : List Char) :
    firstOf (n + 1) (c :: rest) = c :: firstOf (n + 1) rest := by
  rw [firstOf]
  exact h

/-- The first lines start as all lines do. -/
theorem head?_firstOf (n : Nat) (cs : List Char) : (firstOf (n + 1) cs).head? = cs.head? := by
  cases cs with
  | nil => rfl
  | cons c rest =>
    by_cases hfeed : c = '\n'
    · subst hfeed
      rw [firstOf_feed]
      rfl
    · rw [firstOf_cons hfeed]
      rfl

/-- A character that ends no line belongs to the first line of what follows. -/
theorem splitLines_cons {c : Char} {rest : List Char} (hfeed : c ≠ '\n')
    (hreturn : c = '\r' → rest.head? ≠ some '\n') :
    splitLines (c :: rest) =
      match splitLines rest with
      | [] => [[c]]
      | line :: lines => (c :: line) :: lines := by
  rw [splitLines.eq_def]
  split
  · next heq => cases heq
  · next heq =>
    cases heq
    exact absurd rfl (hreturn rfl)
  · next heq =>
    cases heq
    exact absurd rfl hfeed
  · next heq =>
    cases heq
    rfl

/-- A carriage return at the end of a line still stands before its line feed. -/
theorem head?_firstOf_ne {c : Char} {rest : List Char}
    (h : ∀ others, c = '\r' → rest = '\n' :: others → False) (n : Nat) :
    c = '\r' → (firstOf (n + 1) rest).head? ≠ some '\n' := by
  rintro rfl hnext
  rw [head?_firstOf] at hnext
  obtain ⟨others, rfl⟩ := List.head?_eq_some_iff.mp hnext
  exact h others rfl rfl

/-- The first lines are split as they are among all lines. -/
theorem splitLines_firstOf (n : Nat) (cs : List Char) :
    splitLines (firstOf n cs) = (splitLines cs).take n := by
  cases n with
  | zero => rw [firstOf, splitLines, List.take_zero]
  | succ n =>
    fun_induction splitLines cs generalizing n with
    | case1 => rfl
    | case2 rest ih =>
      rw [firstOf_cons (by decide), firstOf_feed, splitLines, List.take_succ_cons]
      cases n with
      | zero => rw [firstOf, splitLines, List.take_zero]
      | succ n => rw [ih n]
    | case3 rest ih =>
      rw [firstOf_feed, splitLines, List.take_succ_cons]
      cases n with
      | zero => rw [firstOf, splitLines, List.take_zero]
      | succ n => rw [ih n]
    | case4 c rest hreturn hfeed hlines ih =>
      rw [firstOf_cons hfeed, splitLines_cons hfeed (head?_firstOf_ne hreturn n), ih n, hlines]
      simp
    | case5 c rest hreturn hfeed line lines hlines ih =>
      rw [firstOf_cons hfeed, splitLines_cons hfeed (head?_firstOf_ne hreturn n), ih n, hlines]
      simp

/-- The first lines of a text are lines as they are in the whole text. -/
theorem lines_firstLines (n : Nat) (text : String) :
    lines (firstLines n text) = (lines text).take n := by
  rw [lines, firstLines, String.toList_ofList, splitLines_firstOf, lines, List.map_take]

end FrameScript.Text
