import FrameScript.Config
import FrameScript.Proofs.Decimal.Literals

/-!
# Lines of a configuration

A line gives a value to a key if an equals sign stands between them and it is no comment. The values
that a key takes are described here without the functions that read them, and the functions are
shown to agree with the descriptions.
-/

namespace FrameScript.Config

/-- A line gives a value to a key: without the blanks around it, it does not start with a hash sign,
and its first equals sign stands between the key and the value. -/
def Gives (line key value : String) : Prop :=
  ∃ before after : List Char,
    (Text.trim line).toList = before ++ '=' :: after ∧ '=' ∉ before ∧
      (Text.trim line).toList.head? ≠ some '#' ∧
      key = Text.trim (.ofList before) ∧ value = Text.trim (.ofList after)

/-- A text denotes a whole number: it is one or more decimal digits, with or without a plus sign in
front of them. -/
def Denotes (text : String) (n : Nat) : Prop :=
  ∃ digits : List Char, (text.toList = digits ∨ text.toList = '+' :: digits) ∧ digits ≠ [] ∧
    (∀ c ∈ digits, c.isDigit = true) ∧ n = Nat.ofDigitChars 10 digits 0

/-- The keys that have a meaning. -/
def keys : List String :=
  ["script", "tickrate", "maxticks", "dumpast", "dumpbytecode", "loglevel"]

/-- A value does not fit its key: it is no rate from one on that 32 bits hold, no number of ticks
that 64 bits hold, or no truth value. -/
def Unfit (key value : String) : Prop :=
  key = "tickrate" ∧ (∀ n, Denotes value n → ¬ (1 ≤ n ∧ n < 2 ^ 32)) ∨
    key = "maxticks" ∧ (∀ n, Denotes value n → ¬ n < 2 ^ 64) ∨
      (key = "dumpast" ∨ key = "dumpbytecode") ∧ value ≠ "true" ∧ value ≠ "false"

/-! ### What a line gives -/

section

variable {line key value : String} {cs before after : List Char}

/-- What is before the first equals sign. -/
theorem takeWhile_ne_equals (h : '=' ∉ before) :
    (before ++ '=' :: after).takeWhile (· != '=') = before := by
  rw [List.takeWhile_append_of_pos]
  · simp
  · intro c hc
    have hne : c ≠ '=' := fun heq => h (heq ▸ hc)
    simpa using hne

/-- What the first equals sign starts. -/
theorem dropWhile_ne_equals (h : '=' ∉ before) :
    (before ++ '=' :: after).dropWhile (· != '=') = '=' :: after := by
  rw [List.dropWhile_append_of_pos]
  · simp
  · intro c hc
    have hne : c ≠ '=' := fun heq => h (heq ▸ hc)
    simpa using hne

/-- Characters that are cut at their first equals sign. -/
theorem eq_of_dropWhile_ne_equals {c : Char} (h : cs.dropWhile (· != '=') = c :: after) :
    cs = cs.takeWhile (· != '=') ++ '=' :: after ∧ '=' ∉ cs.takeWhile (· != '=') := by
  have hhead := List.head?_dropWhile_not (· != '=') cs
  rw [h] at hhead
  obtain rfl : c = '=' := by simpa using hhead
  constructor
  · rw [← h, List.takeWhile_append_dropWhile]
  · intro hmem
    simpa using List.mem_takeWhile_imp hmem

/-- Trimming a text is trimming its characters. -/
theorem trim_ofList (cs : List Char) :
    Text.trim (.ofList cs) = .ofList (Text.trimChars cs) := by
  rw [Text.trim, String.toList_ofList]

/-- A line is read as an option exactly if it gives a value to a key. -/
theorem ofText_eq_option_iff : Line.ofText line = .option key value ↔ Gives line key value := by
  have htrim : (Text.trim line).toList = Text.trimChars line.toList := String.toList_ofList
  simp only [Line.ofText, Gives, htrim, trim_ofList]
  generalize Text.trimChars line.toList = cs
  constructor
  · intro h
    split at h
    · cases h
    · cases h
    · next hnotEmpty hnotComment =>
      split at h
      · cases h
      · next c after hcut =>
        cases h
        obtain ⟨hcs, hnone⟩ := eq_of_dropWhile_ne_equals hcut
        refine ⟨_, after, hcs, hnone, ?_, rfl, rfl⟩
        intro hhead
        obtain ⟨rest, hrest⟩ := List.head?_eq_some_iff.mp hhead
        exact hnotComment rest hrest
  · rintro ⟨before, after, rfl, hnone, hhead, rfl, rfl⟩
    split
    · next hempty => simp at hempty
    · next rest hcomment => simp [hcomment] at hhead
    · rw [dropWhile_ne_equals hnone, takeWhile_ne_equals hnone]

/-- What a line gives is one value to one key. -/
theorem Gives.unique {key' value' : String} (h : Gives line key value)
    (h' : Gives line key' value') : key = key' ∧ value = value' := by
  rw [← ofText_eq_option_iff] at h h'
  rw [h] at h'
  exact Line.option.inj h'

/-- A line that gives nothing changes nothing. -/
theorem apply_of_not_gives {c : Config} (h : ∀ key value, ¬ Gives line key value) :
    c.apply (Line.ofText line) = .ok c := by
  cases hline : Line.ofText line with
  | skipped => rfl
  | stray text => rfl
  | option key value => exact absurd (ofText_eq_option_iff.mp hline) (h key value)

end

/-! ### What a value denotes -/

section

variable {text value key : String} {n bound : Nat} {b : Bool}

/-- Characters without a plus sign in front. -/
def withoutPlus : List Char → List Char
  | '+' :: rest => rest
  | cs => cs

/-- A text denotes a natural number by its decimal digits, of which there is at least one. -/
theorem denotes_iff : Denotes text n ↔ withoutPlus text.toList ≠ [] ∧
    (∀ c ∈ withoutPlus text.toList, c.isDigit = true) ∧
      n = Nat.ofDigitChars 10 (withoutPlus text.toList) 0 := by
  constructor
  · rintro ⟨digits, htext, hne, hall, rfl⟩
    have hsame : withoutPlus text.toList = digits := by
      rcases htext with htext | htext
      · rw [htext, withoutPlus]
        rintro rest rfl
        exact absurd (hall '+' (by simp)) (by decide)
      · rw [htext, withoutPlus]
    rw [hsame]
    exact ⟨hne, hall, rfl⟩
  · rintro ⟨hne, hall, rfl⟩
    refine ⟨withoutPlus text.toList, ?_, hne, hall, rfl⟩
    unfold withoutPlus
    split
    · next rest htext => exact .inr htext
    · exact .inl rfl

/-- A number is read from its digits unless it exceeds the bound. -/
theorem readNatural?_eq : readNatural? bound text =
    if (withoutPlus text.toList).isEmpty || !(withoutPlus text.toList).all Char.isDigit then none
    else if Decimal.digitsValue (withoutPlus text.toList) < bound then
      some (Decimal.digitsValue (withoutPlus text.toList))
    else none :=
  rfl

/-- What is read is what the text denotes, if that is below the bound. -/
theorem readNatural?_eq_some_iff :
    readNatural? bound text = some n ↔ Denotes text n ∧ n < bound := by
  rw [readNatural?_eq, denotes_iff, Decimal.digitsValue_eq]
  generalize withoutPlus text.toList = digits
  split
  · next hbad =>
    simp only [reduceCtorEq, false_iff]
    rintro ⟨⟨hne, hall, -⟩, -⟩
    simp [hne, List.all_eq_true.mpr hall] at hbad
  · next hgood =>
    obtain ⟨hne, hall⟩ : digits ≠ [] ∧ ∀ c ∈ digits, c.isDigit = true := by simpa using hgood
    split
    · next hlt =>
      simp only [Option.some.injEq]
      constructor
      · rintro rfl
        exact ⟨⟨hne, hall, rfl⟩, hlt⟩
      · rintro ⟨⟨-, -, rfl⟩, -⟩
        rfl
    · next hle =>
      simp only [reduceCtorEq, false_iff]
      rintro ⟨⟨-, -, rfl⟩, hlt⟩
      exact hle hlt

/-- The rates that are read are positive numbers of 32 bits. -/
theorem readRate?_eq_some_iff :
    readRate? text = some n ↔ Denotes text n ∧ 1 ≤ n ∧ n < 2 ^ 32 := by
  rw [readRate?, Option.filter_eq_some_iff, readNatural?_eq_some_iff, and_assoc]
  have hrange : n < 1 <<< 32 ∧ decide (n ≠ 0) = true ↔ 1 ≤ n ∧ n < 2 ^ 32 := by
    simp only [decide_eq_true_eq]
    omega
  rw [hrange]

/-- A truth value is read from its own text only. -/
theorem readTruth?_eq_some_iff : readTruth? text = some b ↔ text = Document.truthText b := by
  unfold readTruth?
  split
  · next h =>
    subst h
    cases b <;> decide
  · next htrue =>
    split
    · next h =>
      subst h
      cases b <;> decide
    · next hfalse =>
      cases b
      · simpa [Document.truthText] using hfalse
      · simpa [Document.truthText] using htrue

/-- Any other text than the two is refused as a truth value. -/
theorem readTruth?_eq_none_iff : readTruth? text = none ↔ text ≠ "true" ∧ text ≠ "false" := by
  rw [Option.eq_none_iff_forall_ne_some]
  simp only [ne_eq, readTruth?_eq_some_iff, Bool.forall_bool]
  exact and_comm

end

end FrameScript.Config
