import FrameScript.Proofs.Decimal.Shortest
import FrameScript.Token.Lexer

/-!
# Literals are read back

The text of a number that is finite with a clear sign bit is a numeral: it starts with a digit and
has only digits and points. Reading it gives the number, and numerals denote no other finite
numbers.
-/

namespace FrameScript.Decimal

open Float.Model Float.Model.UnpackedFloat

/-! ### The value of digits -/

/-- The value of digits is the one that the library gives them. -/
theorem digitsValue_eq (digits : List Char) : digitsValue digits = Nat.ofDigitChars 10 digits 0 :=
  rfl

/-- The digits of a number have its value. -/
@[simp] theorem digitsValue_toDigits (n : Nat) : digitsValue (Nat.toDigits 10 n) = n :=
  Nat.ofDigitChars_ten_toDigits

/-- Zeros behind the digits multiply the value. -/
theorem digitsValue_append_zeros (digits : List Char) (k : Nat) :
    digitsValue (digits ++ List.replicate k '0') = digitsValue digits * 10 ^ k := by
  rw [digitsValue_eq, Nat.ofDigitChars_append, Nat.ofDigitChars_replicate_zero, Nat.mul_comm]
  rfl

/-- Zeros before the digits do not count. -/
theorem digitsValue_zeros_append (k : Nat) (digits : List Char) :
    digitsValue (List.replicate k '0' ++ digits) = digitsValue digits := by
  rw [digitsValue_eq, Nat.ofDigitChars_append, Nat.ofDigitChars_replicate_zero, Nat.mul_zero]
  rfl

/-! ### Numerals -/

/-- A number goes on with every digit. -/
theorem continuesNumber_of_isDigit {c : Char} (h : c.isDigit = true) :
    Token.continuesNumber c = true := by
  simp [Token.continuesNumber, h]

/-- A digit followed by digits and points. -/
def Numeral : List Char → Prop
  | [] => False
  | c :: rest => c.isDigit = true ∧ ∀ d ∈ rest, Token.continuesNumber d = true

/-- A numeral is read as one number to its end. -/
theorem Numeral.continuesNumber {cs : List Char} (h : Numeral cs) :
    ∀ c ∈ cs, Token.continuesNumber c = true := by
  cases cs with
  | nil => exact h.elim
  | cons c rest =>
    intro d hd
    rcases List.mem_cons.mp hd with rfl | hd
    · exact continuesNumber_of_isDigit h.1
    · exact h.2 d hd

section

variable {digits fraction cs : List Char}

/-- Digits behind digits, and any digits and points behind those, are a numeral. -/
theorem Numeral.of_digits (hne : digits ≠ []) (hdigits : ∀ c ∈ digits, c.isDigit = true)
    (hcs : ∀ c ∈ cs, Token.continuesNumber c = true) : Numeral (digits ++ cs) := by
  cases digits with
  | nil => exact absurd rfl hne
  | cons c rest =>
    refine ⟨hdigits c (by simp), fun d hd => ?_⟩
    rcases List.mem_append.mp hd with hd | hd
    · exact continuesNumber_of_isDigit (hdigits d (List.mem_cons_of_mem _ hd))
    · exact hcs d hd

/-- A digit is neither a sign nor the beginning of a name. -/
theorem readName?_of_isDigit {c : Char} (h : c.isDigit = true) (rest : List Char) :
    readName? (c :: rest) = none := by
  have hlower : c.toLower = c := by
    refine Char.toLower_eq_of_not_isUpper fun hupper => ?_
    simp only [Char.isDigit, Char.isUpper, Bool.and_eq_true, decide_eq_true_eq] at h hupper
    grind
  have hname (name : Char) (others : List Char) (hne : name.isDigit = false) :
      ¬ String.ofList (c :: rest.map Char.toLower) = String.ofList (name :: others) := by
    intro heq
    have hlists := String.ofList_injective heq
    simp only [List.cons.injEq] at hlists
    rw [hlists.1, hne] at h
    cases h
  unfold readName?
  dsimp only
  rw [List.map_cons, hlower, if_neg, if_neg]
  · exact hname 'n' ['a', 'n'] rfl
  · rintro (heq | heq)
    · exact hname 'i' ['n', 'f'] rfl heq
    · exact hname 'i' ['n', 'f', 'i', 'n', 'i', 't', 'y'] rfl heq

/-- A numeral is read as a decimal. -/
theorem Numeral.read? (h : Numeral cs) :
    Decimal.read? (String.ofList cs) = (readDecimal? cs).map fun (m, e) => nearest m e := by
  cases cs with
  | nil => exact h.elim
  | cons c rest =>
    obtain ⟨hc, -⟩ := h
    have hsign : splitSign (c :: rest) = (false, c :: rest) := by
      unfold splitSign
      split
      · next heq =>
        cases heq
        cases hc
      · next heq =>
        cases heq
        cases hc
      · rfl
    unfold Decimal.read?
    rw [String.toList_ofList, hsign]
    simp [readName?_of_isDigit hc]

/-- Digits alone are a whole number. -/
theorem readDecimal?_whole (hne : digits ≠ []) (hdigits : ∀ c ∈ digits, c.isDigit = true) :
    readDecimal? digits = some (digitsValue digits, 0) := by
  have htake : digits.takeWhile Char.isDigit = digits := List.takeWhile_eq_self_iff.mpr hdigits
  have hdrop : digits.dropWhile Char.isDigit = [] := List.dropWhile_eq_nil_iff.mpr hdigits
  simp [readDecimal?, List.span_eq_takeWhile_dropWhile, htake, hdrop, splitFraction, hne]

/-- Digits on both sides of a point are a fraction with as many places as digits behind it. -/
theorem readDecimal?_fraction (hne : digits ≠ []) (hdigits : ∀ c ∈ digits, c.isDigit = true)
    (hfraction : ∀ c ∈ fraction, c.isDigit = true) :
    readDecimal? (digits ++ '.' :: fraction) =
      some (digitsValue (digits ++ fraction), -(fraction.length : Int)) := by
  have htake : (digits ++ '.' :: fraction).takeWhile Char.isDigit = digits := by
    rw [List.takeWhile_append_of_pos hdigits, List.takeWhile_cons_of_neg (by decide),
      List.append_nil]
  have hdrop : (digits ++ '.' :: fraction).dropWhile Char.isDigit = '.' :: fraction := by
    rw [List.dropWhile_append_of_pos hdigits, List.dropWhile_cons_of_neg (by decide)]
  have htake' : fraction.takeWhile Char.isDigit = fraction :=
    List.takeWhile_eq_self_iff.mpr hfraction
  have hdrop' : fraction.dropWhile Char.isDigit = [] := List.dropWhile_eq_nil_iff.mpr hfraction
  simp [readDecimal?, List.span_eq_takeWhile_dropWhile, htake, hdrop, splitFraction, htake',
    hdrop', hne]

end

/-! ### Reading the text of a literal -/

section

variable {m c : Nat} {e : Int}

/-- A decimal in the span of a binary number is read as that number. -/
theorem InSpan.ofScientific (hlegal : Legal m e) {s : Int} (hs : s ≤ 0)
    (h : InSpan m e (c * (10 : ℚ) ^ s)) :
    UnpackedFloat.ofScientific Float.Model.Format.binary64 c s =
      .finite .positive m e hlegal.pos := by
  have hc : 0 < c := by
    refine Nat.pos_of_ne_zero fun hzero => ?_
    have htiny := h.tiny_le hlegal
    rw [hzero, Nat.cast_zero, zero_mul] at htiny
    exact absurd htiny (not_le.mpr (by positivity))
  obtain ⟨k, rfl⟩ : ∃ k : Nat, s = -k := ⟨(-s).toNat, by omega⟩
  rcases Nat.eq_zero_or_pos k with rfl | hk
  · refine ofScientific_whole hlegal hc ?_
    simpa using h
  · refine ofScientific_fraction hlegal hc hk ?_
    rwa [zpow_neg, zpow_natCast, ← div_eq_mul_inv] at h

end

/-- A numeral that is read as a decimal of a value, with an exponent that is not positive. -/
def Spells (cs : List Char) (value : ℚ) : Prop :=
  Numeral cs ∧ ∃ m e, readDecimal? cs = some (m, e) ∧ e ≤ 0 ∧ (m : ℚ) * 10 ^ e = value

section

variable {digits fraction : List Char}

/-- Zeros are digits. -/
theorem isDigit_of_mem_zeros {c : Char} {k : Nat} (h : c ∈ List.replicate k '0') :
    c.isDigit = true := by
  rw [List.eq_of_mem_replicate h]
  rfl

/-- Digits and zeros behind them spell a multiple of a power of ten. -/
theorem spells_whole (hne : digits ≠ []) (hdigits : ∀ c ∈ digits, c.isDigit = true) (k : Nat) :
    Spells (digits ++ List.replicate k '0') (digitsValue digits * 10 ^ k) := by
  have hall : ∀ c ∈ digits ++ List.replicate k '0', c.isDigit = true := by
    intro c hc
    exact (List.mem_append.mp hc).elim (hdigits c) isDigit_of_mem_zeros
  refine ⟨.of_digits hne hdigits fun c hc => continuesNumber_of_isDigit (isDigit_of_mem_zeros hc),
    _, 0, readDecimal?_whole (by simp [hne]) hall, Int.le_refl 0, ?_⟩
  rw [digitsValue_append_zeros, zpow_zero, mul_one, Nat.cast_mul, Nat.cast_pow]
  rfl

/-- Digits around a point spell a fraction with as many places as digits behind the point. -/
theorem spells_fraction (hne : digits ≠ []) (hdigits : ∀ c ∈ digits, c.isDigit = true)
    (hfraction : ∀ c ∈ fraction, c.isDigit = true) :
    Spells (digits ++ '.' :: fraction)
      (digitsValue (digits ++ fraction) * 10 ^ (-(fraction.length : Int))) := by
  refine ⟨.of_digits hne hdigits fun c hc => ?_, _, _,
    readDecimal?_fraction hne hdigits hfraction, by omega, rfl⟩
  rcases List.mem_cons.mp hc with rfl | hc
  · rfl
  · exact continuesNumber_of_isDigit (hfraction c hc)

/-- The text of a decimal without an exponent spells the decimal. -/
theorem spells_positionalText (hne : digits ≠ []) (hdigits : ∀ c ∈ digits, c.isDigit = true)
    (s : Int) :
    Spells (plain.positionalText digits s).toList (digitsValue digits * 10 ^ s) := by
  unfold Format.positionalText
  split
  · next hs =>
    have htext : (String.ofList (digits ++ List.replicate s.toNat '0') ++ plain.whole).toList =
        digits ++ List.replicate s.toNat '0' := by
      simp [plain]
    have hwhole := spells_whole hne hdigits s.toNat
    rwa [← zpow_natCast, Int.toNat_of_nonneg hs, ← htext] at hwhole
  · next hs =>
    dsimp only
    split
    · next hplaces =>
      -- the point stands between the digits
      rw [String.toList_ofList]
      set whole := digits.take (digits.length - (-s).toNat)
      set fraction := digits.drop (digits.length - (-s).toNat)
      have hwholene : whole ≠ [] := by
        refine List.ne_nil_of_length_pos ?_
        rw [List.length_take]
        omega
      have hplace : -(fraction.length : Int) = s := by
        rw [List.length_drop]
        omega
      have hwhole : ∀ c ∈ whole, c.isDigit = true := fun c hc => hdigits c (List.mem_of_mem_take hc)
      have hfraction : ∀ c ∈ fraction, c.isDigit = true :=
        fun c hc => hdigits c (List.mem_of_mem_drop hc)
      have hspells := spells_fraction hwholene hwhole hfraction
      rwa [List.take_append_drop, hplace] at hspells
    · next hplaces =>
      -- the point stands before the digits, and zeros fill the places between
      rw [String.toList_ofList]
      set zeros := List.replicate ((-s).toNat - digits.length) '0'
      have hplace : -((zeros ++ digits).length : Int) = s := by
        rw [List.length_append, List.length_replicate]
        omega
      have hvalue : digitsValue (['0'] ++ (zeros ++ digits)) = digitsValue digits :=
        digitsValue_zeros_append ((-s).toNat - digits.length + 1) digits
      have hzero : ∀ c ∈ ['0'], c.isDigit = true := fun c hc => isDigit_of_mem_zeros hc (k := 1)
      have hfraction : ∀ c ∈ zeros ++ digits, c.isDigit = true := fun c hc =>
        (List.mem_append.mp hc).elim isDigit_of_mem_zeros (hdigits c)
      have hspells := spells_fraction (List.cons_ne_nil '0' []) hzero hfraction
      rwa [hplace, hvalue] at hspells

end

/-- The text of a decimal that is not negative. -/
theorem decimalText_plain (c : Nat) (s : Int) :
    plain.decimalText c s = plain.positionalText (Nat.toDigits 10 c) s :=
  rfl

/-- The text of a literal is a numeral, and reading it gives the literal. -/
theorem isLiteral.text {x : Float} (h : isLiteral x = true) :
    Numeral (plain.text x).toList ∧ read? (plain.text x) = some x := by
  have hdigits (c : Nat) : ∀ d ∈ Nat.toDigits 10 c, d.isDigit = true := by
    intro d hd
    exact Nat.isDigit_of_mem_toDigits (by decide) (by decide) hd
  -- A decimal that denotes the number settles both parts.
  have hread (c : Nat) (s : Int) (htext : plain.text x = plain.decimalText c s)
      (hvalue : ∀ (m : Nat) (e : Int), e ≤ 0 → (m : ℚ) * 10 ^ e = c * 10 ^ s → nearest m e = x) :
      Numeral (plain.text x).toList ∧ read? (plain.text x) = some x := by
    obtain ⟨hnumeral, m, e, hdecimal, he, hme⟩ :=
      spells_positionalText Nat.toDigits_ne_nil (hdigits c) s
    rw [digitsValue_toDigits] at hme
    rw [htext, decimalText_plain]
    refine ⟨hnumeral, ?_⟩
    rw [← String.ofList_toList (s := plain.positionalText _ _), hnumeral.read?, hdecimal]
    exact congrArg some (hvalue m e he hme)
  unfold isLiteral at h
  split at h
  · next hzero =>
    refine hread 0 0 (by simp [Format.text, hzero, signText]) fun m e _ hme => ?_
    rw [Nat.cast_zero, zero_mul, mul_eq_zero] at hme
    obtain rfl : m = 0 := by
      rcases hme with hm | hpower
      · exact_mod_cast hm
      · exact absurd hpower (by positivity)
    exact ofModel_pack hzero
  · next m e hpos hfinite =>
    have hlegal := legal_of_unpack hfinite
    refine hread (shortest .up m e).1 (shortest .up m e).2
      (by simp [Format.text, hfinite, signText, plain]) fun c s hs hcs => ?_
    have hspan : InSpan m e ((shortest .up m e).1 * (10 : ℚ) ^ (shortest .up m e).2) :=
      shortest_inSpan hpos e
    rw [← hcs] at hspan
    unfold nearest Float.Model.ofScientific
    rw [hspan.ofScientific hlegal hs]
    exact ofModel_pack hfinite
  · cases h

/-! ### Numerals denote literals -/

/-- Rounding keeps the sign. -/
theorem signOf?_roundWithAccuracy (sign : Sign) (m : Nat) (e : Int) (acc : Accuracy) :
    signOf? (roundWithAccuracy Float.Model.Format.binary64 sign m e acc) = some sign := by
  unfold roundWithAccuracy
  dsimp only
  split <;> rfl

/-- A decimal without a sign is positive. -/
theorem signOf?_ofScientific (m : Nat) (e : Int) :
    signOf? (UnpackedFloat.ofScientific Float.Model.Format.binary64 m e) = some .positive := by
  unfold UnpackedFloat.ofScientific
  split
  · rfl
  · split
    · rfl
    · split
      · rfl
      · split
        · exact signOf?_roundWithAccuracy _ _ _ _
        · exact signOf?_roundWithAccuracy _ _ _ _

/-- A finite number that a numeral denotes is a literal. -/
theorem Numeral.isLiteral {cs : List Char} {x : Float} (h : Numeral cs)
    (hread : Decimal.read? (String.ofList cs) = some x) (hfinite : x.isFinite = true) :
    Decimal.isLiteral x = true := by
  rw [h.read?] at hread
  obtain ⟨⟨m, e⟩, -, rfl⟩ := Option.map_eq_some_iff.mp hread
  exact isLiteral_pack (signOf?_ofScientific m e) hfinite

/-! ### Equality of numbers -/

/-- Whether a number is zero with its sign bit set. -/
def isNegativeZero (x : Float) : Bool :=
  match x.toModel.unpack with
  | .zero .negative => true
  | _ => false

/-- A literal is neither infinite nor undefined. -/
theorem isLiteral.isFinite {x : Float} (h : isLiteral x = true) : x.isFinite = true := by
  change x.toModel.unpack.isFinite = true
  unfold isLiteral at h
  split at h
  · next hzero => rw [hzero]; rfl
  · next hfinite => rw [hfinite]; rfl
  · cases h

/-- A literal is equal to itself. -/
theorem isLiteral.beq_self {x : Float} (h : isLiteral x = true) : (x == x) = true := by
  change x.toModel.unpack.beq x.toModel.unpack = true
  rw [beq_iff_ne_notANumber_and_eq]
  have hnumber : x.toModel.unpack ≠ .notANumber := by
    intro heq
    simp [isLiteral, heq] at h
  exact ⟨hnumber, hnumber, .inl rfl⟩

/-- What is equal to a literal is a literal or negative zero. -/
theorem isLiteral.of_beq {x y : Float} (hx : isLiteral x = true) (h : (x == y) = true) :
    isLiteral y = true ∨ isNegativeZero y = true := by
  change x.toModel.unpack.beq y.toModel.unpack = true at h
  rw [beq_iff_ne_notANumber_and_eq] at h
  obtain ⟨-, -, heq | ⟨-, hy⟩ | ⟨hzero, -⟩⟩ := h
  · left
    rw [isLiteral, heq] at hx
    exact hx
  · right
    rw [isNegativeZero, hy]
  · rw [isLiteral, hzero] at hx
    cases hx

/-- The text of negative zero. -/
theorem isNegativeZero.text {x : Float} (h : isNegativeZero x = true) :
    plain.text x = "-0" := by
  unfold isNegativeZero at h
  split at h
  · next hzero =>
    unfold Format.text
    rw [hzero]
    rfl
  · cases h

end FrameScript.Decimal
