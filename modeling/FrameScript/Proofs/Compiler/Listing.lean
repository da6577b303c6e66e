import FrameScript.Proofs.Compiler.Shape
import FrameScript.Proofs.Syntax.RoundTrip

/-!
# Listings show everything

An instruction can be read back from its line in a listing, provided that the name of a call is a
word and that a number is a literal. Loaded programs contain no other names and numbers, so that two
of them have the same listing only if they were compiled to the same function.
-/

namespace FrameScript

/-! ### Runs of characters -/

/-- A run of characters that something else follows is found again. -/
theorem span_append {p : Char → Bool} {run rest : List Char} (hrun : ∀ c ∈ run, p c = true)
    (hrest : ∀ c ∈ rest.head?, p c = false) : (run ++ rest).span p = (run, rest) := by
  have htake : rest.takeWhile p = [] := by
    cases rest with
    | nil => rfl
    | cons c rest => exact List.takeWhile_cons_of_neg (by simp [hrest c rfl])
  have hdrop : rest.dropWhile p = rest := by
    cases rest with
    | nil => rfl
    | cons c rest => exact List.dropWhile_cons_of_neg (by simp [hrest c rfl])
  rw [List.span_eq_takeWhile_dropWhile, List.takeWhile_append_of_pos hrun,
    List.dropWhile_append_of_pos hrun, htake, hdrop, List.append_nil]

/-- Texts that begin with such runs are the same only if the runs and the rests are. -/
theorem append_inj_of_span {p : Char → Bool} {run run' rest rest' : List Char}
    (hrun : ∀ c ∈ run, p c = true) (hrun' : ∀ c ∈ run', p c = true)
    (hrest : ∀ c ∈ rest.head?, p c = false) (hrest' : ∀ c ∈ rest'.head?, p c = false)
    (h : run ++ rest = run' ++ rest') : run = run' ∧ rest = rest' := by
  have hspan := span_append hrun hrest
  rw [h, span_append hrun' hrest'] at hspan
  exact ⟨(congrArg Prod.fst hspan).symm, (congrArg Prod.snd hspan).symm⟩

/-- A number is written with its decimal digits. -/
theorem toList_toString (n : Nat) : (toString n).toList = Nat.toDigits 10 n := by
  rw [Nat.toString_eq_repr, Nat.toList_repr]

/-- Only digits stand in a number. -/
theorem isDigit_of_mem_toString {n : Nat} {c : Char} (h : c ∈ (toString n).toList) :
    c.isDigit = true := by
  rw [toList_toString] at h
  exact Nat.isDigit_of_mem_toDigits (by decide) (by decide) h

/-- The digits of a number say which number it is. -/
theorem digitsValue_toString (n : Nat) : Decimal.digitsValue (toString n).toList = n := by
  rw [toList_toString, Decimal.digitsValue_toDigits]

/-- A target is written with its decimal digits and zeros in front. -/
theorem toList_fourDigits (n : Nat) : (fourDigits n).toList =
    List.replicate (4 - (Nat.toDigits 10 n).length) '0' ++ Nat.toDigits 10 n := by
  rw [fourDigits, String.toList_ofList]

/-- Only digits stand in a target. -/
theorem isDigit_of_mem_fourDigits {n : Nat} {c : Char} (h : c ∈ (fourDigits n).toList) :
    c.isDigit = true := by
  rw [toList_fourDigits, List.mem_append] at h
  rcases h with h | h
  · exact Decimal.isDigit_of_mem_zeros h
  · exact Nat.isDigit_of_mem_toDigits (by decide) (by decide) h

/-- Zeros in front do not change this. -/
theorem digitsValue_fourDigits (n : Nat) : Decimal.digitsValue (fourDigits n).toList = n := by
  rw [toList_fourDigits, Decimal.digitsValue_zeros_append, Decimal.digitsValue_toDigits]

/-! ### Reading operands -/

/-- An operand that its text stands for. -/
def Operand.Legible : Operand → Prop
  | .number x => Decimal.isLiteral x = true
  | .callee site => Token.IsName site.name
  | .absent | .jump _ | .slot _ | .bool _ => True

/-- The call that a listing shows. -/
def CallSite.read (text : List Char) : CallSite :=
  let (name, rest) := text.span Token.continuesWord
  let (arity, rest) := (rest.drop 1).span Char.isDigit
  { name := .ofList name, arity := Decimal.digitsValue arity, producesValue := !rest.isEmpty }

/-- The operand that a listing shows behind an opcode. The character behind the blank tells its
kind, except that names are told from truth values by the slash behind them. -/
def Operand.read? : List Char → Option Operand
  | _ :: c :: rest =>
    if c = '?' then some .absent
    else if c = '-' then some (.jump (Decimal.digitsValue (rest.drop 2)))
    else if c = '#' then some (.slot (Decimal.digitsValue rest))
    else if c.isDigit then (Decimal.read? (.ofList (c :: rest))).map .number
    else if '/' ∈ rest then some (.callee (.read (c :: rest)))
    else some (.bool (c == 't'))
  | _ => some .absent

/-- A call is read back from its name, its number of arguments and the mark of a value that is used.
-/
theorem CallSite.read_text {site : CallSite} (h : Token.IsName site.name) :
    CallSite.read (site.name.toList ++ '/' :: ((toString site.arity).toList ++
      if site.producesValue then " -> value".toList else [])) = site := by
  generalize hsuffix : (if site.producesValue then " -> value".toList else []) = suffix
  have hname :
      (site.name.toList ++ '/' :: ((toString site.arity).toList ++ suffix)).span
        Token.continuesWord =
      (site.name.toList, '/' :: ((toString site.arity).toList ++ suffix)) := by
    refine span_append h.word.continuesWord ?_
    rintro c ⟨⟩
    decide
  have harity : ((toString site.arity).toList ++ suffix).span Char.isDigit =
      ((toString site.arity).toList, suffix) := by
    refine span_append (fun _ => isDigit_of_mem_toString) ?_
    cases hvalue : site.producesValue with
    | false => simp [← hsuffix, hvalue]
    | true =>
      rw [← hsuffix, hvalue]
      rintro c ⟨⟩
      decide
  rw [CallSite.read, hname]
  dsimp only
  rw [List.drop_one, List.tail_cons, harity, digitsValue_toString, String.ofList_toList]
  obtain ⟨name, arity, value⟩ := site
  subst hsuffix
  cases value <;> rfl

namespace Operand

/-- An operand that begins with a digit is read as a number. -/
theorem read?_digit {c : Char} {rest : List Char} (h : c.isDigit = true) :
    read? (' ' :: c :: rest) = (Decimal.read? (.ofList (c :: rest))).map .number := by
  have hne (d : Char) (hd : d.isDigit = false) : c ≠ d := by
    rintro rfl
    simp [hd] at h
  rw [read?, if_neg (hne '?' rfl), if_neg (hne '-' rfl), if_neg (hne '#' rfl), if_pos h]

/-- An operand that begins like a name and has a slash is read as a call. -/
theorem read?_word {c : Char} {rest : List Char} (h : Token.startsWord c = true)
    (hslash : '/' ∈ rest) : read? (' ' :: c :: rest) = some (.callee (.read (c :: rest))) := by
  have hne (d : Char) (hd : Token.startsWord d = false) : c ≠ d := by
    rintro rfl
    simp [hd] at h
  have hdigit : ¬ c.isDigit = true := by
    intro hdigit
    simp [Token.startsWord_of_isDigit hdigit] at h
  rw [read?, if_neg (hne '?' rfl), if_neg (hne '-' rfl), if_neg (hne '#' rfl), if_neg hdigit,
    if_pos hslash]

/-- An operand is read back from what a listing shows. -/
theorem read?_operandText {op : Opcode} {operand : Operand} (h : operand.Legible) :
    read? (Instruction.operandText ⟨op, operand⟩).toList = some operand := by
  cases operand with
  | absent =>
    rw [Instruction.operandText]
    dsimp only
    split <;> rfl
  | jump target =>
    have htext : (Instruction.operandText ⟨op, .jump target⟩).toList =
        ' ' :: '-' :: '>' :: ' ' :: (fourDigits target).toList := String.toList_append
    rw [htext, read?, if_neg (by decide), if_pos rfl, List.drop_succ_cons, List.drop_succ_cons,
      List.drop_zero, digitsValue_fourDigits]
  | slot index =>
    have htext : (Instruction.operandText ⟨op, .slot index⟩).toList =
        ' ' :: '#' :: (toString index).toList := String.toList_append
    rw [htext, read?, if_neg (by decide), if_neg (by decide), if_pos rfl, digitsValue_toString]
  | bool b =>
    have htext : (Instruction.operandText ⟨op, .bool b⟩).toList =
        ' ' :: (Document.truthText b).toList := String.toList_append
    rw [htext]
    cases b <;> rfl
  | number x =>
    have htext : (Instruction.operandText ⟨op, .number x⟩).toList =
        ' ' :: (Decimal.plain.text x).toList := String.toList_append
    obtain ⟨hnumeral, hread⟩ := Decimal.isLiteral.text h
    rw [← String.ofList_toList (s := Decimal.plain.text x)] at hread
    rw [htext]
    generalize (Decimal.plain.text x).toList = chars at hnumeral hread
    cases chars with
    | nil => exact hnumeral.elim
    | cons c rest =>
      rw [read?_digit hnumeral.1, hread]
      rfl
  | callee site =>
    have htext : (Instruction.operandText ⟨op, .callee site⟩).toList = ' ' :: (site.name.toList ++
        '/' :: ((toString site.arity).toList ++
          if site.producesValue then " -> value".toList else [])) := by
      rw [Instruction.operandText]
      dsimp only
      rw [String.toList_append, String.toList_append, String.toList_append, String.toList_append]
      cases site.producesValue <;> simp
    have hword := h.word
    have hsite := CallSite.read_text h
    rw [htext]
    generalize site.name.toList = chars at hword hsite
    cases chars with
    | nil => exact hword.elim
    | cons c rest =>
      rw [List.cons_append, read?_word hword.1 (List.mem_append_right _ List.mem_cons_self),
        ← List.cons_append, hsite]

end Operand

/-! ### Reading instructions -/

/-- The name of an opcode has only letters, so that it ends at the first blank. -/
theorem Opcode.isAlpha_of_mem_name (op : Opcode) : ∀ c ∈ op.name.toList, c.isAlpha = true :=
  List.all_eq_true.mp (by cases op <;> rfl)

/-- An opcode is found by its name. -/
theorem Opcode.find?_name (op : Opcode) :
    Opcode.all.find? (·.name.toList == op.name.toList) = some op := by
  cases op <;> decide

/-- The instruction that a line of a listing shows behind the index. -/
def Instruction.read? (line : List Char) : Option Instruction := do
  let (name, operand) := line.span (· != ' ')
  let op ← Opcode.all.find? (·.name.toList == name)
  let operand ← Operand.read? operand
  return { op, operand }

namespace Instruction

variable {i : Instruction}

/-- A line of a listing is the name of an opcode with the text of an operand. -/
theorem toList_text (i : Instruction) :
    i.text.toList = i.op.name.toList ++ i.operandText.toList :=
  String.toList_append

/-- A blank separates the opcode from the operand. -/
theorem head?_operandText (i : Instruction) :
    ∀ c ∈ i.operandText.toList.head?, (c != ' ') = false := by
  obtain ⟨op, operand⟩ := i
  cases operand with
  | absent =>
    rw [operandText]
    dsimp only
    split <;> simp
  | jump | slot | number | bool | callee => simp [operandText]

/-- An instruction is read back from its text. -/
theorem read?_text (h : i.operand.Legible) : read? i.text.toList = some i := by
  have hname : ∀ c ∈ i.op.name.toList, (c != ' ') = true := by
    intro c hc
    have halpha := i.op.isAlpha_of_mem_name c hc
    rw [bne_iff_ne]
    rintro rfl
    exact absurd halpha (by decide)
  have hoperand : Operand.read? i.operandText.toList = some i.operand :=
    Operand.read?_operandText h
  rw [read?, toList_text, span_append hname i.head?_operandText]
  dsimp only
  rw [Opcode.find?_name, hoperand]
  rfl

/-- The text of an instruction stays on one line. -/
theorem feed_notMem_text (h : i.operand.Legible) : '\n' ∉ i.text.toList := by
  intro hmem
  rw [toList_text, List.mem_append] at hmem
  rcases hmem with hmem | hmem
  · exact absurd (i.op.isAlpha_of_mem_name _ hmem) (by decide)
  obtain ⟨op, operand⟩ := i
  have hdigit : ¬ '\n'.isDigit = true := by decide
  cases operand with
  | absent =>
    rw [operandText] at hmem
    dsimp only at hmem
    split at hmem <;> simp at hmem
  | jump target =>
    rw [operandText, String.toList_append, List.mem_append] at hmem
    rcases hmem with hmem | hmem
    · simp at hmem
    · exact hdigit (isDigit_of_mem_fourDigits hmem)
  | slot index =>
    rw [operandText, String.toList_append, List.mem_append] at hmem
    rcases hmem with hmem | hmem
    · simp at hmem
    · exact hdigit (isDigit_of_mem_toString hmem)
  | number x =>
    rw [operandText, String.toList_append, List.mem_append] at hmem
    rcases hmem with hmem | hmem
    · simp at hmem
    · exact absurd ((Decimal.isLiteral.text h).1.continuesNumber _ hmem) (by decide)
  | bool b => cases b <;> simp [operandText, Document.truthText] at hmem
  | callee site =>
    rw [operandText] at hmem
    simp only [String.toList_append, List.mem_append] at hmem
    rcases hmem with (((hmem | hmem) | hmem) | hmem) | hmem
    · simp at hmem
    · exact absurd (h.word.continuesWord _ hmem) (by decide)
    · simp at hmem
    · exact hdigit (isDigit_of_mem_toString hmem)
    · cases hvalue : site.producesValue <;> simp [hvalue] at hmem

/-- Instructions are told apart by their texts. -/
theorem text_inj {j : Instruction} (hi : i.operand.Legible) (hj : j.operand.Legible)
    (h : i.text = j.text) : i = j := by
  have hread := read?_text hi
  rw [h, read?_text hj] at hread
  exact (Option.some.inj hread).symm

end Instruction

/-! ### Reading listings -/

namespace Function

/-- Every line of a listing is told from what follows it by the line feed at its end. -/
theorem listingLines_inj {is js : List Instruction} {index : Nat}
    (his : ∀ i ∈ is, i.operand.Legible) (hjs : ∀ j ∈ js, j.operand.Legible)
    (h : listingLines index is = listingLines index js) : is = js := by
  have hline (index : Nat) (i : Instruction) (rest : List Instruction) :
      (listingLines index (i :: rest)).toList = (fourDigits index).toList ++ ' ' ::
        (i.text.toList ++ '\n' :: (listingLines (index + 1) rest).toList) := by
    simp [listingLines]
  induction is generalizing js index with
  | nil =>
    cases js with
    | nil => rfl
    | cons j js =>
      have hchars := congrArg String.toList h
      rw [hline] at hchars
      simp [listingLines] at hchars
  | cons i is ih =>
    have hchars := congrArg String.toList h
    rw [hline] at hchars
    cases js with
    | nil => simp [listingLines] at hchars
    | cons j js =>
      rw [List.forall_mem_cons] at his hjs
      rw [hline] at hchars
      have htail := (List.cons.inj (List.append_cancel_left hchars)).2
      have hfeed {k : Instruction} (hk : k.operand.Legible) :
          ∀ c ∈ k.text.toList, (c != '\n') = true := by
        intro c hc
        rw [bne_iff_ne]
        rintro rfl
        exact k.feed_notMem_text hk hc
      obtain ⟨htext, hrest⟩ := append_inj_of_span (hfeed his.1) (hfeed hjs.1) (by simp) (by simp)
        htail
      have hsame := Instruction.text_inj his.1 hjs.1 (String.toList_inj.mp htext)
      rw [hsame, ih his.2 hjs.2 (String.toList_inj.mp (List.cons.inj hrest).2)]

/-- Functions whose operands are told by their texts are told apart by their listings. -/
theorem listing_inj {f g : Function} (hf : ∀ i ∈ f.instructions.toList, i.operand.Legible)
    (hg : ∀ i ∈ g.instructions.toList, i.operand.Legible) {name : String}
    (h : f.listing name = g.listing name) : f = g := by
  have hlisting (f : Function) : (f.listing name).toList = ("== " ++ name ++ " (").toList ++
      ((toString f.localCount).toList ++ (" locals) ==\n".toList ++
        (listingLines 0 f.instructions.toList).toList)) := by
    simp [listing, headingText]
  have hchars := congrArg String.toList h
  rw [hlisting, hlisting] at hchars
  have hdigits {n : Nat} : ∀ c ∈ (toString n).toList, c.isDigit = true :=
    fun _ => isDigit_of_mem_toString
  obtain ⟨hcount, hrest⟩ := append_inj_of_span hdigits hdigits (by simp) (by simp)
    (List.append_cancel_left hchars)
  have hlocals : f.localCount = g.localCount := by
    rw [← digitsValue_toString f.localCount, hcount, digitsValue_toString]
  have hinstructions : f.instructions.toList = g.instructions.toList :=
    listingLines_inj hf hg (String.toList_inj.mp (List.append_cancel_left hrest))
  obtain ⟨instructions, localCount⟩ := f
  obtain ⟨instructions', localCount'⟩ := g
  obtain rfl : localCount = localCount' := hlocals
  obtain rfl : instructions = instructions' := Array.toList_inj.mp hinstructions
  rfl

end Function

/-! ### Loaded programs -/

mutual

/-- All parts of a canonical expression are canonical. -/
theorem Expr.Canonical.of_mem_places {index : Nat} {inner : Expr} : ∀ (e : Expr) {start : Nat},
    e.Canonical → (index, inner) ∈ e.places start → inner.Canonical
  | .number _, _, h, hplace | .bool _, _, h, hplace | .variable _, _, h, hplace => by
    cases List.mem_singleton.mp hplace
    exact h
  | .binary left op right, start, h, hplace => by
    rw [places, List.mem_cons, List.mem_append] at hplace
    rcases hplace with heq | hplace | hplace
    · cases heq
      exact h
    · exact of_mem_places left h.1 hplace
    · exact of_mem_places right h.2.1 hplace
  | .call name args, start, h, hplace => by
    rw [places, List.mem_cons] at hplace
    rcases hplace with heq | hplace
    · cases heq
      exact h
    · exact of_mem_listPlaces args h.2 hplace

/-- The parts of canonical expressions are canonical. -/
theorem Expr.Canonical.of_mem_listPlaces {index : Nat} {inner : Expr} :
    ∀ (es : List Expr) {start : Nat}, Expr.ListCanonical es →
      (index, inner) ∈ Expr.listPlaces start es → inner.Canonical
  | [], _, _, hplace => by simp [listPlaces] at hplace
  | e :: es, start, h, hplace => by
    rcases List.mem_append.mp hplace with hplace | hplace
    · exact of_mem_places e h.1 hplace
    · exact of_mem_listPlaces es h.2 hplace

end

mutual

/-- All statements in a canonical statement are canonical. -/
theorem Stmt.Canonical.of_mem_places {index : Nat} {inner : Stmt} : ∀ (s : Stmt) {start : Nat},
    s.Canonical → (index, inner) ∈ s.places start → inner.Canonical
  | .cond condition body, start, h, hplace | .loop condition body, start, h, hplace => by
    rcases List.mem_cons.mp hplace with heq | hplace
    · cases heq
      exact h
    · exact of_mem_bodyPlaces body h.2 hplace
  | .call _ _, _, h, hplace | .assign _ _, _, h, hplace | .declare _ _, _, h, hplace
  | .leave, _, h, hplace | .suspend, _, h, hplace => by
    cases List.mem_singleton.mp hplace
    exact h

/-- The statements in canonical statements are canonical. -/
theorem Stmt.Canonical.of_mem_bodyPlaces {index : Nat} {inner : Stmt} :
    ∀ (body : List Stmt) {start : Nat}, Stmt.BodyCanonical body →
      (index, inner) ∈ Stmt.bodyPlaces start body → inner.Canonical
  | [], _, _, hplace => by simp [bodyPlaces] at hplace
  | s :: body, start, h, hplace => by
    rcases List.mem_append.mp hplace with hplace | hplace
    · exact of_mem_places s h.1 hplace
    · exact of_mem_bodyPlaces body h.2 hplace

end

mutual

/-- All expressions in a canonical statement are canonical. -/
theorem Stmt.Canonical.of_mem_expressionPlaces {index : Nat} {e : Expr} :
    ∀ (s : Stmt) {start : Nat}, s.Canonical → (index, e) ∈ s.expressionPlaces start → e.Canonical
  | .call _ args, _, h, hplace => Expr.Canonical.of_mem_listPlaces args h.2 hplace
  | .assign _ value, _, h, hplace | .declare _ value, _, h, hplace =>
    Expr.Canonical.of_mem_places value h.2 hplace
  | .cond condition body, start, h, hplace | .loop condition body, start, h, hplace => by
    rcases List.mem_append.mp hplace with hplace | hplace
    · exact Expr.Canonical.of_mem_places condition h.1 hplace
    · exact of_mem_bodyExpressionPlaces body h.2 hplace
  | .leave, _, _, hplace | .suspend, _, _, hplace => by simp [expressionPlaces] at hplace

/-- The expressions in canonical statements are canonical. -/
theorem Stmt.Canonical.of_mem_bodyExpressionPlaces {index : Nat} {e : Expr} :
    ∀ (body : List Stmt) {start : Nat}, Stmt.BodyCanonical body →
      (index, e) ∈ Stmt.bodyExpressionPlaces start body → e.Canonical
  | [], _, _, hplace => by simp [bodyExpressionPlaces] at hplace
  | s :: body, start, h, hplace => by
    rcases List.mem_append.mp hplace with hplace | hplace
    · exact of_mem_expressionPlaces s h.1 hplace
    · exact of_mem_bodyExpressionPlaces body h.2 hplace

end

/-- The code of a canonical program has only operands that their texts stand for. -/
theorem Compiled.legible {p : Program} {names : List String} {f : Function} {r : Registry}
    (h : Compiled p names f) (hsound : p.violations r = []) (hcanonical : p.Canonical) {index : Nat}
    {i : Instruction} (hi : f.instructions[index]? = some i) : i.operand.Legible := by
  have hexpression {index : Nat} {e : Expr} (hplace : (index, e) ∈ p.expressionPlaces) :
      e.Canonical := Stmt.Canonical.of_mem_bodyExpressionPlaces p.statements hcanonical hplace
  rcases h.origin hsound hi with ⟨-, rfl⟩ | horigin
  · trivial
  · cases horigin with
    | number place => exact hexpression place
    | value place => exact (hexpression place).1
    | effect place =>
      have hstatement := Stmt.Canonical.of_mem_bodyPlaces p.statements hcanonical place
      exact hstatement.1
    | leave place =>
      rcases h.leave_cases place hi with habsent | ⟨target, hjump, -⟩
      · rw [habsent]
        trivial
      · rw [hjump]
        trivial
    | bool | get | binary | assign | declare | cond | loop | back | suspend => trivial

/-- Every operand of a loaded and compiled program can be read back: its numbers are literals and
its calls have names. -/
theorem Program.legible_of_load {source : String} {p : Program} {r : Registry} {f : Function}
    (hload : Program.load source = .ok p) (hcompile : p.compile r = .ok f) :
    ∀ i ∈ f.instructions.toList, i.operand.Legible := by
  intro i hi
  obtain ⟨d, hblock, rfl⟩ := compile_eq_ok.mp hcompile
  obtain ⟨index, hindex⟩ := List.getElem?_of_mem hi
  rw [Array.getElem?_toList] at hindex
  exact (compiled_of_block hblock).legible (violations_eq_nil_of_block hblock)
    (canonical_of_load hload) hindex

/-- A listing shows everything: two sources that are compiled to functions with the same listing
under any name are compiled to the same function, whatever the registries. -/
theorem Function.eq_of_listing_eq {source source' : String} {p q : Program} {r r' : Registry}
    {f g : Function} (hp : Program.load source = .ok p) (hf : p.compile r = .ok f)
    (hq : Program.load source' = .ok q) (hg : q.compile r' = .ok g) {name : String}
    (h : f.listing name = g.listing name) : f = g :=
  listing_inj (Program.legible_of_load hp hf) (Program.legible_of_load hq hg) h

/-- A program that declares a variable under a name. -/
def Program.declaring (name : String) : Program where
  statements := [.declare name (.bool true)]

/-- The names of variables are not shown, and they are no part of the function. -/
theorem Function.eq_of_listing_eq_declaring :
    (Program.declaring "a").text ≠ (Program.declaring "b").text ∧
    ∃ f g, Program.load (Program.declaring "a").text = .ok (.declaring "a") ∧
      (Program.declaring "a").compile {} = .ok f ∧
      Program.load (Program.declaring "b").text = .ok (.declaring "b") ∧
      (Program.declaring "b").compile .standard = .ok g ∧
      f.listing "main" = g.listing "main" ∧ f = g := by
  have hload (name : String) (hname : Token.IsName name) :
      Program.load (Program.declaring name).text = .ok (.declaring name) :=
    Program.load_text ⟨⟨hname, trivial⟩, trivial⟩
  have ha := hload "a" ⟨⟨rfl, by simp⟩, by decide⟩
  have hb := hload "b" ⟨⟨rfl, by simp⟩, by decide⟩
  obtain ⟨f, hf⟩ : ∃ f, (Program.declaring "a").compile {} = .ok f := ⟨_, rfl⟩
  obtain ⟨g, hg⟩ : ∃ g, (Program.declaring "b").compile .standard = .ok g := ⟨_, rfl⟩
  have hlisting : f.listing "main" = g.listing "main" := by
    cases hf
    cases hg
    rfl
  exact ⟨by decide, f, g, ha, hf, hb, hg, hlisting, eq_of_listing_eq ha hf hb hg hlisting⟩

end FrameScript
