import FrameScript.Proofs.Settings.Options

/-!
# Which settings count

The first line whose value does not fit its key is the error. Without such a line, every setting is
that of the last line with its key, or it has its default. Lines of different keys may therefore
change places, and lines that give nothing to a known key may be inserted anywhere.
-/

namespace FrameScript.Config

/-- The last of the lines with a key gives it a value. -/
def LastGives (lines : List String) (key value : String) : Prop :=
  ∃ before line after, lines = before ++ line :: after ∧ Gives line key value ∧
    ∀ other ∈ after, ∀ value', ¬ Gives other key value'

/-- What a setting is: what the value of the last line with its key stands for, or the default. -/
def Given {α : Type} (lines : List String) (key : String) (standsFor : String → α → Prop)
    (default setting : α) : Prop :=
  (∃ value, LastGives lines key value ∧ standsFor value setting) ∨
    (∀ line ∈ lines, ∀ value, ¬ Gives line key value) ∧ setting = default

/-- All settings are given by the last lines with their keys. -/
structure GivenBy (lines : List String) (c : Config) : Prop where
  script : Given lines "script" (fun value script => script = value) "main.tick" c.script
  tickRate : Given lines "tickrate" Denotes 60 c.tickRate
  maxTicks : Given lines "maxticks" Denotes 0 c.maxTicks
  dumpTree : Given lines "dumpast" (fun value b => value = Document.truthText b) false c.dumpTree
  dumpCode :
    Given lines "dumpbytecode" (fun value b => value = Document.truthText b) false c.dumpCode
  logLevel : Given lines "loglevel" (fun value level => level = Text.lower value) "info" c.logLevel

/-- What a line gives fits, if it gives anything. -/
def Fits (line : String) : Prop :=
  ∀ key value, Gives line key value → ¬ Unfit key value

/-- The first line that does not fit, by what it gives. -/
def FirstUnfit (lines : List String) (key value : String) : Prop :=
  ∃ before line after, lines = before ++ line :: after ∧ Gives line key value ∧ Unfit key value ∧
    ∀ other ∈ before, Fits other

/-- Lines in another order, with more lines that give nothing to a known key. Lines with the same
key keep their order. -/
inductive Rearranged : List String → List String → Prop where
  | swap {before after : List String} {first second : String}
    (differ : ∀ key value value', Gives first key value → ¬ Gives second key value') :
    Rearranged (before ++ first :: second :: after) (before ++ second :: first :: after)
  | insert {before after : List String} {line : String}
    (idle : ∀ key value, Gives line key value → key ∉ keys) :
    Rearranged (before ++ after) (before ++ line :: after)
  | refl {lines : List String} : Rearranged lines lines
  | trans {lines lines' lines'' : List String} (first : Rearranged lines lines')
    (second : Rearranged lines' lines'') : Rearranged lines lines''

/-! ### The values of a key -/

/-- The value that a line gives to a key. -/
def valueOf? (key line : String) : Option String :=
  match Line.ofText line with
  | .option other value => if other = key then some value else none
  | _ => none

/-- The values that lines give to a key, in order. -/
def values (key : String) (lines : List String) : List String :=
  lines.filterMap (valueOf? key)

variable {lines lines' before : List String} {line key value : String} {c c' : Config}

/-- The value found in a line is the one that it gives. -/
theorem valueOf?_eq_some_iff : valueOf? key line = some value ↔ Gives line key value := by
  rw [← ofText_eq_option_iff, valueOf?]
  cases Line.ofText line with
  | skipped => simp
  | stray text => simp
  | option other value' =>
    simp only [Line.option.injEq]
    split
    · next h => simp [h]
    · next h => simp [h]

/-- Nothing is found in a line that gives nothing to the key. -/
theorem valueOf?_eq_none_iff : valueOf? key line = none ↔ ∀ value, ¬ Gives line key value := by
  simp only [Option.eq_none_iff_forall_ne_some, ne_eq, valueOf?_eq_some_iff]

/-- The value of one more line comes last. -/
theorem values_append_singleton :
    values key (lines ++ [line]) = values key lines ++ (valueOf? key line).toList := by
  rw [values, values, List.filterMap_append]
  cases h : valueOf? key line <;> simp [h]

/-- The values of a key are those that some line gives to it. -/
theorem mem_values_iff : value ∈ values key lines ↔ ∃ line ∈ lines, Gives line key value := by
  simp only [values, List.mem_filterMap, valueOf?_eq_some_iff]

/-- A key has no values exactly if no line gives one to it. -/
theorem values_eq_nil_iff :
    values key lines = [] ↔ ∀ line ∈ lines, ∀ value, ¬ Gives line key value := by
  simp only [values, List.filterMap_eq_nil_iff, valueOf?_eq_none_iff]

/-- What the last line with a key gives is the last of its values. -/
theorem lastGives_iff : LastGives lines key value ↔ (values key lines).getLast? = some value := by
  constructor
  · rintro ⟨before, line, after, rfl, hgives, hafter⟩
    have hnone : values key after = [] := values_eq_nil_iff.mpr hafter
    have hsome : valueOf? key line = some value := valueOf?_eq_some_iff.mpr hgives
    simp only [values] at hnone ⊢
    rw [List.filterMap_append, List.filterMap_cons_some hsome, hnone, List.getLast?_append]
    rfl
  · intro h
    obtain ⟨others, hothers⟩ := List.getLast?_eq_some_iff.mp h
    obtain ⟨before, rest, hlines, -, hrest⟩ := List.filterMap_eq_append_iff.mp hothers
    obtain ⟨idle, line, after, hsplit, -, hsome, hafter⟩ := List.filterMap_eq_cons_iff.mp hrest
    refine ⟨before ++ idle, line, after, ?_, valueOf?_eq_some_iff.mp hsome, ?_⟩
    · rw [hlines, hsplit, List.append_assoc]
    · exact values_eq_nil_iff.mp hafter

/-- A setting depends on the values of its key alone. -/
theorem given_iff {α : Type} {standsFor : String → α → Prop} {default setting : α} :
    Given lines key standsFor default setting ↔
      match (values key lines).getLast? with
      | some value => standsFor value setting
      | none => setting = default := by
  simp only [Given, lastGives_iff, ← values_eq_nil_iff]
  cases hlast : (values key lines).getLast? with
  | none => simp [List.getLast?_eq_none_iff.mp hlast]
  | some value =>
    have hne : values key lines ≠ [] := by
      intro hnil
      simp [hnil] at hlast
    simp [hne]

/-! ### One line -/

/-- A setting behind an option: a new one if the option has its key, and the old one otherwise. -/
def Renews {α : Type} (key own value : String) (standsFor : String → α → Prop)
    (old new : α) : Prop :=
  if own = key then standsFor value new else new = old

/-- The settings behind an option that fits its key. -/
structure Takes (c : Config) (key value : String) (c' : Config) : Prop where
  script : Renews key "script" value (fun value script => script = value) c.script c'.script
  tickRate : Renews key "tickrate" value Denotes c.tickRate c'.tickRate
  maxTicks : Renews key "maxticks" value Denotes c.maxTicks c'.maxTicks
  dumpTree : Renews key "dumpast" value (fun value b => value = Document.truthText b) c.dumpTree
    c'.dumpTree
  dumpCode : Renews key "dumpbytecode" value (fun value b => value = Document.truthText b)
    c.dumpCode c'.dumpCode
  logLevel : Renews key "loglevel" value (fun value level => level = Text.lower value) c.logLevel
    c'.logLevel

/-- A tick rate does not fit if it cannot be read. -/
theorem unfit_tickRate_iff : Unfit "tickrate" value ↔ readRate? value = none := by
  rw [Option.eq_none_iff_forall_ne_some]
  simp [Unfit, readRate?_eq_some_iff]

/-- A tick limit does not fit if it cannot be read. -/
theorem unfit_maxTicks_iff : Unfit "maxticks" value ↔ readNatural? (1 <<< 64) value = none := by
  rw [Option.eq_none_iff_forall_ne_some]
  simp [Unfit, readNatural?_eq_some_iff]

/-- A truth value does not fit if it cannot be read. -/
theorem unfit_truth_iff (h : key = "dumpast" ∨ key = "dumpbytecode") :
    Unfit key value ↔ readTruth? value = none := by
  rw [readTruth?_eq_none_iff]
  rcases h with rfl | rfl <;> simp [Unfit]

/-- What an option does: it does not fit and is refused, or it is taken. -/
def Treats (c : Config) (key value : String) : Prop :=
  (Unfit key value ∧ c.apply (.option key value) = .error (.invalidValue key value)) ∨
    ¬ Unfit key value ∧ ∃ c', c.apply (.option key value) = .ok c' ∧ Takes c key value c'

/-- An option whose value is read, and is put into the settings if that succeeds. -/
theorem treats_of_read {α : Type} {read : Option α} {put : α → Config}
    (hset : c.set key value = some (read.map put)) (hunfit : Unfit key value ↔ read = none)
    (htakes : ∀ a, read = some a → Takes c key value (put a)) : Treats c key value := by
  unfold Treats
  rw [hunfit, apply, hset]
  cases read with
  | none => exact .inl ⟨rfl, rfl⟩
  | some a => exact .inr ⟨nofun, put a, rfl, htakes a rfl⟩

/-- Every option is treated so. One with an unknown key changes nothing. -/
theorem treats (c : Config) (key value : String) : Treats c key value := by
  by_cases hkey : key ∈ keys
  · simp only [keys, List.mem_cons, List.not_mem_nil, or_false] at hkey
    rcases hkey with rfl | rfl | rfl | rfl | rfl | rfl
    · refine .inr ⟨by simp [Unfit], { c with script := value }, rfl, ?_⟩
      constructor <;> simp [Renews]
    · refine treats_of_read rfl unfit_tickRate_iff fun n hread => ?_
      have hdenotes := (readRate?_eq_some_iff.mp hread).1
      constructor <;> simp [Renews, hdenotes]
    · refine treats_of_read rfl unfit_maxTicks_iff fun n hread => ?_
      have hdenotes := (readNatural?_eq_some_iff.mp hread).1
      constructor <;> simp [Renews, hdenotes]
    · refine treats_of_read rfl (unfit_truth_iff (.inl rfl)) fun b hread => ?_
      have htruth := readTruth?_eq_some_iff.mp hread
      constructor <;> simp [Renews, htruth]
    · refine treats_of_read rfl (unfit_truth_iff (.inr rfl)) fun b hread => ?_
      have htruth := readTruth?_eq_some_iff.mp hread
      constructor <;> simp [Renews, htruth]
    · refine .inr ⟨by simp [Unfit], { c with logLevel := Text.lower value }, rfl, ?_⟩
      constructor <;> simp [Renews]
  · simp only [keys, List.mem_cons, List.not_mem_nil, or_false, not_or] at hkey
    refine .inr ⟨by simp [Unfit, hkey], c, by simp [apply, set, hkey], ?_⟩
    constructor <;> simp [Renews, Ne.symm, hkey]

/-- What the lines so far give to a setting, and what it is behind one more option. -/
theorem Given.renew {α : Type} {own : String} {standsFor : String → α → Prop}
    {default old new : α} (h : Given before own standsFor default old)
    (hgives : Gives line key value) (hrenews : Renews key own value standsFor old new) :
    Given (before ++ [line]) own standsFor default new := by
  rw [given_iff] at h ⊢
  rw [values_append_singleton]
  unfold Renews at hrenews
  split at hrenews
  · next hown =>
    rw [valueOf?_eq_some_iff.mpr (hown ▸ hgives)]
    simpa using hrenews
  · next hother =>
    have hnone : valueOf? own line = none :=
      valueOf?_eq_none_iff.mpr fun _ hown => hother (hown.unique hgives).1
    rw [hnone, hrenews]
    simpa using h

/-- Settings are given by the lines so far, and behind one more option by it too. -/
theorem GivenBy.renew (h : GivenBy before c) (hgives : Gives line key value)
    (htakes : Takes c key value c') : GivenBy (before ++ [line]) c' where
  script := h.script.renew hgives htakes.script
  tickRate := h.tickRate.renew hgives htakes.tickRate
  maxTicks := h.maxTicks.renew hgives htakes.maxTicks
  dumpTree := h.dumpTree.renew hgives htakes.dumpTree
  dumpCode := h.dumpCode.renew hgives htakes.dumpCode
  logLevel := h.logLevel.renew hgives htakes.logLevel

/-- Without any lines, all settings have their defaults. -/
theorem givenBy_nil : GivenBy [] {} := by
  constructor <;> exact given_iff.mpr rfl

/-- What is given depends on the values of the key alone. -/
theorem Given.congr {α : Type} {standsFor : String → α → Prop} {default setting : α}
    (h : Given lines key standsFor default setting)
    (hvalues : values key lines = values key lines') :
    Given lines' key standsFor default setting := by
  rw [given_iff] at h ⊢
  rwa [← hvalues]

/-- The settings depend on the values of the known keys alone. -/
theorem GivenBy.congr (h : GivenBy lines c)
    (hvalues : ∀ key ∈ keys, values key lines = values key lines') : GivenBy lines' c where
  script := h.script.congr (hvalues _ (by decide))
  tickRate := h.tickRate.congr (hvalues _ (by decide))
  maxTicks := h.maxTicks.congr (hvalues _ (by decide))
  dumpTree := h.dumpTree.congr (hvalues _ (by decide))
  dumpCode := h.dumpCode.congr (hvalues _ (by decide))
  logLevel := h.logLevel.congr (hvalues _ (by decide))

/-- Settings that are given are fixed. -/
theorem Given.unique {α : Type} {standsFor : String → α → Prop} {default a b : α}
    (hfixes : ∀ value a b, standsFor value a → standsFor value b → a = b)
    (ha : Given lines key standsFor default a) (hb : Given lines key standsFor default b) :
    a = b := by
  rw [given_iff] at ha hb
  cases hlast : (values key lines).getLast? with
  | none =>
    rw [hlast] at ha hb
    exact ha.trans hb.symm
  | some value =>
    rw [hlast] at ha hb
    exact hfixes value a b ha hb

/-- A text denotes one number at most. -/
theorem Denotes.unique {text : String} {n n' : Nat} (h : Denotes text n) (h' : Denotes text n') :
    n = n' :=
  (denotes_iff.mp h).2.2.trans (denotes_iff.mp h').2.2.symm

/-- Lines give one collection of settings at most. -/
theorem GivenBy.unique (h : GivenBy lines c) (h' : GivenBy lines c') : c = c' := by
  have htruth (value : String) (a b : Bool) (ha : value = Document.truthText a)
      (hb : value = Document.truthText b) : a = b := by
    cases a <;> cases b <;> simp_all [Document.truthText]
  have hscript := h.script.unique (fun _ _ _ ha hb => ha.trans hb.symm) h'.script
  have htickRate := h.tickRate.unique (fun _ _ _ ha hb => ha.unique hb) h'.tickRate
  have hmaxTicks := h.maxTicks.unique (fun _ _ _ ha hb => ha.unique hb) h'.maxTicks
  have hdumpTree := h.dumpTree.unique htruth h'.dumpTree
  have hdumpCode := h.dumpCode.unique htruth h'.dumpCode
  have hlogLevel := h.logLevel.unique (fun _ _ _ ha hb => ha.trans hb.symm) h'.logLevel
  cases c
  cases c'
  simp_all

/-! ### All lines -/

/-- The settings that lines make of settings. -/
def outcome (c : Config) (lines : List String) : Except ConfigError Config :=
  (c.applyAll (lines.map Line.ofText)).2

/-- Lines are applied one after another, up to the first that is refused. -/
theorem outcome_cons : outcome c (line :: lines) =
    match c.apply (Line.ofText line) with
    | .error error => .error error
    | .ok c => outcome c lines := by
  rw [outcome, List.map_cons, applyAll]
  cases c.apply (Line.ofText line) <;> rfl

/-- A line is refused for what it gives, or it fits and adds to what was given before. -/
theorem apply_line (c : Config) (line : String) :
    (∃ key value, Gives line key value ∧ Unfit key value ∧
      c.apply (Line.ofText line) = .error (.invalidValue key value)) ∨
    Fits line ∧ ∃ c', c.apply (Line.ofText line) = .ok c' ∧
      ∀ before, GivenBy before c → GivenBy (before ++ [line]) c' := by
  by_cases hgives : ∃ key value, Gives line key value
  · obtain ⟨key, value, hgives⟩ := hgives
    rw [ofText_eq_option_iff.mpr hgives]
    rcases treats c key value with ⟨hunfit, herror⟩ | ⟨hfits, c', htaken, htakes⟩
    · exact .inl ⟨key, value, hgives, hunfit, herror⟩
    · refine .inr ⟨?_, c', htaken, fun before hbefore => hbefore.renew hgives htakes⟩
      intro key' value' hgives'
      obtain ⟨rfl, rfl⟩ := hgives.unique hgives'
      exact hfits
  · have hidle (key value : String) : ¬ Gives line key value := fun h => hgives ⟨key, value, h⟩
    refine .inr ⟨fun key value h => absurd h (hidle key value), c, apply_of_not_gives hidle, ?_⟩
    intro before hbefore
    refine hbefore.congr fun key _ => ?_
    rw [values_append_singleton, valueOf?_eq_none_iff.mpr (hidle key)]
    exact (List.append_nil _).symm

/-- Lines are refused for the first that does not fit, or all fit and add to what was given
before. -/
theorem outcome_cases (c : Config) (lines : List String) :
    (∃ key value, FirstUnfit lines key value ∧
      outcome c lines = .error (.invalidValue key value)) ∨
    (∀ line ∈ lines, Fits line) ∧ ∃ c', outcome c lines = .ok c' ∧
      ∀ before, GivenBy before c → GivenBy (before ++ lines) c' := by
  induction lines generalizing c with
  | nil =>
    refine .inr ⟨by simp, c, rfl, fun before hbefore => ?_⟩
    rwa [List.append_nil]
  | cons line lines ih =>
    rw [outcome_cons]
    rcases apply_line c line with ⟨key, value, hgives, hunfit, herror⟩ | ⟨hfits, c₁, htaken, hgiven⟩
    · rw [herror]
      exact .inl ⟨key, value, ⟨[], line, lines, rfl, hgives, hunfit, by simp⟩, rfl⟩
    · rw [htaken]
      rcases ih c₁ with ⟨key, value, hfirst, herror⟩ | ⟨hall, c', hok, hrest⟩
      · obtain ⟨before, found, after, rfl, hgives, hunfit, hbefore⟩ := hfirst
        exact .inl ⟨key, value, ⟨line :: before, found, after, rfl, hgives, hunfit,
          List.forall_mem_cons.mpr ⟨hfits, hbefore⟩⟩, herror⟩
      · refine .inr ⟨List.forall_mem_cons.mpr ⟨hfits, hall⟩, c', hok, fun before hbefore => ?_⟩
        rw [List.append_cons]
        exact hrest _ (hgiven before hbefore)

/-- Not all lines fit if there is a first that does not. -/
theorem FirstUnfit.not_forall_fits (h : FirstUnfit lines key value) :
    ¬ ∀ line ∈ lines, Fits line := by
  obtain ⟨before, line, after, rfl, hgives, hunfit, -⟩ := h
  exact fun hall => hall line (by simp) key value hgives hunfit

/-- Only one line is the first that does not fit. -/
theorem FirstUnfit.unique {key' value' : String} (h : FirstUnfit lines key value)
    (h' : FirstUnfit lines key' value') : key = key' ∧ value = value' := by
  obtain ⟨before, line, after, rfl, hgives, hunfit, hbefore⟩ := h
  obtain ⟨before', line', after', hlines, hgives', hunfit', hbefore'⟩ := h'
  rcases List.append_eq_append_iff.mp hlines with ⟨others, rfl, hrest⟩ | ⟨others, rfl, hrest⟩
  · cases others with
    | nil =>
      cases hrest
      exact hgives.unique hgives'
    | cons other others =>
      cases hrest
      exact absurd hunfit (hbefore' line (by simp) key value hgives)
  · cases others with
    | nil =>
      cases hrest
      exact hgives.unique hgives'
    | cons other others =>
      cases hrest
      exact absurd hunfit' (hbefore line' (by simp) key' value' hgives')

/-- Lines are refused exactly for the first that does not fit. -/
theorem outcome_eq_error_iff {error : ConfigError} : outcome c lines = .error error ↔
    ∃ key value, error = .invalidValue key value ∧ FirstUnfit lines key value := by
  rcases outcome_cases c lines with ⟨key, value, hfirst, herror⟩ | ⟨hall, c', hok, -⟩
  · rw [herror, Except.error.injEq]
    constructor
    · rintro rfl
      exact ⟨key, value, rfl, hfirst⟩
    · rintro ⟨key', value', rfl, hfirst'⟩
      obtain ⟨rfl, rfl⟩ := hfirst.unique hfirst'
      rfl
  · rw [hok]
    simp only [reduceCtorEq, false_iff]
    rintro ⟨key, value, -, hfirst⟩
    exact hfirst.not_forall_fits hall

/-- Lines are accepted exactly if all fit, with the settings that they give. -/
theorem outcome_eq_ok_iff : outcome {} lines = .ok c ↔
    (∀ line ∈ lines, Fits line) ∧ GivenBy lines c := by
  rcases outcome_cases {} lines with ⟨key, value, hfirst, herror⟩ | ⟨hall, c', hok, hgiven⟩
  · rw [herror]
    simp only [reduceCtorEq, false_iff]
    exact fun ⟨hall, _⟩ => hfirst.not_forall_fits hall
  · have hgiven := hgiven [] givenBy_nil
    rw [hok, Except.ok.injEq]
    constructor
    · rintro rfl
      exact ⟨hall, hgiven⟩
    · rintro ⟨-, hc⟩
      exact hgiven.unique hc

/-! ### Other orders -/

/-- Only values of known keys can fail to fit. -/
theorem Unfit.mem_keys (h : Unfit key value) : key ∈ keys := by
  rcases h with ⟨rfl, -⟩ | ⟨rfl, -⟩ | ⟨rfl | rfl, -⟩ <;> decide

/-- Whether lines fit depends on the values of the known keys alone. -/
theorem forall_fits_iff : (∀ line ∈ lines, Fits line) ↔
    ∀ key ∈ keys, ∀ value ∈ values key lines, ¬ Unfit key value := by
  simp only [mem_values_iff]
  constructor
  · rintro h key - value ⟨line, hline, hgives⟩
    exact h line hline key value hgives
  · intro h line hline key value hgives hunfit
    exact h key hunfit.mem_keys value ⟨line, hline, hgives⟩ hunfit

/-- A rearrangement keeps the values of every known key, in their order. -/
theorem Rearranged.values_eq (h : Rearranged lines lines') (hkey : key ∈ keys) :
    values key lines = values key lines' := by
  induction h with
  | @swap before after first second differ =>
    have hone : valueOf? key first = none ∨ valueOf? key second = none := by
      by_contra hboth
      rw [not_or] at hboth
      obtain ⟨value, hfirst⟩ := Option.ne_none_iff_exists'.mp hboth.1
      obtain ⟨value', hsecond⟩ := Option.ne_none_iff_exists'.mp hboth.2
      exact differ key value value' (valueOf?_eq_some_iff.mp hfirst)
        (valueOf?_eq_some_iff.mp hsecond)
    simp only [values, List.filterMap_append, List.filterMap_cons]
    rcases hone with hnone | hnone <;> simp [hnone]
  | insert idle =>
    have hnone : valueOf? key _ = none :=
      valueOf?_eq_none_iff.mpr fun value hgives => idle key value hgives hkey
    simp only [values, List.filterMap_append, List.filterMap_cons_none hnone]
  | refl => rfl
  | trans _ _ ih ih' => exact ih.trans ih'

/-- A rearrangement makes no difference to the settings. -/
theorem Rearranged.outcome_eq_ok_iff (h : Rearranged lines lines') :
    outcome {} lines = .ok c ↔ outcome {} lines' = .ok c := by
  have hvalues (key : String) (hkey : key ∈ keys) : values key lines = values key lines' :=
    h.values_eq hkey
  have hfits : (∀ line ∈ lines, Fits line) ↔ ∀ line ∈ lines', Fits line := by
    rw [forall_fits_iff, forall_fits_iff]
    exact forall₂_congr fun key hkey => by rw [hvalues key hkey]
  rw [Config.outcome_eq_ok_iff, Config.outcome_eq_ok_iff, hfits]
  exact and_congr_right fun _ =>
    ⟨fun hgiven => hgiven.congr hvalues,
      fun hgiven => hgiven.congr fun key hkey => (hvalues key hkey).symm⟩

/-- A text is refused for its first line with a value that does not fit, and for nothing else.
Otherwise every setting is given by the last line with its key. Lines with different keys may change
places, and lines that give nothing to a known key may come or go. -/
theorem parse_eq_iff_givenBy (text : String) :
    (∀ error, parse text = .error error ↔
      ∃ key value, error = .invalidValue key value ∧ FirstUnfit (Text.lines text) key value) ∧
    ((∃ c, parse text = .ok c) ↔ ∀ line ∈ Text.lines text, Fits line) ∧
    (∀ c, parse text = .ok c ↔
      (∀ line ∈ Text.lines text, Fits line) ∧ GivenBy (Text.lines text) c) ∧
    ∀ other, Rearranged (Text.lines text) (Text.lines other) →
      ∀ c, parse text = .ok c ↔ parse other = .ok c := by
  have hparse (text : String) : parse text = outcome {} (Text.lines text) := rfl
  refine ⟨fun error => outcome_eq_error_iff, ?_, fun c => outcome_eq_ok_iff,
    fun other h c => h.outcome_eq_ok_iff⟩
  constructor
  · rintro ⟨c, hc⟩
    exact (outcome_eq_ok_iff.mp hc).1
  · intro hall
    rw [hparse]
    rcases outcome_cases {} (Text.lines text) with ⟨key, value, hfirst, -⟩ | ⟨-, c, hok, -⟩
    · exact absurd hall hfirst.not_forall_fits
    · exact ⟨c, hok⟩

/-- A text that names its key twice, the second time between blanks. -/
def twice : String :=
  "tickrate = 30\nscript = a = b # c\n\u00a0tickrate=+0048"

/-- The same options in another order, with a comment between them. -/
def twiceReordered : String :=
  "script = a = b # c\n# tickrate = 0\ntickrate = 30\r\n\u00a0tickrate=+0048\n"

/-- Rearranged, the text has the same settings, the rate among them from the last of its lines. -/
theorem parse_twice :
    Rearranged (Text.lines twice) (Text.lines twiceReordered) ∧
      parse twiceReordered = .ok { tickRate := 48, script := "a = b # c" } ∧
      LastGives (Text.lines twice) "tickrate" "+0048" := by
  have hrearranged : Rearranged (Text.lines twice) (Text.lines twiceReordered) := by
    have hfirst : Line.ofText "tickrate = 30" = .option "tickrate" "30" := by rfl
    have hsecond : Line.ofText "script = a = b # c" = .option "script" "a = b # c" := by rfl
    have hcomment : Line.ofText "# tickrate = 0" = .skipped := by rfl
    have hswap : Rearranged ([] ++ "tickrate = 30" :: "script = a = b # c" ::
        ["\u00a0tickrate=+0048"]) ([] ++ "script = a = b # c" :: "tickrate = 30" ::
        ["\u00a0tickrate=+0048"]) := by
      refine .swap fun key value value' hkey hkey' => ?_
      rw [← ofText_eq_option_iff] at hkey hkey'
      rw [hfirst] at hkey
      rw [hsecond] at hkey'
      cases hkey
      simp at hkey'
    have hinsert : Rearranged (["script = a = b # c"] ++ ["tickrate = 30", "\u00a0tickrate=+0048"])
        (["script = a = b # c"] ++ "# tickrate = 0" ::
          ["tickrate = 30", "\u00a0tickrate=+0048"]) := by
      refine .insert fun key value hkey => ?_
      rw [← ofText_eq_option_iff, hcomment] at hkey
      cases hkey
    exact hswap.trans hinsert
  have haccepted : parse twice = .ok { tickRate := 48, script := "a = b # c" } := by rfl
  obtain ⟨-, -, hgiven, hother⟩ := parse_eq_iff_givenBy twice
  refine ⟨hrearranged, (hother twiceReordered hrearranged _).mp haccepted, ?_⟩
  rcases ((hgiven _).mp haccepted).2.tickRate with ⟨value, hlast, -⟩ | ⟨-, hdefault⟩
  · have hvalue := lastGives_iff.mp hlast
    cases hvalue
    exact hlast
  · exact absurd hdefault (by decide)

/-- A value that does not fit is not made good by a later one. -/
example : parse "tickrate = 0\ntickrate = 5" = .error (.invalidValue "tickrate" "0") := by rfl

end FrameScript.Config
