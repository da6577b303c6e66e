import FrameScript.Registry

/-!
# Results

What the parts of a calculation gave when the whole of it succeeded.
-/

namespace FrameScript

/-- A calculation in two parts succeeds when both do. -/
theorem bind_eq_ok {ε α β : Type} {x : Except ε α} {f : α → Except ε β} {b : β} :
    (x >>= f) = .ok b ↔ ∃ a, x = .ok a ∧ f a = .ok b := by
  cases x with
  | error e => simp [Bind.bind, Except.bind]
  | ok a => simp [Bind.bind, Except.bind]

/-- A calculation in two parts fails when the first or the second does. -/
theorem bind_eq_error {ε α β : Type} {x : Except ε α} {f : α → Except ε β} {e : ε} :
    (x >>= f) = .error e ↔ x = .error e ∨ ∃ a, x = .ok a ∧ f a = .error e := by
  cases x with
  | error d => simp [Bind.bind, Except.bind]
  | ok a => simp [Bind.bind, Except.bind]

/-- A calculation that only returns something succeeds with it. -/
theorem pure_eq_ok {ε α : Type} {a b : α} : (pure a : Except ε α) = .ok b ↔ a = b := by
  simp [pure, Except.pure]

/-- A changed result is there when the result is. -/
theorem map_eq_ok {ε α β : Type} {x : Except ε α} {f : α → β} {b : β} :
    x.map f = .ok b ↔ ∃ a, x = .ok a ∧ f a = b := by
  cases x with
  | error e => simp [Except.map]
  | ok a => simp [Except.map]

/-- Changing the result does not change a failure. -/
theorem map_eq_error {ε α β : Type} {x : Except ε α} {f : α → β} {e : ε} :
    x.map f = .error e ↔ x = .error e := by
  cases x with
  | error d => simp [Except.map]
  | ok a => simp [Except.map]

/-- Changing the failure does not change a result. -/
theorem mapError_eq_ok {ε ε' α : Type} {x : Except ε α} {f : ε → ε'} {a : α} :
    x.mapError f = .ok a ↔ x = .ok a := by
  cases x with
  | error e => constructor <;> intro h <;> cases h
  | ok b => constructor <;> intro h <;> cases h <;> rfl

/-- A builtin is found under its own name. -/
theorem Registry.name_of_find? {r : Registry} {name : String} {b : Builtin}
    (h : r.find? name = some b) : b.name = name := by
  unfold find? at h
  simpa using List.find?_some h

/-- A call that resolves has the name and the number of arguments of the call in the source. -/
theorem Registry.eq_of_resolve {r : Registry} {name : String} {count : Nat} {value : Bool}
    {site : CallSite} (h : r.resolve name count value = .ok site) :
    site = { name, arity := count, producesValue := value } := by
  unfold resolve at h
  cases hfind : r.find? name with
  | none => simp [hfind] at h
  | some b =>
    have hname := name_of_find? hfind
    simp only [hfind] at h
    split at h
    · cases h
    · next harity =>
      split at h
      · cases h
      · cases h
        simp only [ne_eq, Decidable.not_not] at harity
        rw [hname, harity]

end FrameScript
