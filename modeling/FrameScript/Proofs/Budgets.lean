import FrameScript.Machine

/-!
# Calls with a budget

A call takes single steps until one of them ends it, but at most as many as its budget allows. What
it returns does not depend on the budget: a larger one gives the same result, and the same holds of
calls that go on from the results of others.
-/

namespace FrameScript

/-- A call that returns within a budget returns the same within every larger one. -/
def Lasting {α : Type} (call : Nat → Option α) : Prop :=
  ∀ ⦃fuel fuel' : Nat⦄ ⦃a : α⦄, call fuel = some a → fuel ≤ fuel' → call fuel' = some a

namespace Lasting

variable {α β : Type} {call : Nat → Option α} {fuel fuel' : Nat} {a a' : α}

/-- Whatever the budgets, a call that returns twice returns the same. -/
theorem unique (h : Lasting call) (ha : call fuel = some a) (ha' : call fuel' = some a') :
    a = a' := by
  rcases Nat.le_total fuel fuel' with hle | hle
  · exact Option.some.inj ((h ha hle).symm.trans ha')
  · exact Option.some.inj (ha.symm.trans (h ha' hle))

/-- A result that takes no steps is there with any budget. -/
theorem const (result : Option α) : Lasting fun _ => result :=
  fun _ _ _ h _ => h

/-- What is made of the result of a call is there as soon as the result is. -/
theorem map (h : Lasting call) (f : α → β) : Lasting fun fuel => (call fuel).map f := by
  intro fuel fuel' b hb hle
  obtain ⟨a, ha, rfl⟩ := Option.map_eq_some_iff.mp hb
  exact Option.map_eq_some_iff.mpr ⟨a, h ha hle, rfl⟩

/-- A call may be followed by another one with the same budget. -/
theorem bind (h : Lasting call) {next : α → Nat → Option β} (hnext : ∀ a, Lasting (next a)) :
    Lasting fun fuel => (call fuel).bind fun a => next a fuel := by
  intro fuel fuel' b hb hle
  obtain ⟨a, ha, hb⟩ := Option.bind_eq_some_iff.mp hb
  exact Option.bind_eq_some_iff.mpr ⟨a, h ha hle, hnext a hb hle⟩

end Lasting

/-- Takes steps from a state on until one gives a result, but at most a number of them. -/
def iterate {σ α : Type} (step : σ → σ ⊕ α) : Nat → σ → Option α
  | 0, _ => none
  | fuel + 1, s =>
    match step s with
    | .inl s => iterate step fuel s
    | .inr a => some a

/-- Steps that are left over do not change a result. -/
theorem lasting_iterate {σ α : Type} (step : σ → σ ⊕ α) (s : σ) :
    Lasting fun fuel => iterate step fuel s := by
  -- Both budgets pay for the first step, and what is left of them still compares.
  intro fuel
  induction fuel generalizing s with
  | zero =>
    intro _ _ h
    cases h
  | succ fuel ih =>
    intro fuel' a h hle
    obtain ⟨fuel', rfl⟩ : ∃ k, fuel' = k + 1 := ⟨fuel' - 1, by omega⟩
    simp only [iterate] at h ⊢
    cases hstep : step s with
    | inl s' =>
      rw [hstep] at h
      exact ih s' h (Nat.le_of_succ_le_succ hle)
    | inr a => rwa [hstep] at h

end FrameScript
