import Mathlib.Data.Nat.Notation
import Mathlib.Logic.Basic

/-!
# Runs with fuel

A loop that need not end is a function of fuel: `none` while it still runs, then for
ever the same result, which is a value or a fault. `Ends fails waits run` tells the
three ways such a run can go apart by two conditions: it fails, it waits for ever, or
it returns.
-/

namespace Fuel

variable {ε α β : Type*} {run run' : ℕ → Option (Except ε α)} {fails fails' waits waits' : Prop}

/-- More fuel changes no result. -/
def Stable (run : ℕ → Option (Except ε α)) : Prop :=
  ∀ fuel r, run fuel = some r → ∀ k, run (fuel + k) = some r

/-- The run fails under `fails`, else waits for ever under `waits`, else returns. -/
def Ends (fails waits : Prop) (run : ℕ → Option (Except ε α)) : Prop :=
  (fails ∧ ∃ fuel f, run fuel = some (.error f)) ∨
    (¬fails ∧ waits ∧ ∀ fuel, run fuel = none) ∨
    (¬fails ∧ ¬waits ∧ ∃ fuel a, run fuel = some (.ok a))

theorem ends_ok (fuel : ℕ) {a : α} (hf : ¬fails) (hw : ¬waits) (h : run fuel = some (.ok a)) :
    Ends fails waits run :=
  Or.inr (Or.inr ⟨hf, hw, fuel, a, h⟩)

theorem ends_error (fuel : ℕ) {f : ε} (hf : fails) (h : run fuel = some (.error f)) :
    Ends fails waits run :=
  Or.inl ⟨hf, fuel, f, h⟩

theorem ends_none (hf : ¬fails) (hw : waits) (h : ∀ fuel, run fuel = none) : Ends fails waits run :=
  Or.inr (Or.inl ⟨hf, hw, h⟩)

theorem Ends.congr (h : Ends fails waits run) (hf : fails' ↔ fails) (hw : ¬fails → (waits' ↔ waits)) :
    Ends fails' waits' run := by
  rcases h with ⟨h1, h2⟩ | ⟨h1, h2, h3⟩ | ⟨h1, h2, h3⟩
  · exact Or.inl ⟨hf.2 h1, h2⟩
  · exact Or.inr (Or.inl ⟨hf.not.2 h1, (hw h1).2 h2, h3⟩)
  · exact Or.inr (Or.inr ⟨hf.not.2 h1, (hw h1).not.2 h2, h3⟩)

/-- A run that takes one step and then goes on as another. -/
theorem Ends.step (h : Ends fails waits run') (h0 : run 0 = none) (hs : ∀ fuel, run (fuel + 1) = run' fuel) :
    Ends fails waits run := by
  rcases h with ⟨h1, fuel, f, h2⟩ | ⟨h1, h2, h3⟩ | ⟨h1, h2, fuel, a, h3⟩
  · exact ends_error (fuel + 1) h1 ((hs fuel).trans h2)
  · refine ends_none h1 h2 fun fuel => ?_
    cases fuel with
    | zero => exact h0
    | succ fuel => exact (hs fuel).trans (h3 fuel)
  · exact ends_ok (fuel + 1) h1 h2 ((hs fuel).trans h3)

/-- A run that goes on with the value of another. -/
theorem Ends.map {run'' : ℕ → Option (Except ε β)} (g : α → β) (h : Ends fails waits run)
    (hg : ∀ fuel, run'' fuel = (run fuel).map (Except.map g)) : Ends fails waits run'' := by
  rcases h with ⟨h1, fuel, f, h2⟩ | ⟨h1, h2, h3⟩ | ⟨h1, h2, fuel, a, h3⟩
  · have hfail : run'' fuel = some (.error f) := by rw [hg, h2]; rfl
    exact ends_error fuel h1 hfail
  · exact ends_none h1 h2 fun fuel => by rw [hg, h3]; rfl
  · have hok : run'' fuel = some (.ok (g a)) := by rw [hg, h3]; rfl
    exact ends_ok fuel h1 h2 hok

theorem Stable.map {run'' : ℕ → Option (Except ε β)} (g : α → β) (h : Stable run)
    (hg : ∀ fuel, run'' fuel = (run fuel).map (Except.map g)) : Stable run'' := by
  intro fuel r hr k
  rw [hg] at hr ⊢
  obtain ⟨r', hr', rfl⟩ := Option.map_eq_some_iff.1 hr
  rw [h fuel r' hr' k]
  rfl

theorem Stable.unique (h : Stable run) {fuel fuel' : ℕ} {r r' : Except ε α} (hr : run fuel = some r)
    (hr' : run fuel' = some r') : r = r' := by
  have h1 := h fuel r hr fuel'
  have h2 := h fuel' r' hr' fuel
  rw [Nat.add_comm] at h2
  exact Option.some.inj (h1.symm.trans h2)

/-- **A run comes to an end** unless it waits. -/
theorem Ends.finishes_iff (h : Ends fails waits run) :
    (∃ fuel, run fuel ≠ none) ↔ ¬(¬fails ∧ waits) := by
  rcases h with ⟨h1, fuel, f, h2⟩ | ⟨h1, h2, h3⟩ | ⟨h1, h2, fuel, a, h3⟩
  · exact iff_of_true ⟨fuel, by rw [h2]; simp⟩ fun hc => hc.1 h1
  · exact iff_of_false (fun ⟨fuel, hne⟩ => hne (h3 fuel)) (not_not.2 ⟨h1, h2⟩)
  · exact iff_of_true ⟨fuel, by rw [h3]; simp⟩ fun hc => h2 hc.2

/-- **A run returns** iff it neither fails nor waits. -/
theorem Ends.returns_iff (h : Ends fails waits run) (hs : Stable run) :
    (∃ fuel a, run fuel = some (.ok a)) ↔ ¬fails ∧ ¬waits := by
  rcases h with ⟨h1, fuel, f, h2⟩ | ⟨h1, h2, h3⟩ | ⟨h1, h2, fuel, a, h3⟩
  · refine iff_of_false ?_ fun hc => hc.1 h1
    rintro ⟨fuel', a, ha⟩
    exact absurd (hs.unique h2 ha) (by simp)
  · refine iff_of_false ?_ fun hc => hc.2 h2
    rintro ⟨fuel, a, ha⟩
    rw [h3] at ha
    cases ha
  · exact iff_of_true ⟨fuel, a, h3⟩ ⟨h1, h2⟩

/-- **A run never fails** iff its condition to fail does not hold. -/
theorem Ends.never_fails_iff (h : Ends fails waits run) (hs : Stable run) :
    (∀ fuel f, run fuel ≠ some (.error f)) ↔ ¬fails := by
  rcases h with ⟨h1, fuel, f, h2⟩ | ⟨h1, h2, h3⟩ | ⟨h1, h2, fuel, a, h3⟩
  · exact iff_of_false (fun hc => hc fuel f h2) (not_not.2 h1)
  · refine iff_of_true ?_ h1
    intro fuel f hf
    rw [h3] at hf
    cases hf
  · refine iff_of_true ?_ h1
    intro fuel' f hf
    exact absurd (hs.unique h3 hf) (by simp)

end Fuel
