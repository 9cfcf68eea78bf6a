import Mathlib.Data.List.Basic

/-!
# Simulations

A machine is a function `step : S → L → S` that moves a state on by a label. One machine
simulates the steps of another if each of these is a run of its own, along the labels
`labels s l`, from the abstraction of the one state to that of the other. `Inv` holds of
the states in question.

* `Simulates.run`: whole runs are simulated, and keep `Inv`.
* `Simulates.comp`: simulations compose.
-/

namespace Simulation

variable {S A B L K J : Type*} {step : S → L → S} {step' : A → K → A} {step'' : B → J → B}
  {abs : S → A} {abs' : A → B} {Inv : S → Prop} {Inv' : A → Prop} {labels : S → L → List K}
  {labels' : A → K → List J}

/-- Every step from a state of `Inv` keeps `Inv` and is matched by a run of `step'`. -/
structure Simulates (step : S → L → S) (step' : A → K → A) (abs : S → A) (Inv : S → Prop)
    (labels : S → L → List K) : Prop where
  keeps : ∀ s l, Inv s → Inv (step s l)
  matched : ∀ s l, Inv s → abs (step s l) = (labels s l).foldl step' (abs s)

/-- The labels that match a run. -/
def runLabels (step : S → L → S) (labels : S → L → List K) : S → List L → List K
  | _, [] => []
  | s, l :: ls => labels s l ++ runLabels step labels (step s l) ls

/-- **Whole runs are simulated.** -/
theorem Simulates.run (h : Simulates step step' abs Inv labels) {s : S} (hs : Inv s) (ls : List L) :
    Inv (ls.foldl step s) ∧
      abs (ls.foldl step s) = (runLabels step labels s ls).foldl step' (abs s) := by
  induction ls generalizing s with
  | nil => exact ⟨hs, rfl⟩
  | cons l ls ih =>
    obtain ⟨hinv, habs⟩ := ih (h.keeps s l hs)
    refine ⟨hinv, ?_⟩
    rw [List.foldl_cons, habs, h.matched s l hs, runLabels, List.foldl_append]

/-- **Simulations compose.** -/
theorem Simulates.comp (h : Simulates step step' abs Inv labels)
    (h' : Simulates step' step'' abs' Inv' labels') :
    Simulates step step'' (fun s => abs' (abs s)) (fun s => Inv s ∧ Inv' (abs s))
      (fun s l => runLabels step' labels' (abs s) (labels s l)) where
  keeps := by
    intro s l ⟨hs, habs⟩
    refine ⟨h.keeps s l hs, ?_⟩
    rw [h.matched s l hs]
    exact (h'.run habs (labels s l)).1
  matched := by
    intro s l ⟨hs, habs⟩
    rw [h.matched s l hs]
    exact (h'.run habs (labels s l)).2

/-- Where each step is matched by the steps its own label names, so is each run. -/
theorem runLabels_flatMap (f : L → List K) (s : S) (ls : List L) :
    runLabels step (fun _ => f) s ls = ls.flatMap f := by
  induction ls generalizing s with
  | nil => rfl
  | cons l ls ih => rw [runLabels, ih, List.flatMap_cons]

end Simulation
