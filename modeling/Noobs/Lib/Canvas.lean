import Mathlib.Data.List.Nodup
import Mathlib.Logic.Function.Basic

/-!
# Canvases

A function that is written to at one place after the other.

* `paint_congr`: what is written does not depend on what was there.
* `paint_paint`: writing one thing and then another at the same places leaves the second.
* `map_paint_zip`: a list that is laid out over some places is read back from them.
-/

namespace Canvas

variable {κ β : Type*} [DecidableEq κ] {writes : List (κ × β)} {f : κ → β} {c : κ}

/-- These writes, the last of them at each place. -/
def paint (writes : List (κ × β)) (f : κ → β) : κ → β := writes.foldl (fun f w => Function.update f w.1 w.2) f

@[simp] theorem paint_nil (f : κ → β) : paint [] f = f := rfl

theorem paint_cons (w : κ × β) (writes : List (κ × β)) (f : κ → β) :
    paint (w :: writes) f = paint writes (Function.update f w.1 w.2) := rfl

theorem paint_append (writes writes' : List (κ × β)) (f : κ → β) :
    paint (writes ++ writes') f = paint writes' (paint writes f) := List.foldl_append

/-- Elsewhere nothing changes. -/
theorem paint_of_notMem (h : c ∉ writes.map Prod.fst) : paint writes f c = f c := by
  induction writes generalizing f with
  | nil => rfl
  | cons w writes ih =>
    rw [List.map_cons, List.mem_cons, not_or] at h
    obtain ⟨hne, hrest⟩ := h
    rw [paint_cons, ih hrest, Function.update_of_ne hne]

/-- **What is written** does not depend on what was there. -/
theorem paint_congr (h : c ∈ writes.map Prod.fst) (f g : κ → β) : paint writes f c = paint writes g c := by
  induction writes generalizing f g with
  | nil => cases h
  | cons w writes ih =>
    rw [paint_cons, paint_cons]
    by_cases hrest : c ∈ writes.map Prod.fst
    · exact ih hrest _ _
    · have hhere : c = w.1 := (List.mem_cons.1 (List.map_cons ▸ h)).resolve_right hrest
      rw [paint_of_notMem hrest, paint_of_notMem hrest, hhere, Function.update_self, Function.update_self]

/-- **Writing again** at the same places leaves nothing of the first time. -/
theorem paint_paint {writes' : List (κ × β)} (h : writes.map Prod.fst = writes'.map Prod.fst) (f : κ → β) :
    paint writes' (paint writes f) = paint writes' f := by
  funext c
  by_cases hc : c ∈ writes'.map Prod.fst
  · exact paint_congr hc _ _
  · rw [paint_of_notMem hc, paint_of_notMem hc, paint_of_notMem (h ▸ hc)]

/-- **A list that is laid out** over some places is read back from them. -/
theorem map_paint_zip {places : List κ} (hnodup : places.Nodup) {values : List β}
    (hlen : values.length ≤ places.length) (f : κ → β) :
    places.map (paint (places.zip values) f) = values ++ (places.drop values.length).map f := by
  induction places generalizing values f with
  | nil =>
    obtain rfl : values = [] := List.length_eq_zero_iff.1 (Nat.le_zero.1 hlen)
    rfl
  | cons p places ih =>
    obtain ⟨hp, hnodup⟩ := List.nodup_cons.1 hnodup
    cases values with
    | nil => rfl
    | cons v values =>
      have hlen' : values.length ≤ places.length := Nat.le_of_succ_le_succ hlen
      have hnot : p ∉ (places.zip values).map Prod.fst := fun h => by
        obtain ⟨t, ht, rfl⟩ := List.mem_map.1 h
        exact hp (List.of_mem_zip ht).1
      have hdrop : (places.drop values.length).map (Function.update f p v) = (places.drop values.length).map f :=
        List.map_congr_left fun q hq => Function.update_of_ne (ne_of_mem_of_not_mem (List.mem_of_mem_drop hq) hp) _ _
      rw [List.zip_cons_cons, List.map_cons, paint_cons, ih hnodup hlen', paint_of_notMem hnot, Function.update_self,
        hdrop]
      rfl

end Canvas
