import Mathlib.Data.List.Basic
import Mathlib.Tactic.Ring

/-!
# Rows and slices

A list that is laid down in rows of one length, and a list that is cut into slices.

* `getElem?_rows`: where an element of a row stands.
* `flatten_slices`: the slices make up the list.
-/

namespace Rows

variable {α : Type*}

/-! ## Rows -/

theorem length_rows {row : ℕ → List α} {m n : ℕ} (h : ∀ i < m, (row i).length = n) :
    ((List.range m).flatMap row).length = m * n := by
  induction m with
  | zero => simp
  | succ m ih =>
    have hrest := ih fun i hi => h i (by omega)
    have hlast := h m (by omega)
    rw [List.range_succ, List.flatMap_append, List.length_append, hrest, List.flatMap_singleton, hlast]
    ring

/-- **Where an element of a row stands.** -/
theorem getElem?_rows {row : ℕ → List α} {m n i j : ℕ} (h : ∀ i < m, (row i).length = n) (hi : i < m) (hj : j < n) :
    ((List.range m).flatMap row)[i * n + j]? = (row i)[j]? := by
  induction m with
  | zero => omega
  | succ m ih =>
    have hshort : ∀ i < m, (row i).length = n := fun i hi => h i (by omega)
    have hlen := length_rows hshort
    rw [List.range_succ, List.flatMap_append, List.flatMap_singleton]
    by_cases hlast : i < m
    · have hin : i * n + j < m * n := by
        calc i * n + j < i * n + n := by omega
          _ = (i + 1) * n := by ring
          _ ≤ m * n := Nat.mul_le_mul_right _ hlast
      rw [List.getElem?_append_left (hlen ▸ hin), ih hshort hlast]
    · obtain rfl : i = m := by omega
      rw [List.getElem?_append_right (by rw [hlen]; omega), hlen, Nat.add_sub_cancel_left]

/-! ## Slices -/

/-- Slices of these lengths, from the front. -/
def slices : List ℕ → List α → List (List α)
  | [], _ => []
  | n :: ns, xs => xs.take n :: slices ns (xs.drop n)

@[simp] theorem length_slices (ns : List ℕ) (xs : List α) : (slices ns xs).length = ns.length := by
  induction ns generalizing xs with
  | nil => rfl
  | cons n ns ih => rw [slices, List.length_cons, List.length_cons, ih]

/-- **The slices make up the list**, if they are as long as it is. -/
theorem flatten_slices {ns : List ℕ} {xs : List α} (h : xs.length = ns.sum) : (slices ns xs).flatten = xs := by
  induction ns generalizing xs with
  | nil => exact (List.length_eq_zero_iff.1 h).symm
  | cons n ns ih =>
    rw [List.sum_cons] at h
    rw [slices, List.flatten_cons, ih (by rw [List.length_drop]; omega), List.take_append_drop]

theorem length_slice {ns : List ℕ} {xs : List α} (h : xs.length = ns.sum) (j : ℕ) :
    ((slices ns xs).getD j []).length = ns.getD j 0 := by
  induction ns generalizing xs j with
  | nil => rfl
  | cons n ns ih =>
    rw [List.sum_cons] at h
    cases j with
    | zero =>
      show (xs.take n).length = n
      rw [List.length_take]
      omega
    | succ j => exact ih (by rw [List.length_drop]; omega) j

end Rows
