import Mathlib.Order.CompletePartialOrder
import Mathlib.Order.Interval.Set.Disjoint
import Mathlib.Data.List.Pairwise
import Mathlib.Data.Int.ModEq
import Mathlib.Tactic.Linarith
import Mathlib.Tactic.Ring

/-!
# Extents laid out one behind the other

`Laid lo es`: the extents `es` are nonempty and each starts strictly behind the end
of the one before it, the first strictly behind `lo`. Such extents are pairwise
disjoint (`Laid.disjoint`), and disjoint from whatever ends by `lo`
(`Laid.disjoint_before`).

`alignUp a x` is the least multiple of `a` at or above `x`.
-/

/-- A half-open range. -/
structure Extent (α : Type*) where
  start : α
  stop : α

namespace Extent

variable {α : Type*} [LinearOrder α]

/-- The points of an extent. -/
def points (e : Extent α) : Set α := Set.Ico e.start e.stop

/-- The extents stand one behind the other, strictly behind `lo`. -/
def Laid (lo : α) : List (Extent α) → Prop
  | [] => True
  | e :: es => lo < e.start ∧ e.start < e.stop ∧ Laid e.stop es

theorem disjoint_points {a b : Extent α} (h : a.stop ≤ b.start) : Disjoint a.points b.points :=
  Set.Ico_disjoint_Ico.2 ((min_le_left _ _).trans (h.trans (le_max_right _ _)))

theorem Laid.lo_lt {es : List (Extent α)} : ∀ {lo : α}, Laid lo es → ∀ e ∈ es, lo < e.start := by
  induction es with
  | nil => intro lo _ e he; simp at he
  | cons d es ih =>
    intro lo h e he
    obtain ⟨h1, h2, h3⟩ := h
    rcases List.mem_cons.1 he with rfl | he
    · exact h1
    · exact h1.trans (h2.trans (ih h3 e he))

theorem Laid.pos {es : List (Extent α)} : ∀ {lo : α}, Laid lo es → ∀ e ∈ es, e.start < e.stop := by
  induction es with
  | nil => intro lo _ e he; simp at he
  | cons d es ih =>
    intro lo h e he
    obtain ⟨-, h2, h3⟩ := h
    rcases List.mem_cons.1 he with rfl | he
    · exact h2
    · exact ih h3 e he

/-- Every extent of the row ends before the next ones start. -/
theorem Laid.pairwise {es : List (Extent α)} : ∀ {lo : α}, Laid lo es →
    es.Pairwise (fun a b => a.stop < b.start) := by
  induction es with
  | nil => intro lo _; exact List.Pairwise.nil
  | cons d es ih =>
    intro lo h
    exact List.pairwise_cons.2 ⟨fun e he => h.2.2.lo_lt e he, ih h.2.2⟩

/-- **Extents of a row are pairwise disjoint.** -/
theorem Laid.disjoint {lo : α} {es : List (Extent α)} (h : Laid lo es) :
    es.Pairwise (fun a b => Disjoint a.points b.points) :=
  h.pairwise.imp fun hab => disjoint_points hab.le

/-- What ends by `lo` is disjoint from a row behind `lo`. -/
theorem Laid.disjoint_before {lo : α} {es : List (Extent α)} (h : Laid lo es) {b : Extent α}
    (hb : b.stop ≤ lo) : ∀ e ∈ es, Disjoint b.points e.points :=
  fun e he => disjoint_points (hb.trans (h.lo_lt e he).le)

end Extent

/-! ## Alignment -/

/-- The least multiple of `a` at or above `x`. -/
def alignUp (a x : ℤ) : ℤ := x + (-x) % a

theorem le_alignUp {a : ℤ} (ha : 0 < a) (x : ℤ) : x ≤ alignUp a x := by
  have := Int.emod_nonneg (-x) ha.ne'
  unfold alignUp; omega

theorem dvd_alignUp (a x : ℤ) : a ∣ alignUp a x := by
  have h := Int.mul_ediv_add_emod (-x) a
  exact ⟨-((-x) / a), by unfold alignUp; linarith⟩

theorem isLeast_alignUp {a : ℤ} (ha : 0 < a) (x : ℤ) : IsLeast {s | a ∣ s ∧ x ≤ s} (alignUp a x) := by
  refine ⟨⟨dvd_alignUp a x, le_alignUp ha x⟩, ?_⟩
  rintro s ⟨hs, hxs⟩
  have hlt := Int.emod_lt_of_pos (-x) ha
  -- the next multiple below is already below `x`
  obtain ⟨d, hd⟩ := Int.dvd_sub hs (dvd_alignUp a x)
  by_contra hlow
  have hneg : d ≤ -1 := by
    by_contra hd0
    have := mul_nonneg ha.le (show 0 ≤ d by omega)
    omega
  have := mul_le_mul_of_nonneg_left hneg ha.le
  unfold alignUp at *
  linarith

/-- Moving `x` by a multiple of `a` moves its alignment along. -/
theorem alignUp_add {a b : ℤ} (hb : a ∣ b) (x : ℤ) : alignUp a (b + x) = b + alignUp a x := by
  obtain ⟨k, rfl⟩ := hb
  unfold alignUp
  rw [show -(a * k + x) = -x + a * -k by ring, Int.add_mul_emod_self_left]
  ring
