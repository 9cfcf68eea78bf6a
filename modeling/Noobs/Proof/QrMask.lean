import Noobs.Proof.QrScan

/-!
# Masks

* `getPenaltyScore_lt`: penalties stay below what the choice of a mask begins with.
* `handleConstructorMasking_auto`: **the mask with the least penalty** is taken, the first of
  them.
-/

namespace Noobs.Qrcodegen

open Canvas

variable {g g' : Grid} {ecl : Ecc} {mask : ℕ}

/-! ## Penalties -/

theorem sum_range_le {f : ℕ → ℕ} {n b : ℕ} (h : ∀ i < n, f i ≤ b) : ((List.range n).map f).sum ≤ n * b := by
  induction n with
  | zero => simp
  | succ n ih =>
    have hrest := ih fun i hi => h i (by omega)
    have hlast := h n (by omega)
    rw [List.range_succ, List.map_append, List.sum_append, List.map_singleton, List.sum_singleton, Nat.add_mul, one_mul]
    omega

theorem runPenalty_le (color : Bool) (run : ℕ) (line : List Bool) : runPenalty color run line ≤ 3 * line.length := by
  induction line generalizing color run with
  | nil => exact Nat.zero_le _
  | cons m line ih =>
    have hnext := ih m 1
    have hsame := ih color (run + 1)
    unfold runPenalty
    rw [List.length_cons]
    unfold PENALTY_N1
    split_ifs <;> omega

theorem linePenalty_le (line : List Bool) : linePenalty line ≤ 3 * line.length := by
  cases line with
  | nil => exact Nat.zero_le _
  | cons m line =>
    have h := runPenalty_le m 1 line
    have heq : linePenalty (m :: line) = runPenalty m 1 line := rfl
    rw [List.length_cons, heq]
    omega

theorem finderPenalty_le (bits x : ℕ) (line : List Bool) : finderPenalty bits x line ≤ 40 * line.length := by
  induction line generalizing bits x with
  | nil => exact Nat.zero_le _
  | cons m line ih =>
    have hrest := ih (((bits <<< 1) &&& 0x7FF) ||| m.toNat) (x + 1)
    rw [List.length_cons]
    simp only [finderPenalty, PENALTY_N3]
    split_ifs <;> omega

theorem balancePenalty_le (black total : ℤ) (fuel : ℕ) (k : ℤ) : balancePenalty black total fuel k ≤ 10 * fuel := by
  induction fuel generalizing k with
  | zero => exact Nat.zero_le _
  | succ fuel ih =>
    have hrest := ih (k + 1)
    unfold balancePenalty PENALTY_N4
    split_ifs <;> omega

theorem blockPenalty_le (g : Grid) : g.blockPenalty ≤ g.size * (g.size * 3) := by
  have hrow : ∀ y < g.size - 1, ((List.range (g.size - 1)).map fun x : ℕ =>
      if g.modules (x, y) = g.modules (x + 1, y) ∧ g.modules (x, y) = g.modules (x, y + 1) ∧
          g.modules (x, y) = g.modules (x + 1, y + 1) then PENALTY_N2 else 0).sum ≤ g.size * 3 := by
    intro y _
    refine (sum_range_le fun x _ => ?_).trans (Nat.mul_le_mul_right 3 (Nat.sub_le _ 1))
    unfold PENALTY_N2
    split_ifs <;> omega
  exact (sum_range_le hrow).trans (Nat.mul_le_mul_right _ (Nat.sub_le _ 1))

/-- **Penalties stay below** what the choice of a mask begins with. -/
theorem getPenaltyScore_lt (h : g.size ≤ 177) : g.getPenaltyScore < 2 ^ 31 - 1 := by
  have hrow : ∀ y, (g.row y).length = g.size := fun y => by simp [Grid.row]
  have hcolumn : ∀ x, (g.column x).length = g.size := fun x => by simp [Grid.column]
  have hrows : ((List.range g.size).map fun y => linePenalty (g.row y)).sum ≤ g.size * (3 * g.size) :=
    sum_range_le fun y _ => (linePenalty_le _).trans (by rw [hrow])
  have hcolumns : ((List.range g.size).map fun x => linePenalty (g.column x)).sum ≤ g.size * (3 * g.size) :=
    sum_range_le fun x _ => (linePenalty_le _).trans (by rw [hcolumn])
  have hfinders : ((List.range g.size).map fun y => finderPenalty 0 0 (g.row y)).sum ≤ g.size * (40 * g.size) :=
    sum_range_le fun y _ => (finderPenalty_le _ _ _).trans (by rw [hrow])
  have hfinders' : ((List.range g.size).map fun x => finderPenalty 0 0 (g.column x)).sum ≤ g.size * (40 * g.size) :=
    sum_range_le fun x _ => (finderPenalty_le _ _ _).trans (by rw [hcolumn])
  have hblocks := blockPenalty_le g
  have hbalance := balancePenalty_le g.black (g.size * g.size) 10 0
  have harea : g.size * g.size ≤ 177 * 177 := Nat.mul_le_mul h h
  have hthree : g.size * (3 * g.size) = 3 * (g.size * g.size) := by ring
  have hthree' : g.size * (g.size * 3) = 3 * (g.size * g.size) := by ring
  have hforty : g.size * (40 * g.size) = 40 * (g.size * g.size) := by ring
  unfold Grid.getPenaltyScore
  omega

/-! ## Formats and masks -/

/-- The modules of the format are function modules already. -/
structure Grid.HasFormat (g : Grid) : Prop where
  size : 21 ≤ g.size
  places : ∀ c ∈ (formatModules g.size 0).map Prod.fst, g.isFunction c = true

/-- With this format. -/
def Grid.formatted (g : Grid) (ecl : Ecc) (mask : ℕ) : Grid := g.painted (formatModules g.size (formatData ecl mask))

/-- With this mask. -/
def Grid.masked (g : Grid) (mask : ℕ) : Grid :=
  { g with
    modules := fun c =>
      if g.Inside c then g.modules c ^^ (invert mask c.1.toNat c.2.toNat && !g.isFunction c) else g.modules c }

/-- A symbol with this format and this mask. -/
def Grid.finished (g : Grid) (ecl : Ecc) (mask : ℕ) : Grid := (g.formatted ecl mask).masked mask

theorem formatModules_places (size data data' : ℕ) :
    (formatModules size data).map Prod.fst = (formatModules size data').map Prod.fst := by
  unfold formatModules
  simp only [List.map_append, List.map_map, List.map_cons, Function.comp_def]

theorem applyMask_ok (hmask : mask < 8) : g.applyMask mask = .ok (g.masked mask) := by
  unfold Grid.applyMask
  rw [if_neg (by omega), Int.toNat_natCast]
  rfl

/-- **A mask undoes itself.** -/
theorem masked_masked (g : Grid) (mask : ℕ) : (g.masked mask).masked mask = g := by
  have hmodules : ((g.masked mask).masked mask).modules = g.modules := by
    funext c
    show (if g.Inside c then (if g.Inside c then g.modules c ^^ (invert mask c.1.toNat c.2.toNat && !g.isFunction c)
      else g.modules c) ^^ (invert mask c.1.toNat c.2.toNat && !g.isFunction c) else
        if g.Inside c then _ else g.modules c) = g.modules c
    split_ifs with h
    · rw [Bool.xor_assoc, Bool.xor_self, Bool.xor_false]
    · rfl
  unfold Grid.masked at hmodules ⊢
  simp only at hmodules ⊢
  rw [hmodules]

theorem formatted_isFunction (h : g.HasFormat) (ecl : Ecc) (mask : ℕ) :
    (g.formatted ecl mask).isFunction = g.isFunction := by
  funext c
  rw [Bool.eq_iff_iff, Grid.formatted, painted_isFunction, formatModules_places _ _ 0]
  exact or_iff_right_of_imp (h.places c)

theorem Grid.HasFormat.formatted (h : g.HasFormat) (ecl : Ecc) (mask : ℕ) : (g.formatted ecl mask).HasFormat :=
  ⟨h.size, fun c hc => by rw [formatted_isFunction h]; exact h.places c hc⟩

/-- The last format stays. -/
theorem formatted_formatted (h : g.HasFormat) (ecl : Ecc) (mask mask' : ℕ) :
    (g.formatted ecl mask').formatted ecl mask = g.formatted ecl mask := by
  have hfunction : ((g.formatted ecl mask').formatted ecl mask).isFunction = (g.formatted ecl mask).isFunction := by
    rw [formatted_isFunction (h.formatted ecl mask'), formatted_isFunction h, formatted_isFunction h]
  have hmodules : ((g.formatted ecl mask').formatted ecl mask).modules = (g.formatted ecl mask).modules :=
    paint_paint (formatModules_places _ _ _) g.modules
  unfold Grid.formatted Grid.painted at hfunction hmodules ⊢
  simp only at hfunction hmodules ⊢
  rw [hfunction, hmodules]

theorem finished_formatted (h : g.HasFormat) (ecl : Ecc) (mask mask' : ℕ) :
    (g.formatted ecl mask').finished ecl mask = g.finished ecl mask := by
  unfold Grid.finished
  rw [formatted_formatted h]

theorem drawFormat_ok (h : g.HasFormat) (ecl : Ecc) (hmask : mask < 8) :
    g.drawFormatBits ecl mask = .ok (g.formatted ecl mask) := drawFormatBits_ok h.size ecl hmask

/-! ## The choice -/

/-- After `k` masks: the grid has another format, perhaps, and the mask is the first of them
with the least penalty. -/
structure Chosen (g : Grid) (ecl : Ecc) (k : ℕ) (s : Masking) : Prop where
  hasFormat : s.grid.HasFormat
  size : s.grid.size = g.size
  finished : ∀ mask, s.grid.finished ecl mask = g.finished ecl mask
  start : k = 0 → s.mask = -1 ∧ s.minPenalty = 2 ^ 31 - 1
  chosen : 0 < k → ∃ best < k, s.mask = best ∧ s.minPenalty = (g.finished ecl best).getPenaltyScore
  least : ∀ mask < k, s.minPenalty ≤ (g.finished ecl mask).getPenaltyScore
  first : ∀ mask < k, (mask : ℤ) < s.mask → s.minPenalty < (g.finished ecl mask).getPenaltyScore

theorem step_ok {k : ℕ} {s : Masking} (hk : k < 8) (hsize : g.size ≤ 177) (h : Chosen g ecl k s) :
    ∃ s', Masking.step ecl s k = .ok s' ∧ Chosen g ecl (k + 1) s' := by
  have hdraw := drawFormat_ok h.hasFormat ecl hk
  have hpenalty : ((s.grid.formatted ecl k).masked k).getPenaltyScore = (g.finished ecl k).getPenaltyScore :=
    congrArg _ (h.finished k)
  have hlt : (g.finished ecl k).getPenaltyScore < 2 ^ 31 - 1 := getPenaltyScore_lt hsize
  have hformat := h.hasFormat.formatted ecl k
  have hfinished : ∀ mask, (s.grid.formatted ecl k).finished ecl mask = g.finished ecl mask := fun mask =>
    (finished_formatted h.hasFormat ecl mask k).trans (h.finished mask)
  have hstep : Masking.step ecl s k = .ok (if (g.finished ecl k).getPenaltyScore < s.minPenalty then
      { grid := s.grid.formatted ecl k, mask := k, minPenalty := (g.finished ecl k).getPenaltyScore }
    else { s with grid := s.grid.formatted ecl k }) := by
    unfold Masking.step
    rw [hdraw, ok_bind, applyMask_ok hk, ok_bind]
    simp only [applyMask_ok hk, masked_masked, ok_bind, hpenalty]
    split_ifs <;> rfl
  refine ⟨_, hstep, ?_⟩
  split_ifs with hless
  · refine ⟨hformat, h.size, hfinished, fun h0 => by omega, fun _ => ⟨k, by omega, rfl, rfl⟩, ?_, ?_⟩
    · intro mask hmask
      by_cases hlast : mask = k
      · rw [hlast]
      · exact hless.le.trans (h.least mask (by omega))
    · intro mask _ hmask
      have hbefore : (mask : ℤ) < k := hmask
      exact hless.trans_le (h.least mask (by omega))
  · have hpos : 0 < k := by
      rcases Nat.eq_zero_or_pos k with h0 | h0
      · rw [(h.start h0).2] at hless
        exact absurd hlt hless
      · exact h0
    obtain ⟨best, hbest, hmask, hmin⟩ := h.chosen hpos
    refine ⟨hformat, h.size, hfinished, fun h0 => by omega, fun _ => ⟨best, by omega, hmask, hmin⟩, ?_, ?_⟩
    · intro mask hmask
      by_cases hlast : mask = k
      · rw [hlast]
        exact not_lt.1 hless
      · exact h.least mask (by omega)
    · intro mask hmask' hbefore
      have hsame : s.mask = best := hmask
      have hin : mask < k := by
        rw [hsame] at hbefore
        omega
      exact h.first mask hin hbefore

theorem foldlM_step (h : g.HasFormat) (hsize : g.size ≤ 177) {k : ℕ} (hk : k ≤ 8) :
    ∃ s, (List.range k).foldlM (Masking.step ecl) { grid := g, mask := -1 } = .ok s ∧ Chosen g ecl k s := by
  induction k with
  | zero =>
    exact ⟨_, rfl, h, rfl, fun _ => rfl, fun _ => ⟨rfl, rfl⟩, fun h0 => absurd h0 (lt_irrefl 0),
      fun _ hlt => absurd hlt (Nat.not_lt_zero _), fun _ hlt => absurd hlt (Nat.not_lt_zero _)⟩
  | succ k ih =>
    obtain ⟨s, hrun, hs⟩ := ih (by omega)
    obtain ⟨s', hstep, hs'⟩ := step_ok (by omega) hsize hs
    refine ⟨s', ?_, hs'⟩
    rw [List.range_succ, List.foldlM_append, hrun, ok_bind, List.foldlM_cons, hstep]
    rfl

theorem handleConstructorMasking_given (h : g.HasFormat) (ecl : Ecc) (hmask : mask < 8) :
    g.handleConstructorMasking ecl mask = .ok (g.finished ecl mask, mask) := by
  have hne : ¬(mask : ℤ) = -1 := by omega
  have hin : ¬((mask : ℤ) < 0 ∨ 7 < (mask : ℤ)) := by omega
  unfold Grid.handleConstructorMasking
  rw [if_neg hne]
  simp only [pure_bind, if_neg hin, Int.toNat_natCast, drawFormat_ok h ecl hmask, ok_bind, applyMask_ok hmask]
  rfl

/-- **The mask with the least penalty** is taken, the first of them. -/
theorem handleConstructorMasking_auto (h : g.HasFormat) (hsize : g.size ≤ 177) (ecl : Ecc) :
    ∃ best < 8, g.handleConstructorMasking ecl (-1) = .ok (g.finished ecl best, best) ∧
      (∀ mask < 8, (g.finished ecl best).getPenaltyScore ≤ (g.finished ecl mask).getPenaltyScore) ∧
      ∀ mask < best, (g.finished ecl best).getPenaltyScore < (g.finished ecl mask).getPenaltyScore := by
  obtain ⟨s, hrun, hs⟩ := @foldlM_step g ecl h hsize 8 le_rfl
  obtain ⟨best, hbest, hmask, hmin⟩ := hs.chosen (by omega)
  have hin : ¬((best : ℤ) < 0 ∨ 7 < (best : ℤ)) := by omega
  have hleast := hs.least
  have hfirst := hs.first
  rw [hmin] at hleast hfirst
  refine ⟨best, hbest, ?_, hleast, fun mask hlt => hfirst mask (by omega) (by omega)⟩
  have hdone : (s.grid.formatted ecl best).masked best = g.finished ecl best := hs.finished best
  unfold Grid.handleConstructorMasking
  rw [if_pos rfl, hrun, ok_bind]
  simp only [hmask, if_neg hin, Int.toNat_natCast, drawFormat_ok hs.hasFormat ecl hbest, ok_bind, applyMask_ok hbest,
    hdone]
  rfl

/-- What was there for a format before does not matter. -/
theorem handleConstructorMasking_formatted (h : g.HasFormat) (hsize : g.size ≤ 177) (ecl : Ecc) (mask : ℕ) {mask' : ℤ}
    (hmask' : -1 ≤ mask' ∧ mask' ≤ 7) :
    (g.formatted ecl mask).handleConstructorMasking ecl mask' = g.handleConstructorMasking ecl mask' := by
  have hsame := fun m => finished_formatted h ecl m mask
  by_cases hauto : mask' = -1
  · obtain ⟨best, hbest, hrun, hleast, hfirst⟩ := handleConstructorMasking_auto h hsize ecl
    obtain ⟨best', hbest', hrun', hleast', hfirst'⟩ := handleConstructorMasking_auto (h.formatted ecl mask) hsize ecl
    simp only [hsame] at hrun' hleast' hfirst'
    have heq : best' = best := by
      rcases Nat.lt_trichotomy best' best with hlt | heq | hlt
      · exact absurd (hleast' best hbest) (not_le.2 (hfirst best' hlt))
      · exact heq
      · exact absurd (hleast best' hbest') (not_le.2 (hfirst' best hlt))
    rw [hauto, hrun, hrun', heq]
  · obtain ⟨m, rfl⟩ : ∃ m : ℕ, mask' = m := ⟨mask'.toNat, by omega⟩
    rw [handleConstructorMasking_given h ecl (by omega), handleConstructorMasking_given (h.formatted ecl mask) ecl (by omega),
      hsame]

end Noobs.Qrcodegen
