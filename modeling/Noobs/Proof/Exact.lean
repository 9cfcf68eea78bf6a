import Noobs.Proof.Gaps
import Noobs.Proof.Wrap

/-!
# When the 32-bit plan is the exact one

What is proved of plans on unbounded integers holds of the target's wherever no
counter leaves an `int` (`PlanFits`).

* `checkPartitions_exact`, `checkImages_exact`: the checks enter and charge the same.
* `placePartitions_exact`: the loop places the same.
* `prepareImages_exact`: **the plan of the target is the exact one** if it fits.
-/

namespace Noobs

variable {m m' : InstallManager} {p : PartitionInfo} {ps qs : List PartitionInfo} {extra off : ℤ}

/-- Two computations agree that go on alike from the values the first part can return. -/
theorem bind_congr_ok {ε α β : Type} {x : Except ε α} {f g : α → Except ε β}
    (h : ∀ a, x = .ok a → f a = g a) : (x >>= f) = (x >>= g) := by
  cases x with
  | error e => rfl
  | ok a => exact h a rfl

/-! ## The checks -/

/-- The counters tell the partitions of the map, which `ps` and `extra` MB besides can join
before one of them leaves an `int`. -/
structure Room (m : InstallManager) (ps : List PartitionInfo) (extra : ℤ) : Prop where
  counted : m.numexpandparts = (m.partitionMap.values.map maxCount).sum
  covered : (m.partitionMap.values.map PartitionInfo.partitionSizeNominal).sum ≤ m.totalnominalsize
  numbers : NumbersFit (highest m.partitionMap) ps
  sizes : ∀ p ∈ ps, 0 ≤ p.partitionSizeNominal
  parts : 0 ≤ m.numparts ∧ m.numparts + ps.length < 2 ^ 31
  maximised : 0 ≤ m.numexpandparts ∧ m.numexpandparts + ps.length < 2 ^ 31
  budget : 0 ≤ m.totalnominalsize ∧ m.totalnominalsize + (ps.map costMB).sum + extra < 2 ^ 31
  extra_nonneg : 0 ≤ extra

/-- Sums over the map with one more partition. -/
theorem sum_insert {map : SortedMap ℤ PartitionInfo} {n : ℤ} (h : map.contains n = false)
    (f : PartitionInfo → ℤ) : ((map.insert n p).values.map f).sum = f p + (map.values.map f).sum := by
  have hperm := ((SortedMap.insert_perm (v := p) h).map Prod.snd).map f
  exact hperm.sum_eq

theorem partitionNumber_next {map : SortedMap ℤ PartitionInfo} (h : p.requiresPartitionNumber = 0) :
    partitionNumber unbounded map p = highest map + 1 := by
  unfold partitionNumber highest
  rw [if_neg (not_not.2 h)]
  cases map.keys.getLast? with
  | none => rfl
  | some k => rfl

/-- **A number that fits** is the exact one. -/
theorem partitionNumber_exact {map : SortedMap ℤ PartitionInfo} (h : NumbersFit (highest map) (p :: ps)) :
    partitionNumber int32 map p = partitionNumber unbounded map p ∧
      NumbersFit (highest (map.insert (partitionNumber unbounded map p)
        (p.onDevice (partitionNumber unbounded map p)))) ps := by
  rw [highest_insert]
  rw [NumbersFit] at h
  have h5 := five_le_highest map
  by_cases h0 : p.requiresPartitionNumber = 0
  · rw [if_pos h0] at h
    rw [partitionNumber_auto h0, partitionNumber_next h0, int32_eq (by omega) h.1,
      max_eq_right (by omega)]
    exact ⟨rfl, h.2⟩
  · rw [if_neg h0] at h
    rw [partitionNumber_required _ h0, partitionNumber_required _ h0]
    exact ⟨rfl, h.2⟩

/-- `checkPartition` by what it enters. -/
theorem checkPartition_eq (I : IntType) (m : InstallManager) (p : PartitionInfo) :
    checkPartition I m p =
      let n := partitionNumber I m.partitionMap p
      if m.partitionMap.contains n then
        .error ("More than one operating system requires partition number " ++ toString n)
      else if n = 1 ∨ n = 5 then .error "Operating system cannot require a system partition (1,5)"
      else if (n = 2 ∧ m.partitionMap.contains 4) ∨ (n = 4 ∧ m.partitionMap.contains 2) then
        .error "Operating system cannot claim both primary partitions 2 and 4"
      else .ok (p.onDevice n, m.enterAs I n p) := rfl

/-- **One check** enters and charges the same, and leaves room for the others. -/
theorem checkPartition_exact (h : Room m (p :: ps) extra) :
    checkPartition int32 m p = checkPartition unbounded m p ∧
      ∀ p' m', checkPartition unbounded m p = .ok (p', m') → Room m' ps extra := by
  obtain ⟨hcounted, hcovered, hnumbers, hsizes, hparts, hmax, hbudget, hextra⟩ := h
  obtain ⟨hn, hrest⟩ := partitionNumber_exact hnumbers
  rw [List.forall_mem_cons] at hsizes
  rw [List.length_cons] at hparts hmax
  rw [List.map_cons, List.sum_cons] at hbudget
  have hcost := costMB_nonneg hsizes.1
  have hlater := sum_costMB_nonneg hsizes.2
  push_cast at hparts hmax
  -- the room bounds every counter the check changes
  have hcharged : charged int32 m.totalnominalsize p = charged unbounded m.totalnominalsize p := by
    have hwrap := charged_int32 m.totalnominalsize p
    rw [int32_eq (by omega) (by omega), int32_eq (by omega) (by omega)] at hwrap
    rw [hwrap, charged_unbounded]
  have henter : ∀ n, m.enterAs int32 n p = m.enterAs unbounded n p := by
    intro n
    unfold InstallManager.enterAs
    rw [hcharged, int32_eq (x := m.numparts + 1) (by omega) (by omega),
      int32_eq (x := m.numexpandparts + 1) (by omega) (by omega)]
  refine ⟨?_, ?_⟩
  · rw [checkPartition_eq, checkPartition_eq, hn]
    simp only [henter]
  · intro p' m' hok
    obtain ⟨n, rfl, hfree, -, -, -, -, -, rfl⟩ := checkPartition_ok hok
    have hcount : 0 ≤ maxCount p ∧ maxCount p ≤ 1 := by
      unfold maxCount
      split_ifs <;> omega
    have hover : p.partitionSizeNominal ≤ costMB p := by
      unfold costMB overheadMB
      split_ifs <;> omega
    -- and it keeps room for the partitions behind
    refine ⟨?_, ?_, hrest, hsizes.2, ?_, ?_, ?_, hextra⟩
    · simp only [InstallManager.enter, sum_insert hfree, maxCount_onDevice]
      omega
    · simp only [InstallManager.enter, sum_insert hfree, PartitionInfo.onDevice]
      omega
    · simp only [InstallManager.enter]
      omega
    · simp only [InstallManager.enter]
      omega
    · simp only [InstallManager.enter]
      omega

/-- **A list of checks** enters and charges the same. -/
theorem checkPartitions_exact (h : Room m (ps ++ qs) extra) :
    checkPartitions int32 m ps = checkPartitions unbounded m ps ∧
      ∀ ps' m', checkPartitions unbounded m ps = .ok (ps', m') → Room m' qs extra := by
  induction ps generalizing m with
  | nil =>
    refine ⟨rfl, ?_⟩
    intro ps' m' hr
    obtain ⟨-, rfl⟩ := Prod.mk.inj (Except.ok.inj hr)
    exact h
  | cons p ps ih =>
    obtain ⟨hone, hroom⟩ := checkPartition_exact h
    constructor
    · unfold checkPartitions
      rw [hone]
      refine bind_congr_ok fun r hr => ?_
      rw [(ih (hroom r.1 r.2 hr)).1]
    · intro ps' m' hr
      obtain ⟨p₁, m₁, ps₁, h1, h2, -⟩ := checkPartitions_cons hr
      exact (ih (hroom p₁ m₁ h1)).2 ps₁ m' h2

variable {b s : ℤ}

/-- A remainder that aligning and enlarging subtract. -/
theorem tmod_alignment_bounds {x : ℤ} (hx : 0 ≤ x) :
    0 ≤ x.tmod partitionAlignment ∧ x.tmod partitionAlignment < 8192 := by
  have hmod : x.tmod partitionAlignment = x % 8192 := Int.tmod_eq_emod_of_nonneg hx
  omega

/-- **A partition starts** at the exact sector. -/
theorem partitionStart_exact (h1 : -1 ≤ off) (h2 : off + 2 + 8192 < 2 ^ 31) :
    partitionStart int32 off p = partitionStart unbounded off p := by
  have hgap : int32 (off + partitionGap) = off + partitionGap :=
    int32_eq (by unfold partitionGap; omega) (by unfold partitionGap; omega)
  have hmod := tmod_alignment_bounds (x := off + partitionGap) (by unfold partitionGap; omega)
  have halign : int32 (off + partitionGap + (partitionAlignment - (off + partitionGap).tmod partitionAlignment)) =
      off + partitionGap + (partitionAlignment - (off + partitionGap).tmod partitionAlignment) := by
    unfold partitionGap partitionAlignment at *
    exact int32_eq (by omega) (by omega)
  unfold partitionStart
  simp only [hgap, halign]

theorem partitionStart_bounds (h1 : -1 ≤ off) (hoff : off ≤ b) (hp : p.offset ≤ b)
    (h : partitionStart unbounded off p = .ok s) : 1 ≤ s ∧ s ≤ b + 2 + 8192 := by
  have hmod := tmod_alignment_bounds (x := off + partitionGap) (by unfold partitionGap; omega)
  unfold partitionStart at h
  by_cases hfix : p.offset ≠ 0
  · rw [if_pos hfix] at h
    split_ifs at h with hlow
    obtain rfl := Except.ok.inj h
    omega
  · rw [if_neg hfix] at h
    simp only [unbounded] at h
    unfold partitionGap partitionAlignment at *
    split_ifs at h with halign
    · obtain rfl := Except.ok.inj h
      omega
    · obtain rfl := Except.ok.inj h
      omega

/-- **A partition gets** the exact sectors. -/
theorem partitionSectors_exact (hg : 0 ≤ sizeMB m p) (hs : 1 ≤ s)
    (hfit : s + 2048 * sizeMB m p + 8192 < 2 ^ 31) (hcard : 0 ≤ m.totalSectors ∧ m.totalSectors < 2 ^ 31)
    (isLast : Bool) : partitionSectors int32 m isLast s p = partitionSectors unbounded m isLast s p := by
  have hmb : (if p.wantMaximised then int32 (p.partitionSizeNominal + m.extraSpacePerPartition)
      else p.partitionSizeNominal) = sizeMB m p := by
    unfold sizeMB at hg hfit ⊢
    split_ifs at hg hfit ⊢
    · exact int32_eq (by omega) (by omega)
    · rw [add_zero]
  unfold partitionSectors
  rw [hmb, partsizeMB_eq]
  simp only [unbounded]
  set S := sizeMB m p
  rw [int32_eq (x := S * 2048) (by omega) (by omega)]
  cases isLast with
  | true =>
    simp only [if_true]
    rw [int32_eq (x := m.totalSectors - s - S * 2048) (by omega) (by omega),
      int32_eq (x := S * 2048 + (m.totalSectors - s - S * 2048)) (by omega) (by omega)]
  | false =>
    -- whatever it is shrunk to, enlarging it stays below the next boundary
    have henlarge : ∀ x, 0 ≤ x + partitionGap → x ≤ S * 2048 →
        int32 (x + partitionGap) = x + partitionGap ∧
          int32 (x + (partitionAlignment - (x + partitionGap).tmod partitionAlignment)) =
            x + (partitionAlignment - (x + partitionGap).tmod partitionAlignment) := by
      intro x h0 hx
      have hmod := tmod_alignment_bounds h0
      unfold partitionGap partitionAlignment at *
      exact ⟨int32_eq (by omega) (by omega), int32_eq (by omega) (by omega)⟩
    have hshrunk : int32 (S * 2048 - partitionGap) = S * 2048 - partitionGap := by
      unfold partitionGap
      exact int32_eq (by omega) (by omega)
    simp only [Bool.false_eq_true, if_false, hshrunk]
    by_cases hshrink : (S * 2048).tmod partitionAlignment = 0 ∧ p.fsType ≠ "raw".toList
    · obtain ⟨hgap, halign⟩ := henlarge (S * 2048 - partitionGap) (by omega) (by unfold partitionGap; omega)
      simp only [if_pos hshrink, hgap, halign]
    · obtain ⟨hgap, halign⟩ := henlarge (S * 2048) (by unfold partitionGap; omega) le_rfl
      simp only [if_neg hshrink, hgap, halign]

theorem partitionSectors_bounds (hg : 0 ≤ sizeMB m p) :
    -2 ≤ partitionSectors unbounded m false s p ∧
      partitionSectors unbounded m false s p ≤ 2048 * sizeMB m p + 8190 := by
  rw [partitionSectors_inner hg]
  split_ifs <;> omega

/-- How far the loop moves on for a partition at most. -/
def reachSectors (m : InstallManager) (p : PartitionInfo) : ℤ := 2048 * sizeMB m p + 16388

/-- **The loop places the same** if it stays within an `int`: no partition starts behind `b`
and what those before it reach. -/
theorem placePartitions_exact {l : List (ℤ × PartitionInfo)}
    (hcard : 0 ≤ m.totalSectors ∧ m.totalSectors < 2 ^ 31)
    (hl : ∀ e ∈ l, 0 ≤ sizeMB m e.2 ∧ e.2.offset ≤ b) (h1 : -1 ≤ off) (hoff : off ≤ b)
    (hfit : b + (l.map fun e => reachSectors m e.2).sum < 2 ^ 31) :
    placePartitions int32 m off l = placePartitions unbounded m off l := by
  induction l generalizing off b with
  | nil => rfl
  | cons e l ih =>
    obtain ⟨n, p⟩ := e
    obtain ⟨⟨hg, hp⟩, hl⟩ := List.forall_mem_cons.1 hl
    rw [List.map_cons, List.sum_cons] at hfit
    have hreach : reachSectors m p = 2048 * sizeMB m p + 16388 := rfl
    simp only at hg hp hfit
    have hrest : 0 ≤ (l.map fun e => reachSectors m e.2).sum := by
      apply List.sum_nonneg
      intro r hr
      obtain ⟨e, he, rfl⟩ := List.mem_map.1 hr
      have := (hl e he).1
      unfold reachSectors
      omega
    unfold placePartitions
    rw [partitionStart_exact h1 (by omega)]
    refine bind_congr_ok fun s hs => ?_
    -- the bound moves on by what this partition can reach
    obtain ⟨hs1, hs2⟩ := partitionStart_bounds h1 hoff hp hs
    have hsize := partitionSectors_exact (m := m) hg hs1 (by omega) hcard l.isEmpty
    simp only [hsize]
    cases l with
    | nil => rfl
    | cons d l =>
      obtain ⟨hlow, hhigh⟩ := partitionSectors_bounds (m := m) (s := s) hg
      have hnext : ∀ e ∈ d :: l, 0 ≤ sizeMB m e.2 ∧ e.2.offset ≤ b + reachSectors m p := by
        intro e he
        obtain ⟨he1, he2⟩ := hl e he
        omega
      simp only [List.isEmpty_cons, unbounded]
      rw [int32_eq (x := s + partitionSectors unbounded m false s p) (by omega) (by omega),
        ih hnext (by omega) (by omega) (by omega)]

/-! ## The calculation -/

variable {sys : Sysfs}

/-- **A plan fits** an `int`: its numbers and its budget with `extra` MB, and every sector
the loop can reach from the settings partition or from a fixed offset. -/
structure PlanFits (sys : Sysfs) (ps : List PartitionInfo) (extra : ℤ) : Prop where
  numbers : NumbersFit 5 ps
  sizes : ∀ p ∈ ps, 0 ≤ p.partitionSizeNominal
  budget : (ps.map costMB).sum + extra < 2 ^ 31
  extra_nonneg : 0 ≤ extra
  settings : sys.startP5 + sys.sizeP5 ≤ sys.totalSectors
  card : sys.totalSectors + 16388 * ps.length < 2 ^ 31
  offsets : ∀ p ∈ ps,
    p.offset + (sys.totalSectors - (sys.startP5 + sys.sizeP5)) + 16388 * ps.length < 2 ^ 31

/-- **The new manager** is the exact one. -/
theorem new_exact (h : PlanFits sys ps extra) : InstallManager.new int32 sys = .new unbounded sys := by
  have hsettings := h.settings
  have hcard := h.card
  have hmb : ((sys.totalSectors : ℤ) - (sys.startP5 + sys.sizeP5)).tdiv 2048 =
      (sys.totalSectors - (sys.startP5 + sys.sizeP5)) / 2048 := Int.tdiv_eq_ediv_of_nonneg (by omega)
  unfold InstallManager.new
  simp only [unbounded]
  rw [int32_eq (x := (sys.startP5 : ℤ) + sys.sizeP5) (by omega) (by omega),
    int32_eq (x := (sys.totalSectors : ℤ)) (by omega) (by omega),
    int32_eq (x := (sys.totalSectors : ℤ) - (sys.startP5 + sys.sizeP5)) (by omega) (by omega), hmb,
    int32_eq (by omega) (by omega)]

theorem PlanFits.room (h : PlanFits sys ps extra) : Room (.new unbounded sys) ps extra := by
  have hcard := h.card
  refine ⟨rfl, le_rfl, h.numbers, h.sizes, ⟨le_rfl, ?_⟩, ⟨le_rfl, ?_⟩, ⟨le_rfl, ?_⟩, h.extra_nonneg⟩
  · simp only [InstallManager.new]
    omega
  · simp only [InstallManager.new]
    omega
  · have := h.budget
    simp only [InstallManager.new]
    omega

/-- **The spare space** is the exact one. -/
theorem withExtraSpace_exact (havailable : 0 ≤ m.availableMB ∧ m.availableMB < 2 ^ 31)
    (htotal : 0 ≤ m.totalnominalsize ∧ m.totalnominalsize < 2 ^ 31) :
    m.withExtraSpace int32 = m.withExtraSpace unbounded := by
  have hdiv := Int.natAbs_tdiv_le_natAbs (m.availableMB - m.totalnominalsize) m.numexpandparts
  unfold InstallManager.withExtraSpace
  simp only [unbounded]
  rw [int32_eq (x := m.availableMB - m.totalnominalsize) (by omega) (by omega),
    int32_eq (by omega) (by omega)]

/-- The MB granted in all are no more than the card has. -/
theorem sum_grantedMB_le (h : Room m [] 0) (hle : m.totalnominalsize ≤ m.availableMB) :
    (m.order.map (grantedMB m.shareMB)).sum ≤ m.availableMB := by
  have hshare : m.numexpandparts * m.shareMB ≤ m.spareMB := by
    unfold InstallManager.shareMB
    by_cases h0 : m.numexpandparts = 0
    · rw [h0, zero_mul]
      unfold InstallManager.spareMB
      omega
    · exact Int.mul_ediv_self_le h0
  have hcovered := h.covered
  rw [sum_grantedMB, sum_order, sum_order, ← h.counted]
  unfold InstallManager.spareMB at hshare
  omega

theorem sum_reachSectors (l : List (ℤ × PartitionInfo)) : (l.map fun e => reachSectors m e.2).sum =
    2048 * ((l.map Prod.snd).map (sizeMB m)).sum + 16388 * l.length := by
  induction l with
  | nil => rfl
  | cons e l ih =>
    have hreach : reachSectors m e.2 = 2048 * sizeMB m e.2 + 16388 := rfl
    simp only [List.map_cons, List.sum_cons, List.length_cons]
    rw [ih, hreach]
    push_cast
    ring

/-- **The calculation** is the exact one. -/
theorem calculateSpaceRequirements_exact (hfit : PlanFits sys ps extra) (hm : ManagerOf sys ps m)
    (hroom : Room m [] 0) : calculateSpaceRequirements int32 m = calculateSpaceRequirements unbounded m := by
  have hsettings := hfit.settings
  have hcard := hfit.card
  have hbudget := hroom.budget
  rw [List.map_nil, List.sum_nil] at hbudget
  have hmb : m.availableMB = (m.totalSectors - m.startSector) / 2048 := by
    rw [hm.available, hm.card, hm.start]
    exact Int.tdiv_eq_ediv_of_nonneg (by omega)
  have hstart := hm.start
  have htotal := hm.card
  unfold calculateSpaceRequirements
  rw [withExtraSpace_exact (by omega) (by omega)]
  by_cases hle : m.totalnominalsize > m.availableMB
  · exact (if_pos hle).trans (if_pos hle).symm
  have hextra := extraSpace_eq hm.noExtra (not_lt.1 hle)
  have hshare := shareMB_nonneg hroom.maximised.1 (not_lt.1 hle)
  have hgranted := sum_grantedMB_le hroom (not_lt.1 hle)
  have hperm := logBeforePrim_perm m.partitionMap
  have hreach := sum_reachSectors (m := m.withExtraSpace unbounded) (logBeforePrim m.partitionMap)
  rw [hperm.length_eq, hm.length] at hreach
  change _ = 2048 * (m.order.map (grantedMB (m.withExtraSpace unbounded).extraSpacePerPartition)).sum + _
    at hreach
  rw [hextra] at hreach
  -- no partition starts behind this and what those before it reach
  have hloop : placePartitions int32 (m.withExtraSpace unbounded) m.startSector (logBeforePrim m.partitionMap) =
      placePartitions unbounded (m.withExtraSpace unbounded) m.startSector (logBeforePrim m.partitionMap) := by
    refine placePartitions_exact (b := 2 ^ 31 - 1 - 2048 * m.availableMB - 16388 * ps.length) ⟨?_, ?_⟩ ?_
      (by omega) (by omega) (by omega)
    · simp only [InstallManager.withExtraSpace]
      omega
    · simp only [InstallManager.withExtraSpace]
      omega
    · intro e he
      obtain ⟨p, hp, heq⟩ := hm.partition e (hperm.mem_iff.1 he)
      have hsize := hfit.sizes p hp
      have hoffset := hfit.offsets p hp
      rw [sizeMB_eq, hextra, heq]
      refine ⟨grantedMB_nonneg hshare hsize, ?_⟩
      show p.offset ≤ _
      omega
  simp only [InstallManager.withExtraSpace] at hloop ⊢
  rw [hloop]

/-! ## The whole plan -/

/-- **The plan of a list of partitions** is the exact one if it fits. -/
theorem plan_exact (h : PlanFits sys ps 0) :
    checkPartitions int32 (.new int32 sys) ps = checkPartitions unbounded (.new unbounded sys) ps ∧
      ∀ ps' m, checkPartitions unbounded (.new unbounded sys) ps = .ok (ps', m) →
        calculateSpaceRequirements int32 m = calculateSpaceRequirements unbounded m := by
  have hroom : Room (.new unbounded sys) (ps ++ []) 0 := by
    rw [List.append_nil]
    exact h.room
  obtain ⟨hchecks, hafter⟩ := checkPartitions_exact hroom
  rw [new_exact h]
  refine ⟨hchecks, ?_⟩
  intro ps' m hcheck
  exact calculateSpaceRequirements_exact h (managerOf_checkPartitions hcheck) (hafter ps' m hcheck)

example : PlanFits demoCard demoPartitions 0 :=
  ⟨by decide, by decide, by decide, le_rfl, by decide, by decide, by decide⟩

end Noobs
