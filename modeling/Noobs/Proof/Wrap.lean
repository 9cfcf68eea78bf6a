import Noobs.Proof.Calls
import Noobs.Proof.Layout
import Noobs.Proof.Number
import Mathlib.Algebra.Order.BigOperators.Group.List

/-!
# Numbers and sizes in 32 bits

`checkPartition` and `calculateSpaceRequirements` with the `int` of the target, which
wraps.

* `numbered_iff`: **the partitions are numbered as meant** iff no required number is
  negative and the automatic ones stay within an `int` (`NumbersFit`).
* `budget_bounds`: **an accepted budget bounds the real one** iff this fits an `int`.
-/

namespace Noobs

variable {m m' : InstallManager} {p : PartitionInfo} {ps ps' : List PartitionInfo}
  {map : SortedMap ℤ PartitionInfo} {n : ℤ}

/-! ## The int of the target -/

theorem int32_lt (x : ℤ) : int32 x < 2 ^ 31 := by
  have h : Int.bmod x (2 ^ 32) < ((2 ^ 32 : ℕ) + 1) / 2 := Int.bmod_lt (by decide)
  have heq : int32 x = Int.bmod x (2 ^ 32) := rfl
  rw [heq]
  omega

/-- Only the last sum of several has to be wrapped. -/
theorem int32_add (x y : ℤ) : int32 (int32 x + y) = int32 (x + y) := by
  unfold int32
  exact Int.bmod_add_bmod

/-- An `int` tells multiples of 4 MiB as the integers do. -/
theorem int32_tmod_alignment (n : ℤ) : (int32 (n * 2048)).tmod partitionAlignment = 0 ↔ n % 4 = 0 := by
  have hdvd : (int32 (n * 2048)).tmod partitionAlignment = 0 ↔ partitionAlignment ∣ int32 (n * 2048) :=
    (Int.dvd_iff_tmod_eq_zero).symm
  have hwrap : int32 (n * 2048) % 2 ^ 32 = n * 2048 % 2 ^ 32 := by
    have := Int.bmod_emod (x := n * 2048) (m := 2 ^ 32)
    exact this
  rw [hdvd]
  unfold partitionAlignment
  omega

/-! ## The highest number -/

/-- The highest number in use, or 5, behind which the automatic ones start. -/
def highest (map : SortedMap ℤ PartitionInfo) : ℤ :=
  match map.keys.getLast? with
  | none => 5
  | some k => max k 5

theorem partitionNumber_auto (h : p.requiresPartitionNumber = 0) :
    partitionNumber int32 map p = int32 (highest map + 1) := by
  unfold partitionNumber highest
  rw [if_neg (not_not.2 h)]
  cases map.keys.getLast? with
  | none => rfl
  | some k => rfl

theorem partitionNumber_required (I : IntType) (h : p.requiresPartitionNumber ≠ 0) :
    partitionNumber I map p = p.requiresPartitionNumber := by
  unfold partitionNumber
  rw [if_pos h]

theorem five_le_highest (map : SortedMap ℤ PartitionInfo) : 5 ≤ highest map := by
  unfold highest
  cases map.keys.getLast? with
  | none => exact le_rfl
  | some k => exact le_max_right _ _

theorem le_highest (h : n ∈ map.keys) : n ≤ highest map := by
  obtain ⟨e', he', rfl⟩ := List.mem_map.1 h
  unfold highest
  rw [SortedMap.getLast?_keys]
  cases hlast : map.entries.getLast? with
  | none =>
    rw [List.getLast?_eq_none_iff] at hlast
    rw [hlast] at he'
    cases he'
  | some e => exact (SortedMap.le_of_getLast? hlast he').trans (le_max_left _ _)

theorem highest_mem (map : SortedMap ℤ PartitionInfo) : highest map = 5 ∨ highest map ∈ map.keys := by
  unfold highest
  cases hlast : map.keys.getLast? with
  | none => exact Or.inl rfl
  | some k =>
    have hk : k ∈ map.keys := List.mem_of_getLast? hlast
    show max k 5 = 5 ∨ max k 5 ∈ map.keys
    rcases le_total k 5 with h | h
    · exact Or.inl (max_eq_right h)
    · rw [max_eq_left h]
      exact Or.inr hk

theorem mem_keys_insert {k : ℤ} : k ∈ (map.insert n p).keys ↔ k = n ∨ k ∈ map.keys := by
  rw [← SortedMap.contains_iff_mem_keys, ← SortedMap.contains_iff_mem_keys]
  exact SortedMap.contains_insert

theorem highest_insert : highest (map.insert n p) = max (highest map) n := by
  apply le_antisymm
  · have h5 := five_le_highest map
    rcases highest_mem (map.insert n p) with h | h
    · rw [h]
      exact h5.trans (le_max_left _ _)
    · rcases mem_keys_insert.1 h with h | h
      · rw [h]
        exact le_max_right _ _
      · exact (le_highest h).trans (le_max_left _ _)
  · refine max_le ?_ (le_highest (mem_keys_insert.2 (Or.inl rfl)))
    rcases highest_mem map with h | h
    · exact h ▸ five_le_highest _
    · exact le_highest (mem_keys_insert.2 (Or.inr h))

/-! ## Numbering -/

/-- No partition requires a negative number, and none is numbered automatically when the
highest number so far is the greatest `int`. -/
def NumbersFit : (highest : ℤ) → List PartitionInfo → Prop
  | _, [] => True
  | highest, p :: ps =>
    if p.requiresPartitionNumber = 0 then highest + 1 < 2 ^ 31 ∧ NumbersFit (highest + 1) ps
    else 0 ≤ p.requiresPartitionNumber ∧ NumbersFit (max highest p.requiresPartitionNumber) ps

instance decidableNumbersFit : ∀ (highest : ℤ) (ps : List PartitionInfo), Decidable (NumbersFit highest ps)
  | _, [] => inferInstanceAs (Decidable True)
  | highest, p :: ps =>
    have := decidableNumbersFit (highest + 1) ps
    have := decidableNumbersFit (max highest p.requiresPartitionNumber) ps
    inferInstanceAs (Decidable (if p.requiresPartitionNumber = 0 then
        highest + 1 < 2 ^ 31 ∧ NumbersFit (highest + 1) ps
      else 0 ≤ p.requiresPartitionNumber ∧ NumbersFit (max highest p.requiresPartitionNumber) ps))

/-- Numbers assigned behind `highest`: each belongs to an operating system's partition,
and an automatic one exceeds `highest` and all before it. -/
structure Ascends (highest : ℤ) (ps : List PartitionInfo) (ns : List ℤ) : Prop where
  two_le : ∀ n ∈ ns, 2 ≤ n
  above : ∀ e ∈ ps.zip ns, e.1.requiresPartitionNumber = 0 → highest < e.2
  ascending : (ps.zip ns).Pairwise fun a b => b.1.requiresPartitionNumber = 0 → a.2 < b.2

theorem ascends_cons {h : ℤ} {ns : List ℤ} : Ascends h (p :: ps) (n :: ns) ↔
    2 ≤ n ∧ (p.requiresPartitionNumber = 0 → h < n) ∧ Ascends (max h n) ps ns := by
  constructor
  · rintro ⟨h1, h2, h3⟩
    rw [List.forall_mem_cons] at h1
    rw [List.zip_cons_cons, List.forall_mem_cons] at h2
    obtain ⟨h3, h4⟩ := List.pairwise_cons.1 h3
    exact ⟨h1.1, h2.1, h1.2, fun e he h0 => max_lt (h2.2 e he h0) (h3 e he h0), h4⟩
  · rintro ⟨h1, h2, h3, h4, h5⟩
    have hmax := fun e he h0 => max_lt_iff.1 (h4 e he h0)
    refine ⟨List.forall_mem_cons.2 ⟨h1, h3⟩, ?_, ?_⟩
    · rw [List.zip_cons_cons, List.forall_mem_cons]
      exact ⟨h2, fun e he h0 => (hmax e he h0).1⟩
    · exact List.pairwise_cons.2 ⟨fun e he h0 => (hmax e he h0).2, h5⟩

/-- The next automatic number is one iff it fits. -/
theorem auto_number_iff {h : ℤ} (h5 : 5 ≤ h) : (2 ≤ int32 (h + 1) ∧ h < int32 (h + 1)) ↔ h + 1 < 2 ^ 31 := by
  constructor
  · rintro ⟨-, hlt⟩
    have := int32_lt (h + 1)
    omega
  · intro hfit
    rw [int32_eq (by omega) hfit]
    omega

/-- **The assigned numbers ascend** iff they fit. -/
theorem assigned_ascends (h : checkPartitions int32 m ps = .ok (ps', m')) :
    Ascends (highest m.partitionMap) ps (assigned int32 m.partitionMap ps) ↔
      NumbersFit (highest m.partitionMap) ps := by
  induction ps generalizing m ps' with
  | nil => exact ⟨fun _ => trivial, fun _ => ⟨by simp [assigned], by simp, by simp⟩⟩
  | cons p ps ih =>
    obtain ⟨p₁, m₁, ps₁, h1, h2, -⟩ := checkPartitions_cons h
    obtain ⟨hn, -, rfl⟩ := checkPartition_enters h1
    have hrest := ih h2
    have hhigh := five_le_highest m.partitionMap
    change Ascends (highest (m.partitionMap.insert _ _)) ps (assigned int32 (m.partitionMap.insert _ _) ps) ↔
      NumbersFit (highest (m.partitionMap.insert _ _)) ps at hrest
    rw [highest_insert] at hrest
    rw [assigned, ascends_cons, hrest, NumbersFit]
    by_cases h0 : p.requiresPartitionNumber = 0
    -- an automatic number is the next one, unless it wraps; a required one counts if it is larger
    · rw [if_pos h0, partitionNumber_auto h0, ← auto_number_iff hhigh]
      have hmax : ∀ k, highest m.partitionMap < k → max (highest m.partitionMap) k = k :=
        fun k hk => max_eq_right hk.le
      constructor
      · rintro ⟨h2, hlt, hfit⟩
        have hlt := hlt h0
        have heq := int32_eq (x := highest m.partitionMap + 1) (by omega)
          ((auto_number_iff hhigh).1 ⟨h2, hlt⟩)
        rw [hmax _ hlt, heq] at hfit
        exact ⟨⟨h2, hlt⟩, hfit⟩
      · rintro ⟨⟨h2, hlt⟩, hfit⟩
        have heq := int32_eq (x := highest m.partitionMap + 1) (by omega)
          ((auto_number_iff hhigh).1 ⟨h2, hlt⟩)
        refine ⟨h2, fun _ => hlt, ?_⟩
        rw [hmax _ hlt, heq]
        exact hfit
    · rw [if_neg h0, partitionNumber_required _ h0]
      have hone := hn.ne_one
      rw [partitionNumber_required _ h0] at hone
      have htwo : 2 ≤ p.requiresPartitionNumber ↔ 0 ≤ p.requiresPartitionNumber := by omega
      rw [htwo]
      simp only [h0, false_imp_iff, true_and]

/-- The partitions are numbered as meant: the `i`-th call entered the `i`-th partition under
the `i`-th of the numbers `ns`. -/
structure WellNumbered (ps ps' : List PartitionInfo) (map : SortedMap ℤ PartitionInfo) (ns : List ℤ) :
    Prop where
  one_each : ns.length = ps.length
  partitions : ps' = List.zipWith PartitionInfo.onDevice ps ns
  entries : map.entries.Perm (ns.zip ps')
  keys : ∀ n ∈ map.keys, n = 2 ∨ n = 3 ∨ n = 4 ∨ 6 ≤ n
  not_both : ¬(map.contains 2 = true ∧ map.contains 4 = true)
  automatic : ∀ e ∈ ps.zip ns, e.1.requiresPartitionNumber = 0 → 6 ≤ e.2
  ascending : (ps.zip ns).Pairwise fun a b => b.1.requiresPartitionNumber = 0 → a.2 < b.2
  device : ∀ n p, (n, p) ∈ map.entries → p.partitionDevice = devicePrefix ++ number n

/-- The partitions tell the numbers they were entered under. -/
theorem numbers_unique : ∀ {ps : List PartitionInfo} {ns ns' : List ℤ}, ns.length = ps.length →
    ns'.length = ps.length → List.zipWith PartitionInfo.onDevice ps ns =
      List.zipWith PartitionInfo.onDevice ps ns' → ns = ns' := by
  intro ps
  induction ps with
  | nil =>
    intro ns ns' h h' _
    rw [List.length_eq_zero_iff.1 h, List.length_eq_zero_iff.1 h']
  | cons p ps ih =>
    intro ns ns' h h' heq
    obtain ⟨n, ns, rfl⟩ := List.exists_cons_of_length_eq_add_one h
    obtain ⟨n', ns', rfl⟩ := List.exists_cons_of_length_eq_add_one h'
    obtain ⟨hp, hps⟩ := List.cons.inj heq
    have hdev := congrArg PartitionInfo.partitionDevice hp
    have hn : n = n' := number_injective (List.append_cancel_left hdev)
    rw [hn, ih (Nat.succ.inj h) (Nat.succ.inj h') hps]

/-- What every list of successful checks keeps. -/
structure Entered (map : SortedMap ℤ PartitionInfo) : Prop where
  not_one : 1 ∉ map.keys
  not_five : 5 ∉ map.keys
  not_both : ¬(map.contains 2 = true ∧ map.contains 4 = true)
  device : ∀ n p, (n, p) ∈ map.entries → p.partitionDevice = devicePrefix ++ number n

theorem entered_insert (h : Entered map) (hn : Enterable map n) : Entered (map.insert n (p.onDevice n)) := by
  have hcont : ∀ k, (map.insert n (p.onDevice n)).contains k = true ↔ k = n ∨ map.contains k = true :=
    fun k => SortedMap.contains_insert
  refine ⟨?_, ?_, ?_, ?_⟩
  · rw [mem_keys_insert, not_or]
    exact ⟨Ne.symm hn.ne_one, h.not_one⟩
  · rw [mem_keys_insert, not_or]
    exact ⟨Ne.symm hn.ne_five, h.not_five⟩
  · rw [hcont, hcont]
    rintro ⟨h2 | h2, h4 | h4⟩
    · omega
    · exact hn.not_two ⟨h2.symm, h4⟩
    · exact hn.not_four ⟨h4.symm, h2⟩
    · exact h.not_both ⟨h2, h4⟩
  · intro k q hq
    rcases SortedMap.mem_insert.1 hq with ⟨rfl, rfl⟩ | ⟨-, hq⟩
    · rfl
    · exact h.device k q hq

theorem checkPartitions_entered {I : IntType} (hm : Entered m.partitionMap)
    (h : checkPartitions I m ps = .ok (ps', m')) : Entered m'.partitionMap := by
  induction ps generalizing m ps' with
  | nil =>
    obtain ⟨-, rfl⟩ := Prod.mk.inj (Except.ok.inj h)
    exact hm
  | cons p ps ih =>
    obtain ⟨p₁, m₁, ps₁, h1, h2, -⟩ := checkPartitions_cons h
    obtain ⟨hn, -, rfl⟩ := checkPartition_enters h1
    exact ih (entered_insert hm hn) h2

/-- **The partitions are numbered as meant** iff no required number is negative and the
automatic ones stay within an `int`. -/
theorem numbered_iff (sys : Sysfs) (h : checkPartitions int32 (.new int32 sys) ps = .ok (ps', m)) :
    (∃ ns, WellNumbered ps ps' m.partitionMap ns) ↔ NumbersFit 5 ps := by
  have hlen := length_assigned int32 SortedMap.empty ps
  obtain ⟨hps, hperm⟩ := checkPartitions_assigned h
  have hascends : Ascends 5 ps (assigned int32 SortedMap.empty ps) ↔ NumbersFit 5 ps := assigned_ascends h
  change m.partitionMap.entries.Perm ((assigned int32 SortedMap.empty ps).zip ps' ++ []) at hperm
  rw [List.append_nil] at hperm
  change ps' = List.zipWith _ ps (assigned int32 SortedMap.empty ps) at hps
  have hentered : Entered m.partitionMap :=
    checkPartitions_entered ⟨by simp [InstallManager.new, SortedMap.keys],
      by simp [InstallManager.new, SortedMap.keys], by simp [InstallManager.new, SortedMap.contains],
      by simp [InstallManager.new]⟩ h
  -- the keys of the map are the assigned numbers
  have hkeys : ∀ n, n ∈ m.partitionMap.keys ↔ n ∈ assigned int32 SortedMap.empty ps := by
    intro n
    have hlen' : ps'.length = (assigned int32 SortedMap.empty ps).length := by
      rw [hps, List.length_zipWith, hlen, min_self]
    unfold SortedMap.keys
    rw [(hperm.map Prod.fst).mem_iff, List.map_fst_zip hlen'.ge]
  rw [← hascends]
  constructor
  · rintro ⟨ns, hns⟩
    obtain rfl : ns = assigned int32 SortedMap.empty ps :=
      numbers_unique hns.one_each hlen (hns.partitions.symm.trans hps)
    refine ⟨fun n hn => ?_, fun e he h0 => ?_, hns.ascending⟩
    · have := hns.keys n ((hkeys n).2 hn)
      omega
    · have := hns.automatic e he h0
      omega
  · intro hasc
    refine ⟨_, hlen, hps, hperm, fun n hn => ?_, hentered.not_both, fun e he h0 => ?_, hasc.ascending,
      hentered.device⟩
    · have htwo := hasc.two_le n ((hkeys n).1 hn)
      have h1 : n ≠ 1 := fun h => hentered.not_one (h ▸ hn)
      have h5 : n ≠ 5 := fun h => hentered.not_five (h ▸ hn)
      omega
    · have := hasc.above e he h0
      omega

def wrapCard : Sysfs :=
  { startP1 := 8192, sizeP1 := 204800, startP5 := 221184, sizeP5 := 65534, totalSectors := 7744512 }

/-- A partition that requires number `n`. -/
def requiring (n : ℤ) : PartitionInfo := { fsType := "ext4".toList, requiresPartitionNumber := n }

/-- A required primary and two automatic numbers. -/
theorem demo_numbered :
    let ps := [requiring 0, requiring 3, requiring 0]
    ∃ ps' m, checkPartitions int32 (.new int32 wrapCard) ps = .ok (ps', m) ∧
      ∃ ns, WellNumbered ps ps' m.partitionMap ns :=
  ⟨_, _, rfl, (numbered_iff wrapCard rfl).2 (by decide)⟩

/-- The JSON may require number -3, and gets it. -/
theorem negative_number :
    ∃ ps' m, checkPartitions int32 (.new int32 wrapCard) [requiring (-3)] = .ok (ps', m) ∧
      ¬∃ ns, WellNumbered [requiring (-3)] ps' m.partitionMap ns := by
  refine ⟨_, _, rfl, ?_⟩
  rintro ⟨ns, h⟩
  have := h.keys (-3) (by decide)
  omega

/-! ## The budget -/

theorem charged_int32 (total : ℤ) (p : PartitionInfo) :
    charged int32 (int32 total) p = int32 (total + costMB p) := by
  have hmod := int32_tmod_alignment p.partitionSizeNominal
  unfold charged costMB overheadMB
  by_cases hc : p.wantMaximised = true ∨ p.partitionSizeNominal % 4 ≠ 0
  · rw [if_pos hc, if_pos (hc.imp_right (mt hmod.1)), int32_add, add_assoc, int32_add]; rfl
  · rw [if_neg hc, if_neg fun h => hc (h.imp_right (mt hmod.2)), int32_add, add_zero]

/-- **The budget wraps once**, however many partitions were charged to it. -/
theorem checkPartitions_budget {total : ℤ} (ht : m.totalnominalsize = int32 total)
    (h : checkPartitions int32 m ps = .ok (ps', m')) :
    m'.totalnominalsize = int32 (total + (ps.map costMB).sum) ∧ m'.availableMB = m.availableMB := by
  induction ps generalizing m ps' total with
  | nil =>
    obtain ⟨-, rfl⟩ := Prod.mk.inj (Except.ok.inj h)
    rw [ht]
    simp
  | cons p ps ih =>
    obtain ⟨p₁, m₁, ps₁, h1, h2, -⟩ := checkPartitions_cons h
    obtain ⟨-, -, rfl⟩ := checkPartition_enters h1
    have hcharged : charged int32 m.totalnominalsize p = int32 (total + costMB p) := by
      rw [ht, charged_int32]
    obtain ⟨htotal, havailable⟩ := ih hcharged h2
    rw [List.map_cons, List.sum_cons, ← add_assoc]
    exact ⟨htotal, havailable⟩

theorem costMB_nonneg (h : 0 ≤ p.partitionSizeNominal) : 0 ≤ costMB p := by
  unfold costMB overheadMB
  split_ifs <;> omega

theorem sum_costMB_nonneg (h : ∀ p ∈ ps, 0 ≤ p.partitionSizeNominal) : 0 ≤ (ps.map costMB).sum := by
  apply List.sum_nonneg
  intro c hc
  obtain ⟨p, hp, rfl⟩ := List.mem_map.1 hc
  exact costMB_nonneg (h p hp)

/-- **An accepted budget bounds the real one** iff this fits an `int`. -/
theorem budget_bounds (sys : Sysfs) (hsize : ∀ p ∈ ps, 0 ≤ p.partitionSizeNominal)
    (hcheck : checkPartitions int32 (.new int32 sys) ps = .ok (ps', m))
    (hcalc : calculateSpaceRequirements int32 m = .ok m') :
    (ps.map costMB).sum ≤ (InstallManager.new int32 sys).availableMB ↔ (ps.map costMB).sum < 2 ^ 31 := by
  have hzero : (InstallManager.new int32 sys).totalnominalsize = int32 0 := rfl
  obtain ⟨htotal, havailable⟩ := checkPartitions_budget hzero hcheck
  obtain ⟨hle, -⟩ := calculateSpaceRequirements_ok hcalc
  rw [htotal, havailable, zero_add] at hle
  have hnonneg := sum_costMB_nonneg hsize
  have hcard : (InstallManager.new int32 sys).availableMB < 2 ^ 31 := by
    simp only [InstallManager.new]
    exact int32_lt _
  constructor
  · intro h
    omega
  · intro hfit
    rw [int32_eq (by omega) hfit] at hle
    exact hle

/-- A partition of `mb` MB. -/
def sized (mb : ℤ) : PartitionInfo := { fsType := "ext4".toList, partitionSizeNominal := mb }

theorem demo_budget : ([sized 62, sized 1000].map costMB).sum ≤
    (InstallManager.new int32 wrapCard).availableMB := by
  obtain ⟨ps', m, m', hcheck, hcalc⟩ : ∃ ps' m m',
      checkPartitions int32 (.new int32 wrapCard) [sized 62, sized 1000] = .ok (ps', m) ∧
        calculateSpaceRequirements int32 m = .ok m' := ⟨_, _, _, rfl, rfl⟩
  exact (budget_bounds wrapCard (by decide) hcheck hcalc).2 (by decide)

/-- Two partitions of 2^31 - 1 MB each are found to need 6 MB. -/
theorem wrapped_budget : ∃ ps' m m',
    checkPartitions int32 (.new int32 wrapCard) [sized (2 ^ 31 - 1), sized (2 ^ 31 - 1)] = .ok (ps', m) ∧
      calculateSpaceRequirements int32 m = .ok m' ∧ m.totalnominalsize = 6 ∧
      ¬([sized (2 ^ 31 - 1), sized (2 ^ 31 - 1)].map costMB).sum ≤
        (InstallManager.new int32 wrapCard).availableMB :=
  ⟨_, _, _, rfl, rfl, rfl, by decide⟩

end Noobs
