import Noobs.Spec.Plan
import Mathlib.Algebra.BigOperators.Group.List.Basic

/-!
# What the checks leave behind

`checkPartition_enters` says all a successful `checkPartition` does, whatever an `int`
holds, and `checkPartition_ok` what this comes to on unbounded integers. From it: every
entry of the partition map stands under its own number (`Numbered`), and `checkPartitions`
adds up what each partition costs (`checkPartitions_totals`) while filling the map with the
given partitions (`checkPartitions_entries`). A list of images comes down to its pinned
partitions (`checkImages_inv`, `checkImages_entries`).
-/

namespace Noobs

variable {m m' : InstallManager} {p p' : PartitionInfo} {ps ps' : List PartitionInfo}

theorem bind_ok {ε α β : Type} {x : Except ε α} {f : α → Except ε β} {b : β} :
    (x >>= f) = .ok b ↔ ∃ a, x = .ok a ∧ f a = .ok b := by
  cases x with
  | error e => simp [bind, Except.bind]
  | ok a => simp [bind, Except.bind]

theorem pure_ok {ε α : Type} {a b : α} : (pure a : Except ε α) = .ok b ↔ a = b := by
  simp [pure, Except.pure]

/-- C's remainder tells multiples of 4 MiB as the mathematical one does. -/
theorem mb_tmod_alignment (n : ℤ) : (n * 2048).tmod partitionAlignment = 0 ↔ n % 4 = 0 := by
  have h : (n * 2048).tmod partitionAlignment = 0 ↔ partitionAlignment ∣ n * 2048 :=
    (Int.dvd_iff_tmod_eq_zero).symm
  rw [h]; unfold partitionAlignment; omega

/-! ## One partition -/

/-- Alignment overhead charged for a partition, in MB. -/
def overheadMB (p : PartitionInfo) : ℤ :=
  if p.wantMaximised ∨ p.partitionSizeNominal % 4 ≠ 0 then 4 else 0

/-- What a partition costs the budget, in MB. -/
def costMB (p : PartitionInfo) : ℤ := p.partitionSizeNominal + overheadMB p

/-- How much a partition counts among the maximised ones. -/
def maxCount (p : PartitionInfo) : ℤ := if p.wantMaximised then 1 else 0

/-- A partition with the device of its number. -/
def PartitionInfo.onDevice (p : PartitionInfo) (n : ℤ) : PartitionInfo :=
  { p with partitionDevice := devicePrefix ++ number n }

@[simp] theorem costMB_onDevice (n : ℤ) : costMB (p.onDevice n) = costMB p := rfl

@[simp] theorem maxCount_onDevice (n : ℤ) : maxCount (p.onDevice n) = maxCount p := rfl

/-- The manager after partition `p` was entered under `n`. -/
def InstallManager.enter (m : InstallManager) (n : ℤ) (p : PartitionInfo) : InstallManager :=
  { m with
    numparts := m.numparts + 1
    numexpandparts := m.numexpandparts + maxCount p
    partitionMap := m.partitionMap.insert n (p.onDevice n)
    totalnominalsize := m.totalnominalsize + costMB p }

/-- The budget after a partition was charged to it. -/
def charged (I : IntType) (total : ℤ) (p : PartitionInfo) : ℤ :=
  if p.wantMaximised ∨ (I (p.partitionSizeNominal * 2048)).tmod partitionAlignment ≠ 0 then
    I (I (total + p.partitionSizeNominal) + partitionAlignment.tdiv 2048)
  else I (total + p.partitionSizeNominal)

/-- The same with the counters an `int` holds. -/
def InstallManager.enterAs (I : IntType) (m : InstallManager) (n : ℤ) (p : PartitionInfo) : InstallManager :=
  { m with
    numparts := I (m.numparts + 1)
    numexpandparts := if p.wantMaximised then I (m.numexpandparts + 1) else m.numexpandparts
    partitionMap := m.partitionMap.insert n (p.onDevice n)
    totalnominalsize := charged I m.totalnominalsize p }

/-- A number under which a partition can be entered: free, not the system's, and not
claiming primaries 2 and 4 together. -/
structure Enterable (map : SortedMap ℤ PartitionInfo) (n : ℤ) : Prop where
  free : map.contains n = false
  ne_one : n ≠ 1
  ne_five : n ≠ 5
  not_two : ¬(n = 2 ∧ map.contains 4 = true)
  not_four : ¬(n = 4 ∧ map.contains 2 = true)

/-- **A successful `checkPartition`**, whatever an `int` holds, enters the partition
under the number it computes. -/
theorem checkPartition_enters {I : IntType} (h : checkPartition I m p = .ok (p', m')) :
    Enterable m.partitionMap (partitionNumber I m.partitionMap p) ∧
      p' = p.onDevice (partitionNumber I m.partitionMap p) ∧
      m' = m.enterAs I (partitionNumber I m.partitionMap p) p := by
  unfold checkPartition at h
  by_cases h1 : m.partitionMap.contains (partitionNumber I m.partitionMap p) = true
  · rw [if_pos h1] at h; cases h
  by_cases h2 : partitionNumber I m.partitionMap p = 1 ∨ partitionNumber I m.partitionMap p = 5
  · rw [if_neg h1, if_pos h2] at h; cases h
  by_cases h3 : (partitionNumber I m.partitionMap p = 2 ∧ m.partitionMap.contains 4 = true) ∨
      (partitionNumber I m.partitionMap p = 4 ∧ m.partitionMap.contains 2 = true)
  · rw [if_neg h1, if_neg h2, if_pos h3] at h; cases h
  rw [if_neg h1, if_neg h2, if_neg h3] at h
  obtain ⟨rfl, rfl⟩ := Prod.mk.inj (Except.ok.inj h)
  rw [not_or] at h2 h3
  exact ⟨⟨Bool.not_eq_true _ ▸ h1, h2.1, h2.2, h3.1, h3.2⟩, rfl, rfl⟩

/-- Without wrapping, a partition is charged its cost. -/
theorem charged_unbounded (total : ℤ) (p : PartitionInfo) :
    charged unbounded total p = total + costMB p := by
  have hmod := mb_tmod_alignment p.partitionSizeNominal
  unfold charged costMB overheadMB
  by_cases hc : p.wantMaximised = true ∨ p.partitionSizeNominal % 4 ≠ 0
  · rw [if_pos hc, if_pos (hc.imp_right (mt hmod.1)), ← add_assoc]; rfl
  · rw [if_neg hc, if_neg fun h => hc (h.imp_right (mt hmod.2)), add_zero]

/-- **A successful `checkPartition`** enters the partition under a number that is
free, not the system's, and does not claim primaries 2 and 4 together. -/
theorem checkPartition_ok (h : checkPartition unbounded m p = .ok (p', m')) :
    ∃ n, n = partitionNumber unbounded m.partitionMap p ∧ m.partitionMap.contains n = false ∧
      n ≠ 1 ∧ n ≠ 5 ∧ ¬(n = 2 ∧ m.partitionMap.contains 4 = true) ∧
      ¬(n = 4 ∧ m.partitionMap.contains 2 = true) ∧ p' = p.onDevice n ∧ m' = m.enter n p := by
  obtain ⟨⟨h1, h2, h3, h4, h5⟩, hp, rfl⟩ := checkPartition_enters h
  have hmax : (if p.wantMaximised = true then m.numexpandparts + 1 else m.numexpandparts) =
      m.numexpandparts + maxCount p := by
    unfold maxCount
    split_ifs <;> simp
  refine ⟨_, rfl, h1, h2, h3, h4, h5, hp, ?_⟩
  unfold InstallManager.enterAs InstallManager.enter
  rw [charged_unbounded, ← hmax]

/-! ## Numbering -/

/-- Every partition of the map stands under the number it required, or required
none and stands behind the settings partition; none stands under a number of the
system, and primaries 2 and 4 are not both taken. -/
structure Numbered (map : SortedMap ℤ PartitionInfo) : Prop where
  own : ∀ n p, (n, p) ∈ map.entries →
    p.requiresPartitionNumber = n ∨ (p.requiresPartitionNumber = 0 ∧ 6 ≤ n)
  device : ∀ n p, (n, p) ∈ map.entries → p.partitionDevice = devicePrefix ++ number n
  not_one : map.contains 1 = false
  not_five : map.contains 5 = false
  not_both : ¬(map.contains 2 = true ∧ map.contains 4 = true)

theorem numbered_empty : Numbered SortedMap.empty :=
  ⟨by simp, by simp, rfl, rfl, by simp [SortedMap.contains]⟩

theorem six_le_partitionNumber (map : SortedMap ℤ PartitionInfo) (h : p.requiresPartitionNumber = 0) :
    6 ≤ partitionNumber unbounded map p := by
  unfold partitionNumber
  rw [if_neg (by simpa using h)]
  cases map.keys.getLast? with
  | none => exact le_rfl
  | some k =>
    show 6 ≤ max k 5 + 1
    omega

/-- A check keeps the map numbered if it numbers what requires no number behind the settings. -/
theorem checkPartition_numbered_of {I : IntType} (hm : Numbered m.partitionMap)
    (hauto : p.requiresPartitionNumber = 0 → 6 ≤ partitionNumber I m.partitionMap p)
    (h : checkPartition I m p = .ok (p', m')) : Numbered m'.partitionMap := by
  obtain ⟨⟨hfree, hn1, hn5, h24, h42⟩, -, rfl⟩ := checkPartition_enters h
  set n := partitionNumber I m.partitionMap p with hn
  have hcont : ∀ k, (m.partitionMap.insert n (p.onDevice n)).contains k = true ↔
      k = n ∨ m.partitionMap.contains k = true := fun k => SortedMap.contains_insert
  refine ⟨?_, ?_, ?_, ?_, ?_⟩
  · intro k q hq
    rcases SortedMap.mem_insert.1 hq with ⟨rfl, rfl⟩ | ⟨-, hq⟩
    · by_cases h0 : p.requiresPartitionNumber = 0
      · exact Or.inr ⟨h0, hauto h0⟩
      · left
        rw [hn]; unfold partitionNumber; rw [if_pos h0]; rfl
    · exact hm.own k q hq
  · intro k q hq
    rcases SortedMap.mem_insert.1 hq with ⟨rfl, rfl⟩ | ⟨-, hq⟩
    · rfl
    · exact hm.device k q hq
  · rw [← Bool.not_eq_true]; intro hc
    rcases (hcont 1).1 hc with h | h
    · exact hn1 h.symm
    · rw [hm.not_one] at h; cases h
  · rw [← Bool.not_eq_true]; intro hc
    rcases (hcont 5).1 hc with h | h
    · exact hn5 h.symm
    · rw [hm.not_five] at h; cases h
  · rintro ⟨h2, h4⟩
    rcases (hcont 2).1 h2 with h2 | h2 <;> rcases (hcont 4).1 h4 with h4 | h4
    · omega
    · exact h24 ⟨h2.symm, h4⟩
    · exact h42 ⟨h4.symm, h2⟩
    · exact hm.not_both ⟨h2, h4⟩

theorem checkPartition_numbered (hm : Numbered m.partitionMap)
    (h : checkPartition unbounded m p = .ok (p', m')) : Numbered m'.partitionMap :=
  checkPartition_numbered_of hm (six_le_partitionNumber _) h

/-! ## A list of partitions -/

theorem checkPartitions_cons {I : IntType} (h : checkPartitions I m (p :: ps) = .ok (ps', m')) :
    ∃ p₁ m₁ ps₁, checkPartition I m p = .ok (p₁, m₁) ∧
      checkPartitions I m₁ ps = .ok (ps₁, m') ∧ ps' = p₁ :: ps₁ := by
  unfold checkPartitions at h
  obtain ⟨⟨p₁, m₁⟩, h1, h2⟩ := bind_ok.1 h
  obtain ⟨⟨ps₁, m₂⟩, h3, h4⟩ := bind_ok.1 h2
  simp only [pure_ok, Prod.mk.injEq] at h4
  obtain ⟨rfl, rfl⟩ := h4
  exact ⟨p₁, m₁, ps₁, h1, h3, rfl⟩

/-- The numbers a list of checks assigns. -/
def assigned (I : IntType) : SortedMap ℤ PartitionInfo → List PartitionInfo → List ℤ
  | _, [] => []
  | map, p :: ps =>
    let n := partitionNumber I map p
    n :: assigned I (map.insert n (p.onDevice n)) ps

theorem length_assigned (I : IntType) (map : SortedMap ℤ PartitionInfo) (ps : List PartitionInfo) :
    (assigned I map ps).length = ps.length := by
  induction ps generalizing map with
  | nil => rfl
  | cons p ps ih => exact congrArg (· + 1) (ih _)

/-- **What a list of checks enters**: the given partitions on the devices of their
numbers, under these numbers. -/
theorem checkPartitions_assigned {I : IntType} (h : checkPartitions I m ps = .ok (ps', m')) :
    ps' = List.zipWith PartitionInfo.onDevice ps (assigned I m.partitionMap ps) ∧
      m'.partitionMap.entries.Perm
        ((assigned I m.partitionMap ps).zip ps' ++ m.partitionMap.entries) := by
  induction ps generalizing m ps' with
  | nil =>
    obtain ⟨rfl, rfl⟩ := Prod.mk.inj (Except.ok.inj h)
    exact ⟨rfl, List.Perm.refl _⟩
  | cons p ps ih =>
    obtain ⟨p₁, m₁, ps₁, h1, h2, rfl⟩ := checkPartitions_cons h
    obtain ⟨hn, rfl, rfl⟩ := checkPartition_enters h1
    obtain ⟨hps, hperm⟩ := ih h2
    refine ⟨congrArg _ hps, hperm.trans ?_⟩
    refine ((SortedMap.insert_perm hn.free).append_left _).trans ?_
    exact List.perm_middle

/-- What every successful check preserves holds after a list of them. -/
theorem checkPartitions_inv {I : IntType} {P : InstallManager → Prop}
    (hstep : ∀ m p p' m', P m → checkPartition I m p = .ok (p', m') → P m') :
    ∀ {ps ps' : List PartitionInfo} {m m' : InstallManager}, P m →
      checkPartitions I m ps = .ok (ps', m') → P m' := by
  intro ps
  induction ps with
  | nil => intro ps' m m' hm h; simp only [checkPartitions, Except.ok.injEq, Prod.mk.injEq] at h; exact h.2 ▸ hm
  | cons p ps ih =>
    intro ps' m m' hm h
    obtain ⟨p₁, m₁, ps₁, h1, h2, -⟩ := checkPartitions_cons h
    exact ih (hstep m p p₁ m₁ hm h1) h2

/-- **The budget after a list of checks.** -/
theorem checkPartitions_totals : ∀ {ps ps' : List PartitionInfo} {m m' : InstallManager},
    checkPartitions unbounded m ps = .ok (ps', m') →
      m'.totalnominalsize = m.totalnominalsize + (ps.map costMB).sum ∧
      m'.numexpandparts = m.numexpandparts + (ps.map maxCount).sum ∧
      m'.startSector = m.startSector ∧ m'.totalSectors = m.totalSectors ∧
      m'.availableMB = m.availableMB := by
  intro ps
  induction ps with
  | nil =>
    intro ps' m m' h
    simp only [checkPartitions, Except.ok.injEq, Prod.mk.injEq] at h
    obtain ⟨-, rfl⟩ := h
    simp
  | cons p ps ih =>
    intro ps' m m' h
    obtain ⟨p₁, m₁, ps₁, h1, h2, -⟩ := checkPartitions_cons h
    obtain ⟨n, -, -, -, -, -, -, -, rfl⟩ := checkPartition_ok h1
    obtain ⟨i1, i2, i3, i4, i5⟩ := ih h2
    simp only [InstallManager.enter] at i1 i2 i3 i4 i5
    refine ⟨?_, ?_, i3, i4, i5⟩
    · rw [i1, List.map_cons, List.sum_cons, add_assoc]
    · rw [i2, List.map_cons, List.sum_cons, add_assoc]

/-- The partitions a list of checks entered are the given ones on their devices. -/
theorem checkPartitions_entries {I : IntType} (h : checkPartitions I m ps = .ok (ps', m')) :
    ∃ ns : List ℤ, ns.length = ps.length ∧
      m'.partitionMap.entries.Perm
        ((ns.zip ps).map (fun x => (x.1, x.2.onDevice x.1)) ++ m.partitionMap.entries) := by
  obtain ⟨rfl, hperm⟩ := checkPartitions_assigned h
  have hzip : ∀ (ns : List ℤ) (ps : List PartitionInfo), ns.zip (List.zipWith PartitionInfo.onDevice ps ns) =
      (ns.zip ps).map fun x => (x.1, x.2.onDevice x.1) := by
    intro ns
    induction ns with
    | nil => intro ps; simp
    | cons n ns ih =>
      intro ps
      cases ps with
      | nil => rfl
      | cons p ps => exact congrArg _ (ih ps)
  rw [hzip] at hperm
  exact ⟨_, length_assigned _ _ _, hperm⟩

/-! ## A list of operating systems -/

variable {os os' : OSInfo} {oses oses' : List OSInfo}

/-- The partitions of an operating system as `checkImage` passes them on. -/
def pinned (os : OSInfo) : List PartitionInfo :=
  if isRiscos os then pinRiscos os.partitions else os.partitions

/-- **A successful `checkImage`** checks the pinned partitions after it may have
charged the budget. -/
theorem checkImage_ok {I : IntType} (h : checkImage I m os = .ok (os', m')) :
    os.partitions ≠ [] ∧ ∃ budget ps', os' = { os with partitions := ps' } ∧
      checkPartitions I { m with totalnominalsize := budget } (pinned os) = .ok (ps', m') := by
  unfold checkImage at h
  by_cases h1 : os.partitions.isEmpty = true
  · rw [if_pos h1] at h; cases h
  by_cases h2 : isRiscos os = true ∧ m.startSector > riscosSectorOffset - 2048
  · rw [if_neg h1, if_pos h2] at h; cases h
  rw [if_neg h1, if_neg h2] at h
  obtain ⟨⟨ps', m₁⟩, h3, h4⟩ := bind_ok.1 h
  simp only [pure_ok, Prod.mk.injEq] at h4
  obtain ⟨rfl, rfl⟩ := h4
  refine ⟨by simpa using h1, ?_⟩
  unfold pinned
  by_cases hr : isRiscos os = true
  · rw [if_pos hr, if_pos hr] at h3
    exact ⟨_, ps', rfl, by rw [if_pos hr]; exact h3⟩
  · rw [if_neg hr, if_neg hr] at h3
    exact ⟨m.totalnominalsize, ps', rfl, by rw [if_neg hr]; exact h3⟩

theorem checkImages_cons {I : IntType} (h : checkImages I m (os :: oses) = .ok (oses', m')) :
    ∃ os₁ m₁ oses₁, checkImage I m os = .ok (os₁, m₁) ∧
      checkImages I m₁ oses = .ok (oses₁, m') ∧ oses' = os₁ :: oses₁ := by
  unfold checkImages at h
  obtain ⟨⟨os₁, m₁⟩, h1, h2⟩ := bind_ok.1 h
  obtain ⟨⟨oses₁, m₂⟩, h3, h4⟩ := bind_ok.1 h2
  simp only [pure_ok, Prod.mk.injEq] at h4
  obtain ⟨rfl, rfl⟩ := h4
  exact ⟨os₁, m₁, oses₁, h1, h3, rfl⟩

/-- What charging the budget and successful checks preserve holds after a list of images. -/
theorem checkImages_inv {I : IntType} {P : InstallManager → Prop}
    (hcharge : ∀ m budget, P m → P { m with totalnominalsize := budget })
    (hstep : ∀ m p p' m', P m → checkPartition I m p = .ok (p', m') → P m') :
    ∀ {oses oses' : List OSInfo} {m m' : InstallManager}, P m →
      checkImages I m oses = .ok (oses', m') → P m' := by
  intro oses
  induction oses with
  | nil =>
    intro oses' m m' hm h
    simp only [checkImages, Except.ok.injEq, Prod.mk.injEq] at h
    exact h.2 ▸ hm
  | cons os oses ih =>
    intro oses' m m' hm h
    obtain ⟨os₁, m₁, oses₁, h1, h2, -⟩ := checkImages_cons h
    obtain ⟨-, budget, ps', -, h3⟩ := checkImage_ok h1
    exact ih (checkPartitions_inv hstep (hcharge m budget hm) h3) h2

/-- The partitions a list of images entered are their pinned ones on their devices. -/
theorem checkImages_entries {I : IntType} : ∀ {oses oses' : List OSInfo} {m m' : InstallManager},
    checkImages I m oses = .ok (oses', m') →
      ∃ ns : List ℤ, ns.length = (oses.flatMap pinned).length ∧
        m'.partitionMap.entries.Perm
          ((ns.zip (oses.flatMap pinned)).map (fun x => (x.1, x.2.onDevice x.1)) ++
            m.partitionMap.entries) := by
  intro oses
  induction oses with
  | nil =>
    intro oses' m m' h
    simp only [checkImages, Except.ok.injEq, Prod.mk.injEq] at h
    exact ⟨[], rfl, by rw [h.2]; exact List.Perm.refl _⟩
  | cons os oses ih =>
    intro oses' m m' h
    obtain ⟨os₁, m₁, oses₁, h1, h2, -⟩ := checkImages_cons h
    obtain ⟨-, budget, ps', -, h3⟩ := checkImage_ok h1
    obtain ⟨ns₁, hlen₁, hperm₁⟩ := checkPartitions_entries h3
    obtain ⟨ns₂, hlen₂, hperm₂⟩ := ih h2
    refine ⟨ns₁ ++ ns₂, by simp [hlen₁, hlen₂], ?_⟩
    rw [List.flatMap_cons, List.zip_append hlen₁, List.map_append, List.append_assoc]
    exact (hperm₂.trans (hperm₁.append_left _)).trans (List.perm_append_comm_assoc _ _ _)

theorem checkImages_nonempty : ∀ {oses oses' : List OSInfo} {m m' : InstallManager},
    checkImages unbounded m oses = .ok (oses', m') → ∀ os ∈ oses, os.partitions ≠ [] := by
  intro oses
  induction oses with
  | nil => intro oses' m m' _ os hos; simp at hos
  | cons os oses ih =>
    intro oses' m m' h
    obtain ⟨os₁, m₁, oses₁, h1, h2, -⟩ := checkImages_cons h
    exact List.forall_mem_cons.2 ⟨(checkImage_ok h1).1, ih h2⟩

/-- Changing one element by a function that `f` does not see. -/
theorem map_modify_eq {α β : Type} {f : α → β} {g : α → α} (h : ∀ a, f (g a) = f a) (l : List α)
    (i : ℕ) : (l.modify i g).map f = l.map f := by
  apply List.ext_getElem?
  intro j
  rw [List.getElem?_map, List.getElem?_map, List.getElem?_modify]
  cases l[j]? with
  | none => rfl
  | some a =>
    by_cases hij : i = j
    · simp [hij, h]
    · simp [hij]

/-- Pinning changes the required numbers and the first offset only. -/
theorem map_pinned {α : Type} {f : PartitionInfo → α}
    (h6 : ∀ p, f { p with requiresPartitionNumber := 6, offset := riscosSectorOffset } = f p)
    (h7 : ∀ p, f { p with requiresPartitionNumber := 7 } = f p) :
    (pinned os).map f = os.partitions.map f := by
  unfold pinned
  split_ifs
  · unfold pinRiscos
    refine (map_modify_eq h7 _ _).trans ?_
    rw [List.modifyHead_eq_modify_zero]
    exact map_modify_eq h6 _ _
  · rfl

/-- RISC OS always has a partition at a fixed offset. -/
theorem pinRiscos_fixed (hne : ps ≠ []) : ∃ p ∈ pinRiscos ps, p.offset ≠ 0 := by
  obtain ⟨p, ps, rfl⟩ := List.exists_cons_of_ne_nil hne
  have hmap : (pinRiscos (p :: ps)).map PartitionInfo.offset =
      riscosSectorOffset :: ps.map PartitionInfo.offset := by
    unfold pinRiscos
    exact map_modify_eq (by intro p; rfl) _ _
  have hmem : riscosSectorOffset ∈ (pinRiscos (p :: ps)).map PartitionInfo.offset := by
    rw [hmap]; exact List.mem_cons_self
  obtain ⟨q, hq, heq⟩ := List.mem_map.1 hmem
  exact ⟨q, hq, by rw [heq]; decide⟩

theorem pinned_nominal (h : ∀ p ∈ os.partitions, 1 ≤ p.partitionSizeNominal) :
    ∀ p ∈ pinned os, 1 ≤ p.partitionSizeNominal := by
  have hmap : (pinned os).map PartitionInfo.partitionSizeNominal =
      os.partitions.map PartitionInfo.partitionSizeNominal := map_pinned (fun _ => rfl) fun _ => rfl
  intro p hp
  have hmem : p.partitionSizeNominal ∈ (pinned os).map PartitionInfo.partitionSizeNominal :=
    List.mem_map.2 ⟨p, hp, rfl⟩
  rw [hmap] at hmem
  obtain ⟨q, hq, heq⟩ := List.mem_map.1 hmem
  rw [← heq]; exact h q hq

end Noobs
