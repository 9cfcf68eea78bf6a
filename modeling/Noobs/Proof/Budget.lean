import Noobs.Proof.Layout
import Mathlib.Algebra.Order.BigOperators.Group.List
import Mathlib.Tactic.Ring

/-!
# Does the plan end on the card?

The space test compares MB, the placement counts sectors. What the budget must
cover beyond the partitions' own MB is lost to alignment: the gap before the first
partition, and what each partition but the last leaves up to the next 4 MiB
boundary (`padMB`).

* `placePartitions_fits`: the placed partitions end on the card iff the row behind
  the last fixed offset does (`RowFits`).
* `layout_on_card`: **without fixed offsets** a plan ends on the card iff alignment
  takes no more than the budget holds for it (`AlignmentCovered`).
* `fixed_on_card`: **with fixed offsets** it does iff the last of them leaves room
  for its partition and those behind (`FixedCovered`).
-/

namespace Noobs

variable {m m' : InstallManager} {p : PartitionInfo} {share total off : ℤ}
  {l placed : List (ℤ × PartitionInfo)}

/-! ## Rows -/

/-- The MB a partition is granted when each maximised one gets `share` MB more. -/
def grantedMB (share : ℤ) (p : PartitionInfo) : ℤ :=
  p.partitionSizeNominal + if p.wantMaximised then share else 0

/-- The MB between a partition's own and the next partition, if it starts aligned. -/
def padMB (share : ℤ) (p : PartitionInfo) : ℤ :=
  if grantedMB share p % 4 = 0 then if isRaw p then 4 else 0 else 4 - grantedMB share p % 4

/-- The sectors of a partition that others follow. -/
def innerSectors (share : ℤ) (p : PartitionInfo) : ℤ :=
  if grantedMB share p % 4 = 0 then
    if isRaw p then grantedMB share p * 2048 + if p.wantMaximised then 8190 else 0
    else grantedMB share p * 2048 - 2
  else if p.wantMaximised then (grantedMB share p + padMB share p) * 2048 - 2
  else grantedMB share p * 2048

/-- The sectors of a row of partitions that starts aligned. -/
def rowSectors (share : ℤ) (ps : List PartitionInfo) : ℤ :=
  2048 * ((ps.map (grantedMB share)).sum + (ps.dropLast.map (padMB share)).sum)

/-- The last partition at a fixed offset, and those behind it. -/
def lastFixed : List (ℤ × PartitionInfo) → Option (PartitionInfo × List PartitionInfo)
  | [] => none
  | (_, p) :: rest => match lastFixed rest with
    | some r => some r
    | none => if p.offset ≠ 0 then some (p, rest.map Prod.snd) else none

/-- Where a row ends whose first partition stands at its fixed offset. -/
def fixedRowEnd (share : ℤ) (p : PartitionInfo) : List PartitionInfo → ℤ
  | [] => p.offset + grantedMB share p * 2048
  | rest => alignUp 8192 (p.offset + innerSectors share p + 2) + rowSectors share rest

/-- The row from the last fixed offset on, or the whole row behind `off` if there is
none, ends by sector `total`. -/
def RowFits (share total off : ℤ) (l : List (ℤ × PartitionInfo)) : Prop :=
  match lastFixed l with
  | some (p, rest) => fixedRowEnd share p rest ≤ total
  | none => l = [] ∨ alignUp 8192 (off + 2) + rowSectors share (l.map Prod.snd) ≤ total

theorem rowSectors_one (p : PartitionInfo) : rowSectors share [p] = grantedMB share p * 2048 := by
  simp [rowSectors, mul_comm]

theorem rowSectors_cons (p q : PartitionInfo) (ps : List PartitionInfo) :
    rowSectors share (p :: q :: ps) =
      (grantedMB share p + padMB share p) * 2048 + rowSectors share (q :: ps) := by
  simp only [rowSectors, List.map_cons, List.sum_cons, List.dropLast_cons_cons]
  ring

theorem lastFixed_eq_none : lastFixed l = none ↔ ∀ e ∈ l, e.2.offset = 0 := by
  induction l with
  | nil => simp [lastFixed]
  | cons e l ih =>
    obtain ⟨n, p⟩ := e
    simp only [lastFixed, List.forall_mem_cons, ← ih]
    cases lastFixed l <;> simp

theorem lastFixed_cons {n : ℤ} (h : lastFixed l = none) : lastFixed ((n, p) :: l) =
    if p.offset ≠ 0 then some (p, l.map Prod.snd) else none := by
  rw [lastFixed, h]

/-- Only what follows the last fixed offset matters. -/
theorem rowFits_cons_some {n off' : ℤ} {r : PartitionInfo × List PartitionInfo}
    (h : lastFixed l = some r) : RowFits share total off ((n, p) :: l) ↔ RowFits share total off' l := by
  have h' : lastFixed ((n, p) :: l) = some r := by rw [lastFixed, h]
  unfold RowFits
  rw [h, h']

theorem rowFits_fixed {r : PartitionInfo × List PartitionInfo} (h : lastFixed l = some r) :
    RowFits share total off l ↔ fixedRowEnd share r.1 r.2 ≤ total := by
  unfold RowFits
  rw [h]

theorem rowFits_free (h : lastFixed l = none) : RowFits share total off l ↔
    l = [] ∨ alignUp 8192 (off + 2) + rowSectors share (l.map Prod.snd) ≤ total := by
  unfold RowFits
  rw [h]

theorem sizeMB_eq (m : InstallManager) (p : PartitionInfo) :
    sizeMB m p = grantedMB m.extraSpacePerPartition p := rfl

theorem partitionSectors_eq_inner (hs : 0 ≤ grantedMB m.extraSpacePerPartition p) (s : ℤ) :
    partitionSectors unbounded m false s p = innerSectors m.extraSpacePerPartition p := by
  rw [partitionSectors_inner (m := m) hs, sizeMB_eq]
  unfold innerSectors padMB
  by_cases h4 : grantedMB m.extraSpacePerPartition p % 4 = 0
  · rw [if_pos h4, if_pos h4]
  · rw [if_neg h4, if_neg h4, if_neg h4]

/-- **An aligned partition's successor** starts behind its MB and their padding. -/
theorem alignUp_inner (share : ℤ) (p : PartitionInfo) {s : ℤ} (hd : (8192 : ℤ) ∣ s) :
    alignUp 8192 (s + innerSectors share p + 2) =
      s + (grantedMB share p + padMB share p) * 2048 := by
  rw [add_assoc, alignUp_add hd]
  congr 1
  unfold innerSectors padMB alignUp
  split_ifs <;> omega

/-! ## The loop -/

/-- The last partition ends on the card iff its MB do. -/
theorem last_fits (s : ℤ) : s + partitionSectors unbounded m true s p ≤ m.totalSectors ↔
    s + grantedMB m.extraSpacePerPartition p * 2048 ≤ m.totalSectors := by
  rw [partitionSectors_last, sizeMB_eq]
  split_ifs with h <;> omega

/-- A placed partition ends behind its predecessor. -/
theorem le_of_placed {n : ℤ} {rest : List (ℤ × PartitionInfo)} (h0 : 0 ≤ off)
    (hp : 1 ≤ grantedMB m.extraSpacePerPartition p)
    (h : placePartitions unbounded m off ((n, p) :: rest) = .ok placed)
    (hend : ∀ e ∈ placed, e.2.endSector ≤ total) : off ≤ total := by
  obtain ⟨s, tail, hs, -, rfl⟩ := placePartitions_cons h
  have hsize := le_partitionSectors (m := m) (p := p) (by rw [sizeMB_eq]; omega) rest.isEmpty s
  rw [sizeMB_eq] at hsize
  have halign : off + 2 ≤ alignUp 8192 (off + 2) := le_alignUp (by omega) _
  have hhead := hend _ List.mem_cons_self
  simp only [PartitionInfo.endSector] at hhead
  rcases partitionStart_ok h0 hs with ⟨-, h1, rfl⟩ | ⟨-, rfl⟩ <;> omega

/-- **Placed partitions end on the card iff their row does.** -/
theorem placePartitions_fits : ∀ {l placed : List (ℤ × PartitionInfo)} {off : ℤ}, 0 ≤ off →
    (∀ e ∈ l, 1 ≤ grantedMB m.extraSpacePerPartition e.2) →
    placePartitions unbounded m off l = .ok placed →
    ((∀ e ∈ placed, e.2.endSector ≤ m.totalSectors) ↔
      RowFits m.extraSpacePerPartition m.totalSectors off l) := by
  intro l
  induction l with
  | nil =>
    intro placed off _ _ h
    simp only [placePartitions, Except.ok.injEq] at h
    subst h
    simp [RowFits, lastFixed]
  | cons e l ih =>
    obtain ⟨n, p⟩ := e
    intro placed off h0 hl h
    obtain ⟨s, tail, hs, ht, rfl⟩ := placePartitions_cons h
    have hp := hl (n, p) List.mem_cons_self
    have hl' := fun e he => hl e (List.mem_cons_of_mem _ he)
    simp only at hp
    have hstart := partitionStart_ok h0 hs
    have halign : off + 2 ≤ alignUp 8192 (off + 2) := le_alignUp (by omega) _
    have hs0 : 0 ≤ s := by rcases hstart with ⟨-, h1, rfl⟩ | ⟨-, rfl⟩ <;> omega
    rw [List.forall_mem_cons]
    -- the last partition keeps its sectors, every other one is padded to the next
    cases l with
    | nil =>
      simp only [placePartitions, Except.ok.injEq] at ht
      subst ht
      simp only [List.isEmpty_nil, List.not_mem_nil, false_implies, implies_true, and_true,
        PartitionInfo.endSector, last_fits]
      rcases hstart with ⟨hne, -, rfl⟩ | ⟨hz, rfl⟩
      · simp [RowFits, lastFixed, hne, fixedRowEnd]
      · simp [RowFits, lastFixed, hz, rowSectors_one]
    | cons q l =>
      simp only [List.isEmpty_cons] at ht ⊢
      rw [partitionSectors_eq_inner (by omega)] at ht ⊢
      have hsize := le_partitionSectors (m := m) (p := p) (by rw [sizeMB_eq]; omega) false s
      rw [partitionSectors_eq_inner (by omega), sizeMB_eq] at hsize
      have hoff : 0 ≤ s + innerSectors m.extraSpacePerPartition p := by omega
      have hrow := ih hoff hl' ht
      -- if the partitions behind it fit, so does this one
      refine (and_iff_right_of_imp fun hall => le_of_placed hoff (hl' q List.mem_cons_self) ht hall).trans
        (hrow.trans ?_)
      -- a fixed offset further on decides alone; without one, this partition's start does
      cases hf : lastFixed (q :: l) with
      | some r => exact (rowFits_cons_some hf).symm
      | none =>
        have hcons := lastFixed_cons (p := p) (n := n) hf
        rw [rowFits_free hf]
        rcases hstart with ⟨hne, -, rfl⟩ | ⟨hz, rfl⟩
        · rw [if_pos hne] at hcons
          rw [rowFits_fixed hcons, or_iff_right (List.cons_ne_nil _ _)]
          rfl
        · rw [if_neg (not_not.2 hz)] at hcons
          rw [rowFits_free hcons, or_iff_right (List.cons_ne_nil _ _), or_iff_right (List.cons_ne_nil _ _),
            alignUp_inner _ p (dvd_alignUp _ _)]
          simp only [List.map_cons, rowSectors_cons]
          rw [add_assoc]

/-! ## The whole calculation -/

/-- The MB the budget leaves. -/
def InstallManager.spareMB (m : InstallManager) : ℤ := m.availableMB - m.totalnominalsize

/-- What each maximised partition gets of them; nothing if there is none. -/
def InstallManager.shareMB (m : InstallManager) : ℤ := m.spareMB / m.numexpandparts

/-- The partitions of the map in the order of their placement. -/
def InstallManager.order (m : InstallManager) : List PartitionInfo :=
  (logBeforePrim m.partitionMap).map Prod.snd

/-- Sums over the row are sums over the map. -/
theorem sum_order (m : InstallManager) (f : PartitionInfo → ℤ) :
    (m.order.map f).sum = (m.partitionMap.values.map f).sum :=
  (((logBeforePrim_perm m.partitionMap).map Prod.snd).map f).sum_eq

/-- **What the calculation grants** each maximised partition is its share. -/
theorem extraSpace_eq (hx : m.extraSpacePerPartition = 0) (hle : m.totalnominalsize ≤ m.availableMB) :
    (m.withExtraSpace unbounded).extraSpacePerPartition = m.shareMB := by
  unfold InstallManager.shareMB
  simp only [InstallManager.withExtraSpace, unbounded]
  by_cases hc : m.numexpandparts = 0
  · rw [if_neg (not_not.2 hc), hx, hc, Int.ediv_zero]
  · rw [if_pos hc]
    have hspare : 0 ≤ m.spareMB := by unfold InstallManager.spareMB; omega
    exact Int.tdiv_eq_ediv_of_nonneg hspare

theorem shareMB_nonneg (hn : 0 ≤ m.numexpandparts) (hle : m.totalnominalsize ≤ m.availableMB) :
    0 ≤ m.shareMB :=
  Int.ediv_nonneg (by unfold InstallManager.spareMB; omega) hn

/-- What a manager holds after its checks, before the calculation. -/
structure Checked (m : InstallManager) : Prop where
  noExtra : m.extraSpacePerPartition = 0
  count : 0 ≤ m.numexpandparts
  start : 0 ≤ m.startSector
  nominal : ∀ e ∈ m.partitionMap.entries, 1 ≤ e.2.partitionSizeNominal

/-- **The whole calculation** ends on the card iff the row of the map does. -/
theorem calculate_fits (hm : Checked m) (h : calculateSpaceRequirements unbounded m = .ok m') :
    (∀ e ∈ m'.partitionMap.entries, e.2.endSector ≤ m.totalSectors) ↔
      RowFits m.shareMB m.totalSectors m.startSector (logBeforePrim m.partitionMap) := by
  obtain ⟨hle, -⟩ := calculateSpaceRequirements_ok h
  obtain ⟨placed, hp, -, hmem⟩ := calculate_entries h
  have hextra := extraSpace_eq hm.noExtra hle
  have hshare := shareMB_nonneg hm.count hle
  have hfits := placePartitions_fits hm.start (fun e he => by
    have := hm.nominal e ((logBeforePrim_perm _).mem_iff.1 he)
    rw [hextra]; unfold grantedMB; split_ifs <;> omega) hp
  rw [hextra] at hfits
  simp only [hmem]
  exact hfits

/-! ## Without fixed offsets -/

/-- The MB spared by the budget that are in no maximised partition's share. -/
def InstallManager.undividedMB (m : InstallManager) : ℤ := m.spareMB - m.numexpandparts * m.shareMB

/-- The sectors alignment takes: the gap before the first partition and the padding
behind each but the last. -/
def InstallManager.alignmentSectors (m : InstallManager) : ℤ :=
  alignUp 8192 (m.startSector + 2) - m.startSector +
    2048 * (m.order.dropLast.map (padMB m.shareMB)).sum

/-- The sectors of the card that no partition's own MB claim: the rest of the card
behind its last full MB, the undivided MB, and the overhead charged. -/
def InstallManager.reservedSectors (m : InstallManager) : ℤ :=
  (m.totalSectors - m.startSector) % 2048 +
    2048 * (m.undividedMB + (m.partitionMap.values.map overheadMB).sum)

/-- What alignment takes was set aside for it, or there is nothing to place. -/
def AlignmentCovered (m : InstallManager) : Prop :=
  m.partitionMap.isEmpty ∨ m.alignmentSectors ≤ m.reservedSectors

instance (m : InstallManager) : Decidable (AlignmentCovered m) := by
  unfold AlignmentCovered; infer_instance

theorem sum_grantedMB (ps : List PartitionInfo) : (ps.map (grantedMB share)).sum =
    (ps.map PartitionInfo.partitionSizeNominal).sum + (ps.map maxCount).sum * share := by
  induction ps with
  | nil => simp
  | cons p ps ih =>
    simp only [List.map_cons, List.sum_cons, ih, grantedMB, maxCount]
    cases p.wantMaximised <;> simp <;> ring

theorem sum_costMB (ps : List PartitionInfo) : (ps.map costMB).sum =
    (ps.map PartitionInfo.partitionSizeNominal).sum + (ps.map overheadMB).sum := by
  rw [← List.sum_map_add]; rfl

/-- Sums over the map's partitions are sums over the given ones. -/
theorem checkPartitions_sum {sys : Sysfs} {ps ps' : List PartitionInfo} {f : PartitionInfo → ℤ}
    (hf : ∀ p n, f (p.onDevice n) = f p)
    (h : checkPartitions unbounded (.new unbounded sys) ps = .ok (ps', m)) :
    (m.partitionMap.values.map f).sum = (ps.map f).sum := by
  obtain ⟨ns, hlen, hperm⟩ := checkPartitions_entries h
  simp only [InstallManager.new, SortedMap.entries_empty, List.append_nil] at hperm
  have hvals : (m.partitionMap.values.map f).Perm (ps.map f) := by
    refine ((hperm.map Prod.snd).map f).trans (List.Perm.of_eq ?_)
    rw [List.map_map, List.map_map]
    have hps : (ns.zip ps).map Prod.snd = ps := List.map_snd_zip hlen.ge
    conv_rhs => rw [← hps, List.map_map]
    exact List.map_congr_left fun x _ => hf x.2 x.1
  exact hvals.sum_eq

/-- The MB granted to the row are the nominal ones and the shares. -/
theorem sum_grantedMB_order {sys : Sysfs} {ps ps' : List PartitionInfo}
    (h : checkPartitions unbounded (.new unbounded sys) ps = .ok (ps', m)) (share : ℤ) :
    (m.order.map (grantedMB share)).sum =
      (m.partitionMap.values.map PartitionInfo.partitionSizeNominal).sum + m.numexpandparts * share := by
  obtain ⟨-, hcount, -⟩ := checkPartitions_totals h
  rw [sum_grantedMB, sum_order, sum_order, checkPartitions_sum (fun _ _ => rfl) h (f := maxCount), hcount]
  simp [InstallManager.new]

/-- The accumulated budget: the nominal MB and the overhead. -/
theorem totalnominalsize_eq {sys : Sysfs} {ps ps' : List PartitionInfo}
    (h : checkPartitions unbounded (.new unbounded sys) ps = .ok (ps', m)) :
    m.totalnominalsize = (m.partitionMap.values.map PartitionInfo.partitionSizeNominal).sum +
      (m.partitionMap.values.map overheadMB).sum := by
  obtain ⟨htotal, -⟩ := checkPartitions_totals h
  rw [htotal, ← checkPartitions_sum (fun _ _ => rfl) h, sum_costMB]
  simp [InstallManager.new]

/-- The manager that checked the partitions `ps` for a card. -/
structure ManagerOf (sys : Sysfs) (ps : List PartitionInfo) (m : InstallManager) : Prop where
  noExtra : m.extraSpacePerPartition = 0
  count : 0 ≤ m.numexpandparts
  start : m.startSector = sys.startP5 + sys.sizeP5
  card : m.totalSectors = sys.totalSectors
  available : m.availableMB = ((sys.totalSectors : ℤ) - (sys.startP5 + sys.sizeP5)).tdiv 2048
  entered : ∃ ns : List ℤ, ns.length = ps.length ∧
    m.partitionMap.entries.Perm ((ns.zip ps).map fun x => (x.1, x.2.onDevice x.1))

section ManagerOf

variable {sys : Sysfs} {ps ps' : List PartitionInfo} {oses oses' : List OSInfo}

theorem managerOf_checkPartitions (h : checkPartitions unbounded (.new unbounded sys) ps = .ok (ps', m)) :
    ManagerOf sys ps m := by
  obtain ⟨-, hstart, hx, hn, -⟩ := checkPartitions_fresh h
  obtain ⟨-, -, -, hcard, havail⟩ := checkPartitions_totals h
  obtain ⟨ns, hlen, hperm⟩ := checkPartitions_entries h
  simp only [InstallManager.new, SortedMap.entries_empty, List.append_nil] at hperm
  exact ⟨hx, hn, hstart, hcard, havail, ns, hlen, hperm⟩

theorem managerOf_checkImages (h : checkImages unbounded (.new unbounded sys) oses = .ok (oses', m)) :
    ManagerOf sys (oses.flatMap pinned) m := by
  let P : InstallManager → Prop := fun m => m.extraSpacePerPartition = 0 ∧ 0 ≤ m.numexpandparts ∧
    m.startSector = (sys.startP5 : ℤ) + sys.sizeP5 ∧ m.totalSectors = sys.totalSectors ∧
    m.availableMB = ((sys.totalSectors : ℤ) - (sys.startP5 + sys.sizeP5)).tdiv 2048
  have hP : P m := by
    refine checkImages_inv (P := P) (fun _ _ hm => hm) ?_ ⟨rfl, le_rfl, rfl, rfl, rfl⟩ h
    rintro m p p' m' ⟨h1, h2, hrest⟩ hstep
    obtain ⟨n, -, -, -, -, -, -, -, rfl⟩ := checkPartition_ok hstep
    refine ⟨h1, ?_, hrest⟩
    simp only [InstallManager.enter, maxCount]
    split_ifs <;> omega
  obtain ⟨hx, hn, hstart, hcard, havail⟩ := hP
  obtain ⟨ns, hlen, hperm⟩ := checkImages_entries h
  simp only [InstallManager.new, SortedMap.entries_empty, List.append_nil] at hperm
  exact ⟨hx, hn, hstart, hcard, havail, ns, hlen, hperm⟩

/-- Every entry is one of the partitions, on the device of its number. -/
theorem ManagerOf.partition (h : ManagerOf sys ps m) :
    ∀ e ∈ m.partitionMap.entries, ∃ p ∈ ps, e.2 = p.onDevice e.1 := by
  obtain ⟨ns, -, hperm⟩ := h.entered
  intro e he
  obtain ⟨⟨n, p⟩, hz, rfl⟩ := List.mem_map.1 (hperm.mem_iff.1 he)
  exact ⟨p, (List.of_mem_zip hz).2, rfl⟩

/-- Every partition is entered. -/
theorem ManagerOf.number (h : ManagerOf sys ps m) (hp : p ∈ ps) :
    ∃ n, (n, p.onDevice n) ∈ m.partitionMap.entries := by
  obtain ⟨ns, hlen, hperm⟩ := h.entered
  have hps : (ns.zip ps).map Prod.snd = ps := List.map_snd_zip hlen.ge
  rw [← hps] at hp
  obtain ⟨⟨n, q⟩, hz, rfl⟩ := List.mem_map.1 hp
  exact ⟨n, hperm.mem_iff.2 (List.mem_map.2 ⟨(n, q), hz, rfl⟩)⟩

theorem ManagerOf.length (h : ManagerOf sys ps m) : m.partitionMap.entries.length = ps.length := by
  obtain ⟨ns, hlen, hperm⟩ := h.entered
  rw [hperm.length_eq, List.length_map, List.length_zip, hlen, min_self]

theorem ManagerOf.checked (h : ManagerOf sys ps m) (hnom : ∀ p ∈ ps, 1 ≤ p.partitionSizeNominal) :
    Checked m := by
  have hstart := h.start
  refine ⟨h.noExtra, h.count, by omega, ?_⟩
  intro e he
  obtain ⟨p, hp, heq⟩ := h.partition e he
  rw [heq]
  exact hnom p hp

end ManagerOf

/-- **Without fixed offsets**, an accepted plan ends on the card iff what alignment
takes was set aside. -/
theorem layout_on_card {sys : Sysfs} {ps ps' : List PartitionInfo}
    (hfix : ∀ p ∈ ps, p.offset = 0) (hnom : ∀ p ∈ ps, 1 ≤ p.partitionSizeNominal)
    (hcheck : checkPartitions unbounded (.new unbounded sys) ps = .ok (ps', m))
    (hcalc : calculateSpaceRequirements unbounded m = .ok m') :
    (∀ e ∈ m'.partitionMap.entries, e.2.endSector ≤ sys.totalSectors) ↔ AlignmentCovered m := by
  have hof := managerOf_checkPartitions hcheck
  have hm := hof.checked hnom
  obtain ⟨hle, -⟩ := calculateSpaceRequirements_ok hcalc
  have hperm := logBeforePrim_perm m.partitionMap
  have hfree : lastFixed (logBeforePrim m.partitionMap) = none := by
    rw [lastFixed_eq_none]
    intro e he
    obtain ⟨p, hp, heq⟩ := hof.partition e (hperm.mem_iff.1 he)
    rw [heq]; exact hfix p hp
  have hfits := calculate_fits hm hcalc
  rw [rowFits_free hfree] at hfits
  rw [← hof.card, hfits]
  unfold AlignmentCovered
  have hempty : logBeforePrim m.partitionMap = [] ↔ m.partitionMap.isEmpty = true := by
    unfold SortedMap.isEmpty
    rw [List.isEmpty_iff]
    exact ⟨fun h => by rwa [h, List.nil_perm] at hperm, fun h => by rwa [h, List.perm_nil] at hperm⟩
  rw [hempty]
  by_cases hne : m.partitionMap.isEmpty = true
  · simp [hne]
  refine or_congr_right ?_
  have hgranted := sum_grantedMB_order hcheck m.shareMB
  have hcost := totalnominalsize_eq hcheck
  -- something is placed, so the card has a full MB left
  have hpos : 0 < (m.partitionMap.values.map costMB).sum := by
    apply List.sum_pos
    · intro c hc
      obtain ⟨q, hq, rfl⟩ := List.mem_map.1 hc
      obtain ⟨e, he, rfl⟩ := List.mem_map.1 hq
      have := hm.nominal e he
      unfold costMB overheadMB
      split_ifs <;> omega
    · rw [Ne, List.map_eq_nil_iff, SortedMap.values, List.map_eq_nil_iff]
      simpa [SortedMap.isEmpty] using hne
  rw [sum_costMB] at hpos
  have hmb : m.availableMB = (m.totalSectors - m.startSector) / 2048 := by
    have hdiv : m.availableMB = (m.totalSectors - m.startSector).tdiv 2048 := by
      rw [hof.available, hof.card, hof.start]
    rcases le_total 0 (m.totalSectors - m.startSector) with h0 | h0
    · rw [hdiv, Int.tdiv_eq_ediv_of_nonneg h0]
    · have := Int.tdiv_le_tdiv (by norm_num : (0 : ℤ) < 2048) h0
      rw [Int.zero_tdiv] at this
      omega
  unfold InstallManager.alignmentSectors InstallManager.reservedSectors InstallManager.undividedMB
    InstallManager.spareMB rowSectors
  rw [← InstallManager.order, hgranted]
  omega

/-- Two partitions of 4 MB behind settings that end at sector 286718. -/
def tightPartitions : List PartitionInfo :=
  [{ fsType := "ext4".toList, partitionSizeNominal := 4 },
   { fsType := "ext4".toList, partitionSizeNominal := 4 }]

/-- A card with room for 8 MB, to the sector. -/
def tightCard : Sysfs := { demoCard with totalSectors := 286718 + 8 * 2048 }

/-- The budget fits to the MB, but the first gap was not in it. -/
theorem tight_overruns :
    (∀ p ∈ tightPartitions, p.offset = 0 ∧ 1 ≤ p.partitionSizeNominal) ∧
    checkPartitions unbounded (.new unbounded tightCard) tightPartitions =
      .ok (checkedPartitions tightCard tightPartitions, checkedManager tightCard tightPartitions) ∧
    calculateSpaceRequirements unbounded (checkedManager tightCard tightPartitions) =
      .ok (plannedManager (checkedManager tightCard tightPartitions)) ∧
    ¬∀ e ∈ (plannedManager (checkedManager tightCard tightPartitions)).partitionMap.entries,
      e.2.endSector ≤ tightCard.totalSectors :=
  ⟨by decide, rfl, rfl, by decide⟩

theorem demo_on_card :
    (plannedManager (checkedManager demoCard demoPartitions)).partitionMap.entries.length = 3 ∧
      ∀ e ∈ (plannedManager (checkedManager demoCard demoPartitions)).partitionMap.entries,
        e.2.endSector ≤ demoCard.totalSectors :=
  ⟨by decide, (layout_on_card (by decide) (by decide) demo_checked demo_planned).2 (by decide)⟩

/-! ## With fixed offsets -/

/-- The row from the last fixed offset on ends on the card. -/
def FixedCovered (m : InstallManager) : Prop :=
  ∀ r ∈ lastFixed (logBeforePrim m.partitionMap), fixedRowEnd m.shareMB r.1 r.2 ≤ m.totalSectors

instance (m : InstallManager) : Decidable (FixedCovered m) := by
  unfold FixedCovered; infer_instance

/-- **With fixed offsets**, an accepted plan ends on the card iff the partitions from
the last fixed offset on fit behind it. -/
theorem fixed_on_card {sys : Sysfs} {oses oses' : List OSInfo}
    (hfix : ∃ os ∈ oses, isRiscos os = true ∨ ∃ p ∈ os.partitions, p.offset ≠ 0)
    (hnom : ∀ os ∈ oses, ∀ p ∈ os.partitions, 1 ≤ p.partitionSizeNominal)
    (hcheck : checkImages unbounded (.new unbounded sys) oses = .ok (oses', m))
    (hcalc : calculateSpaceRequirements unbounded m = .ok m') :
    (∀ e ∈ m'.partitionMap.entries, e.2.endSector ≤ sys.totalSectors) ↔ FixedCovered m := by
  have hof := managerOf_checkImages hcheck
  have hm : Checked m := hof.checked fun p hp => by
    obtain ⟨os, hos, hp⟩ := List.mem_flatMap.1 hp
    exact pinned_nominal (hnom os hos) p hp
  have hperm := logBeforePrim_perm m.partitionMap
  -- a fixed partition of the images stands in the row
  have hsome : lastFixed (logBeforePrim m.partitionMap) ≠ none := by
    rw [Ne, lastFixed_eq_none]
    intro hall
    obtain ⟨os, hos, hos'⟩ := hfix
    have hpin : ∃ p ∈ pinned os, p.offset ≠ 0 := by
      unfold pinned
      by_cases hr : isRiscos os = true
      · rw [if_pos hr]; exact pinRiscos_fixed (checkImages_nonempty hcheck os hos)
      · rw [if_neg hr]; exact hos'.resolve_left hr
    obtain ⟨p, hp, hne⟩ := hpin
    obtain ⟨n, hn⟩ := hof.number (List.mem_flatMap.2 ⟨os, hos, hp⟩)
    exact hne (hall _ (hperm.mem_iff.2 hn))
  obtain ⟨r, hr⟩ := Option.ne_none_iff_exists'.1 hsome
  rw [← hof.card, calculate_fits hm hcalc, rowFits_fixed hr]
  unfold FixedCovered
  rw [hr]
  simp

/-- The manager that checked a list of images. -/
def checkedImagesManager (sys : Sysfs) (oses : List OSInfo) : InstallManager :=
  match checkImages unbounded (.new unbounded sys) oses with
  | .ok r => r.2
  | .error _ => .new unbounded sys

/-- The images of a checked list. -/
def checkedImages (sys : Sysfs) (oses : List OSInfo) : List OSInfo :=
  match checkImages unbounded (.new unbounded sys) oses with
  | .ok r => r.1
  | .error _ => []

/-- An image whose second partition wants to start at the given sector. -/
def demoImage (offset : ℤ) : OSInfo :=
  { name := "Raspbian".toList, partitions :=
      [{ fsType := "FAT".toList, partitionSizeNominal := 62 },
       { fsType := "ext4".toList, partitionSizeNominal := 1000, offset := offset }] }

/-- The fixed offset itself lies behind the card, and nothing objects. -/
theorem smuggled_past_end :
    checkImages unbounded (.new unbounded demoCard) [demoImage 1000000000] =
      .ok (checkedImages demoCard [demoImage 1000000000],
        checkedImagesManager demoCard [demoImage 1000000000]) ∧
    calculateSpaceRequirements unbounded (checkedImagesManager demoCard [demoImage 1000000000]) =
      .ok (plannedManager (checkedImagesManager demoCard [demoImage 1000000000])) ∧
    ¬∀ e ∈ (plannedManager
        (checkedImagesManager demoCard [demoImage 1000000000])).partitionMap.entries,
      e.2.endSector ≤ demoCard.totalSectors :=
  ⟨rfl, rfl, by decide⟩

theorem demo_fixed_on_card :
    (plannedManager (checkedImagesManager demoCard [demoImage 2097152])).partitionMap.entries.length = 2 ∧
      ∀ e ∈ (plannedManager (checkedImagesManager demoCard [demoImage 2097152])).partitionMap.entries,
        e.2.endSector ≤ demoCard.totalSectors := by
  have hcheck : checkImages unbounded (.new unbounded demoCard) [demoImage 2097152] =
      .ok (checkedImages demoCard [demoImage 2097152],
        checkedImagesManager demoCard [demoImage 2097152]) := rfl
  exact ⟨by decide, (fixed_on_card (by decide) (by decide) hcheck rfl).2 (by decide)⟩

end Noobs
