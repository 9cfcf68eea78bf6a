import Noobs.Proof.Check
import Noobs.Lib.Extent
import Mathlib.Tactic.NormNum

/-!
# The placement loop

* `logBeforePrim_eq`: the three rotations put the logical partitions, by ascending
  number, before the primaries 2, 3, 4.
* `placePartitions_placed`: each placed partition starts behind its predecessor,
  at its fixed offset or at the first aligned sector behind the gap (`Placed`), and
  is positive.
* `calculateSpaceRequirements_ok`: the manager after a successful calculation;
  `calculate_order`: the row it places, in placement order.
* `planned_disjoint`: **planned partitions never overlap**, each other or the
  settings partition.
-/

namespace Noobs

open Extent

variable {m m' : InstallManager} {p : PartitionInfo}

/-! ## The order of placement -/

/-- The logical partitions of a map by ascending number, then its primaries. -/
def placementOrder (map : SortedMap ℤ PartitionInfo) : List (ℤ × PartitionInfo) :=
  map.entries.filter (fun e => 6 ≤ e.1) ++ map.entries.filter (fun e => e.1 < 6)

/-- The numbers of the map are those of primaries and logical partitions. -/
def PlainNumbers (map : SortedMap ℤ PartitionInfo) : Prop :=
  ∀ n ∈ map.keys, n = 2 ∨ n = 3 ∨ n = 4 ∨ 6 ≤ n

instance (map : SortedMap ℤ PartitionInfo) : Decidable (PlainNumbers map) := by
  unfold PlainNumbers; infer_instance

theorem placementOrder_perm (map : SortedMap ℤ PartitionInfo) :
    (placementOrder map).Perm map.entries := by
  unfold placementOrder
  have h : (map.entries.filter fun e => e.1 < 6) =
      map.entries.filter fun e => !decide (6 ≤ e.1) := by
    apply List.filter_congr
    intro e _
    by_cases he : e.1 < 6
    · simp [he]
    · simp [he, not_lt.1 he]
  rw [h]
  exact List.filter_append_perm _ _

theorem mem_placementOrder {map : SortedMap ℤ PartitionInfo} {e : ℤ × PartitionInfo} :
    e ∈ placementOrder map ↔ e ∈ map.entries := (placementOrder_perm map).mem_iff

theorem rotateFirst_perm (nr : ℤ) (l : List (ℤ × PartitionInfo)) : (rotateFirst nr l).Perm l := by
  cases l with
  | nil => exact List.Perm.refl _
  | cons e es =>
    simp only [rotateFirst]
    split_ifs
    · exact List.perm_append_singleton e es
    · exact List.Perm.refl _

theorem logBeforePrim_perm (map : SortedMap ℤ PartitionInfo) :
    (logBeforePrim map).Perm map.entries :=
  ((rotateFirst_perm 4 _).trans (rotateFirst_perm 3 _)).trans (rotateFirst_perm 2 _)

theorem rotateFirst_of_ne {nr : ℤ} {l : List (ℤ × PartitionInfo)}
    (h : ∀ e ∈ l, e.2.requiresPartitionNumber ≠ nr) : rotateFirst nr l = l := by
  cases l with
  | nil => rfl
  | cons e es => exact if_neg (h e List.mem_cons_self)

theorem rotateFirst_hit {nr : ℤ} {e : ℤ × PartitionInfo} (h : e.2.requiresPartitionNumber = nr)
    (es : List (ℤ × PartitionInfo)) : rotateFirst nr (e :: es) = es ++ [e] := if_pos h

theorem rotateFirst_miss {nr : ℤ} {e : ℤ × PartitionInfo} (h : e.2.requiresPartitionNumber ≠ nr)
    (es : List (ℤ × PartitionInfo)) : rotateFirst nr (e :: es) = e :: es := if_neg h

/-- In key order, the primaries stand before the logical partitions. -/
theorem entries_eq_filters (map : SortedMap ℤ PartitionInfo) :
    map.entries = map.entries.filter (fun e => e.1 < 6) ++ map.entries.filter (fun e => 6 ≤ e.1) := by
  have key : ∀ {l : List (ℤ × PartitionInfo)}, l.Pairwise (fun a b => a.1 < b.1) →
      l = l.filter (fun e => e.1 < 6) ++ l.filter (fun e => 6 ≤ e.1) := by
    intro l
    induction l with
    | nil => intro _; rfl
    | cons d es ih =>
      intro hl
      obtain ⟨hd, hes⟩ := List.pairwise_cons.1 hl
      by_cases h6 : d.1 < 6
      · have h6' : ¬6 ≤ d.1 := by omega
        simp only [List.filter_cons, h6, h6', decide_true, decide_false, if_true, if_false,
          List.cons_append, Bool.false_eq_true]
        rw [← ih hes]
      · have hnil : (d :: es).filter (fun e => e.1 < 6) = [] := by
          rw [List.filter_eq_nil_iff]
          intro e he
          rcases List.mem_cons.1 he with rfl | he
          · simpa using h6
          · have := hd e he
            simp only [decide_eq_true_eq]; omega
        have hall : (d :: es).filter (fun e => 6 ≤ e.1) = d :: es := by
          rw [List.filter_eq_self]
          intro e he
          rcases List.mem_cons.1 he with rfl | he
          · simp only [decide_eq_true_eq]; omega
          · have := hd e he
            simp only [decide_eq_true_eq]; omega
        rw [hnil, hall, List.nil_append]
  exact key map.sorted

/-- **Placement order**: the rotations yield the logical partitions first. -/
theorem logBeforePrim_eq {map : SortedMap ℤ PartitionInfo} (hm : Numbered map)
    (hk : PlainNumbers map) : logBeforePrim map = placementOrder map := by
  have hkey : ∀ e ∈ map.entries, e.1 = 2 ∨ e.1 = 3 ∨ e.1 = 4 ∨ 6 ≤ e.1 :=
    fun e he => hk e.1 (List.mem_map.2 ⟨e, he, rfl⟩)
  have hprim : ∀ e ∈ map.entries, e.1 < 6 → e.2.requiresPartitionNumber = e.1 := by
    intro e he h6
    rcases hm.own e.1 e.2 he with h | h
    · exact h
    · omega
  unfold logBeforePrim placementOrder
  have hsplit := entries_eq_filters map
  have hsort := map.sorted
  set L := map.entries.filter fun e => 6 ≤ e.1 with hL
  set P := map.entries.filter fun e => e.1 < 6 with hP
  -- no logical partition requires a primary number
  have hLn : ∀ nr : ℤ, nr < 6 → nr ≠ 0 → ∀ e ∈ L, e.2.requiresPartitionNumber ≠ nr := by
    intro nr h6 h0 e he
    rw [hL, List.mem_filter] at he
    have h6' : 6 ≤ e.1 := by simpa using he.2
    rcases hm.own e.1 e.2 he.1 with h | h <;> omega
  have hPmem : ∀ e ∈ P, e ∈ map.entries ∧ e.1 < 6 := by
    intro e he
    rw [hP, List.mem_filter] at he
    exact ⟨he.1, by simpa using he.2⟩
  have hcont : ∀ e ∈ P, map.contains e.1 = true :=
    fun e he => SortedMap.contains_iff.2 ⟨e.2, (hPmem e he).1⟩
  rw [hsplit] at hsort
  have hPs := (List.pairwise_append.1 hsort).1
  have hreq : ∀ e ∈ P, e.2.requiresPartitionNumber = e.1 :=
    fun e he => hprim e (hPmem e he).1 (hPmem e he).2
  have hval : ∀ e ∈ P, e.1 = 2 ∨ e.1 = 3 ∨ e.1 = 4 := by
    intro e he
    have := hkey e (hPmem e he).1
    have := (hPmem e he).2
    omega
  rw [hsplit]
  -- at most two primaries are claimed, and not 2 and 4 together
  cases hPl : P with
  | nil =>
    simp only [List.nil_append, List.append_nil]
    rw [rotateFirst_of_ne (hLn 2 (by omega) (by omega)), rotateFirst_of_ne (hLn 3 (by omega) (by omega)),
      rotateFirst_of_ne (hLn 4 (by omega) (by omega))]
  | cons a P₁ =>
    rw [hPl] at hPs hreq hval hcont
    obtain ⟨hab, hPs₁⟩ := List.pairwise_cons.1 hPs
    have ha := hval a List.mem_cons_self
    have har := hreq a List.mem_cons_self
    -- nothing moves once the partitions in front require no number still to come
    have hskip : ∀ nr : ℤ, nr < 6 → nr ≠ 0 → ∀ R : List (ℤ × PartitionInfo),
        (∀ e ∈ R, e.2.requiresPartitionNumber ≠ nr) → rotateFirst nr (L ++ R) = L ++ R :=
      fun nr h6 h0 R hR =>
        rotateFirst_of_ne fun e he => (List.mem_append.1 he).elim (hLn nr h6 h0 e) (hR e)
    cases P₁ with
    | nil =>
      rw [List.cons_append, List.nil_append]
      have h1 : ∀ nr : ℤ, a.1 ≠ nr → ∀ e ∈ [a], e.2.requiresPartitionNumber ≠ nr := by
        intro nr hne e he
        rw [List.mem_singleton.1 he, har]; exact hne
      rcases ha with ha | ha | ha
      · rw [rotateFirst_hit (by omega), hskip 3 (by omega) (by omega) _ (h1 3 (by omega)),
          hskip 4 (by omega) (by omega) _ (h1 4 (by omega))]
      · rw [rotateFirst_miss (by omega), rotateFirst_hit (by omega),
          hskip 4 (by omega) (by omega) _ (h1 4 (by omega))]
      · rw [rotateFirst_miss (by omega), rotateFirst_miss (by omega), rotateFirst_hit (by omega)]
    | cons b P₂ =>
      obtain ⟨hbc, -⟩ := List.pairwise_cons.1 hPs₁
      have hb := hval b (by simp)
      have hbr := hreq b (by simp)
      have hlt := hab b List.mem_cons_self
      have hnot : ∀ c ∈ a :: b :: P₂, ¬(a.1 = 2 ∧ c.1 = 4) := by
        rintro c hc ⟨h2, h4⟩
        exact hm.not_both ⟨h2 ▸ hcont a List.mem_cons_self, h4 ▸ hcont c hc⟩
      have hP₂ : P₂ = [] := by
        cases P₂ with
        | nil => rfl
        | cons c P₃ =>
          have := hbc c List.mem_cons_self
          have := hval c (by simp)
          have := hnot c (by simp)
          omega
      subst hP₂
      simp only [List.cons_append, List.nil_append]
      have h2 : ∀ nr : ℤ, a.1 ≠ nr → b.1 ≠ nr → ∀ e ∈ [a, b], e.2.requiresPartitionNumber ≠ nr := by
        intro nr hna hnb e he
        rcases List.mem_cons.1 he with rfl | he
        · rw [har]; exact hna
        · rw [List.mem_singleton.1 he, hbr]; exact hnb
      have hnb := hnot b (by simp)
      rcases (show a.1 = 2 ∧ b.1 = 3 ∨ a.1 = 3 ∧ b.1 = 4 by omega) with ⟨ha, hb⟩ | ⟨ha, hb⟩
      · rw [rotateFirst_hit (by omega), List.cons_append, rotateFirst_hit (by omega),
          List.append_assoc, List.singleton_append,
          hskip 4 (by omega) (by omega) _ (h2 4 (by omega) (by omega))]
      · rw [rotateFirst_miss (by omega), rotateFirst_hit (by omega), List.cons_append,
          rotateFirst_hit (by omega), List.append_assoc, List.singleton_append]

/-! ## One partition -/

/-- The MB a partition gets: its nominal size and, if maximised, its share of the
spare space. -/
def sizeMB (m : InstallManager) (p : PartitionInfo) : ℤ :=
  p.partitionSizeNominal + if p.wantMaximised then m.extraSpacePerPartition else 0

def isRaw (p : PartitionInfo) : Prop := p.fsType = "raw".toList

instance (p : PartitionInfo) : Decidable (isRaw p) := by unfold isRaw; infer_instance

/-- **Where a partition starts**: at its fixed offset, which must lie behind the
predecessor, or at the first aligned sector behind the gap. -/
theorem partitionStart_ok {off s : ℤ} (h0 : 0 ≤ off) (h : partitionStart unbounded off p = .ok s) :
    (p.offset ≠ 0 ∧ off < p.offset ∧ s = p.offset) ∨
      (p.offset = 0 ∧ s = alignUp 8192 (off + 2)) := by
  unfold partitionStart at h
  by_cases hp : p.offset ≠ 0
  · rw [if_pos hp] at h
    split_ifs at h with hle
    simp only [Except.ok.injEq] at h
    exact Or.inl ⟨hp, not_le.1 hle, h.symm⟩
  · rw [if_neg hp] at h
    refine Or.inr ⟨not_not.1 hp, ?_⟩
    have hmod : (off + 2).tmod 8192 = (off + 2) % 8192 := Int.tmod_eq_emod_of_nonneg (by omega)
    simp only [unbounded, partitionGap, partitionAlignment, hmod] at h
    unfold alignUp
    split_ifs at h with hz <;> simp only [Except.ok.injEq] at h <;> omega

theorem partsizeMB_eq (m : InstallManager) (p : PartitionInfo) :
    (if p.wantMaximised then unbounded (p.partitionSizeNominal + m.extraSpacePerPartition)
      else p.partitionSizeNominal) = sizeMB m p := by
  unfold sizeMB
  split_ifs <;> simp

/-- The last partition has the sectors of its MB, or all that is left. -/
theorem partitionSectors_last (off : ℤ) : partitionSectors unbounded m true off p =
    if p.wantMaximised = true ∧ off + sizeMB m p * 2048 < m.totalSectors then m.totalSectors - off
    else sizeMB m p * 2048 := by
  unfold partitionSectors
  rw [partsizeMB_eq]
  simp only [unbounded, if_true]
  by_cases h : p.wantMaximised = true ∧ off + sizeMB m p * 2048 < m.totalSectors
  · rw [if_pos h, if_pos ⟨by omega, h.1⟩]; omega
  · rw [if_neg h, if_neg fun hc => h ⟨hc.2, by omega⟩]

/-- **The other partitions** end a gap before a 4 MiB boundary where they can: a
size of whole 4 MiB is shrunk (not for raw images), any other is enlarged if the
partition wants to be maximised. -/
theorem partitionSectors_inner (hs : 0 ≤ sizeMB m p) (off : ℤ) :
    partitionSectors unbounded m false off p =
      if sizeMB m p % 4 = 0 then
        if isRaw p then sizeMB m p * 2048 + if p.wantMaximised then 8190 else 0
        else sizeMB m p * 2048 - 2
      else if p.wantMaximised then (sizeMB m p + (4 - sizeMB m p % 4)) * 2048 - 2
      else sizeMB m p * 2048 := by
  unfold partitionSectors
  rw [partsizeMB_eq]
  have h1 := mb_tmod_alignment (sizeMB m p)
  unfold isRaw
  simp only [unbounded, h1, Bool.false_eq_true, if_false, partitionGap]
  set S := sizeMB m p
  have hmod : ∀ x : ℤ, 0 ≤ x → x.tmod partitionAlignment = x % 8192 :=
    fun x hx => Int.tmod_eq_emod_of_nonneg hx
  by_cases h4 : S % 4 = 0
  -- a multiple of 4 MB is shrunk by the gap unless it is raw; a maximised one is then enlarged
  · by_cases hr : p.fsType = "raw".toList
    · simp only [h4, hr, if_true, ne_eq, not_true, and_false, if_false]
      rw [hmod _ (by omega)]
      cases p.wantMaximised with
      | false => simp
      | true =>
        simp only [true_and, if_true, partitionAlignment]
        rw [if_pos (by omega)]; omega
    · simp only [h4, hr, if_true, true_and, ne_eq, not_false_eq_true, if_false]
      rw [hmod _ (by omega), if_neg (by omega)]
  · simp only [h4, if_false, false_and]
    rw [hmod _ (by omega)]
    cases p.wantMaximised with
    | false => simp
    | true =>
      simp only [true_and, if_true, partitionAlignment]
      rw [if_pos (by omega)]; omega

/-- No partition loses more than a gap of its MB. -/
theorem le_partitionSectors (hs : 0 ≤ sizeMB m p) (isLast : Bool) (off : ℤ) :
    sizeMB m p * 2048 - 2 ≤ partitionSectors unbounded m isLast off p := by
  cases isLast with
  | false => rw [partitionSectors_inner hs]; split_ifs <;> omega
  | true => rw [partitionSectors_last]; split_ifs with h <;> omega

/-! ## The loop -/

/-- The partitions stand one behind the other, the first behind `prev`: each is
positive and starts at the offset fixed for its number, or aligned and a gap behind
its predecessor. -/
def PlacedBehind (fixed : ℤ → ℤ) : ℤ → List (ℤ × PartitionInfo) → Prop
  | _, [] => True
  | prev, (n, p) :: rest =>
    prev < p.offset ∧ 0 < p.partitionSizeSectors ∧ (fixed n ≠ 0 → p.offset = fixed n) ∧
      (fixed n = 0 → partitionAlignment ∣ p.offset ∧ prev + partitionGap ≤ p.offset) ∧
      PlacedBehind fixed p.endSector rest

/-- **One iteration**, whatever an `int` holds. -/
theorem placePartitions_step {I : IntType} {n off : ℤ} {rest placed : List (ℤ × PartitionInfo)}
    (h : placePartitions I m off ((n, p) :: rest) = .ok placed) :
    ∃ s tail, partitionStart I off p = .ok s ∧
      placePartitions I m (I (s + partitionSectors I m rest.isEmpty s p)) rest = .ok tail ∧
      placed = (n, { p with
        offset := s, partitionSizeSectors := partitionSectors I m rest.isEmpty s p }) :: tail := by
  unfold placePartitions at h
  obtain ⟨s, h1, h2⟩ := bind_ok.1 h
  obtain ⟨tail, h3, h4⟩ := bind_ok.1 h2
  exact ⟨s, tail, h1, h3, (pure_ok.1 h4).symm⟩

theorem placePartitions_cons {n off : ℤ} {rest placed : List (ℤ × PartitionInfo)}
    (h : placePartitions unbounded m off ((n, p) :: rest) = .ok placed) :
    ∃ s tail, partitionStart unbounded off p = .ok s ∧
      placePartitions unbounded m (s + partitionSectors unbounded m rest.isEmpty s p) rest = .ok tail ∧
      placed = (n, { p with
        offset := s, partitionSizeSectors := partitionSectors unbounded m rest.isEmpty s p }) :: tail :=
  placePartitions_step h

/-- **The loop keeps its order and never moves back.** -/
theorem placePartitions_placed (fixed : ℤ → ℤ) :
    ∀ {l placed : List (ℤ × PartitionInfo)} {off : ℤ}, 0 ≤ off →
      (∀ e ∈ l, 1 ≤ sizeMB m e.2 ∧ fixed e.1 = e.2.offset) →
      placePartitions unbounded m off l = .ok placed →
      PlacedBehind fixed off placed := by
  intro l
  induction l with
  | nil =>
    intro placed off _ _ h
    simp only [placePartitions, Except.ok.injEq] at h
    subst h
    trivial
  | cons e l ih =>
    obtain ⟨n, p⟩ := e
    intro placed off h0 hl h
    obtain ⟨s, tail, hs, ht, rfl⟩ := placePartitions_cons h
    obtain ⟨hS, hfix⟩ := hl (n, p) List.mem_cons_self
    simp only at hS hfix
    have hsize := le_partitionSectors (m := m) (p := p) (by omega) l.isEmpty s
    set size := partitionSectors unbounded m l.isEmpty s p
    have hgap : alignUp 8192 (off + 2) ≥ off + 2 := le_alignUp (by omega) _
    have hoff : off < s := by
      rcases partitionStart_ok h0 hs with ⟨-, h1, rfl⟩ | ⟨-, rfl⟩ <;> omega
    have htail := @ih tail (s + size) (by omega) (fun e he => hl e (List.mem_cons_of_mem _ he)) ht
    refine ⟨hoff, by simp only; omega, ?_, ?_, htail⟩
    · intro hne
      rcases partitionStart_ok h0 hs with ⟨-, -, h1⟩ | ⟨h1, -⟩
      · rw [hfix]; exact h1
      · rw [hfix] at hne; exact absurd h1 hne
    · intro hz
      rcases partitionStart_ok h0 hs with ⟨h1, -, -⟩ | ⟨-, h1⟩
      · exact absurd (hfix ▸ hz) h1
      · simp only [h1]; exact ⟨dvd_alignUp _ _, hgap⟩

theorem placePartitions_keys {I : IntType} : ∀ {l placed : List (ℤ × PartitionInfo)} {off : ℤ},
    placePartitions I m off l = .ok placed → placed.map Prod.fst = l.map Prod.fst := by
  intro l
  induction l with
  | nil =>
    intro placed off h
    simp only [placePartitions, Except.ok.injEq] at h
    rw [← h]
  | cons e l ih =>
    intro placed off h
    obtain ⟨s, tail, -, ht, rfl⟩ := placePartitions_step h
    rw [List.map_cons, List.map_cons, ih ht]

/-- The loop changes nothing of a partition but its offset and sectors. -/
theorem placePartitions_partner {I : IntType} : ∀ {l placed : List (ℤ × PartitionInfo)} {off : ℤ},
    placePartitions I m off l = .ok placed → ∀ e ∈ placed, ∃ q, (e.1, q) ∈ l ∧
      e.2 = { q with offset := e.2.offset, partitionSizeSectors := e.2.partitionSizeSectors } := by
  intro l
  induction l with
  | nil =>
    intro placed off h e he
    simp only [placePartitions, Except.ok.injEq] at h
    rw [← h] at he
    simp at he
  | cons d l ih =>
    intro placed off h e he
    obtain ⟨s, tail, -, ht, rfl⟩ := placePartitions_step h
    rcases List.mem_cons.1 he with rfl | he
    · exact ⟨d.2, List.mem_cons_self, rfl⟩
    · obtain ⟨q, hq, heq⟩ := ih ht e he
      exact ⟨q, List.mem_cons_of_mem _ hq, heq⟩

/-- The extent of a partition. -/
def PartitionInfo.extent (p : PartitionInfo) : Extent ℤ := ⟨p.offset, p.endSector⟩

theorem PlacedBehind.laid {fixed : ℤ → ℤ} : ∀ {l : List (ℤ × PartitionInfo)} {prev : ℤ},
    PlacedBehind fixed prev l → Laid prev (l.map fun e => e.2.extent) := by
  intro l
  induction l with
  | nil => intro prev _; trivial
  | cons e l ih =>
    obtain ⟨n, p⟩ := e
    intro prev h
    obtain ⟨h1, h2, -, -, h5⟩ := h
    exact ⟨h1, by simp only [PartitionInfo.extent, PartitionInfo.endSector]; omega, ih h5⟩

/-! ## The whole calculation -/

/-- The offset a map's partition has under a number. -/
def fixedOffset (map : SortedMap ℤ PartitionInfo) (n : ℤ) : ℤ :=
  ((map.find? n).map PartitionInfo.offset).getD 0

theorem fixedOffset_eq {map : SortedMap ℤ PartitionInfo} {n : ℤ} (h : (n, p) ∈ map.entries) :
    fixedOffset map n = p.offset := by
  unfold fixedOffset
  rw [SortedMap.find?_eq_some.2 h]; rfl

/-- **A successful calculation** fits the budget and writes back what the loop placed. -/
theorem calculateSpaceRequirements_ok {I : IntType} (h : calculateSpaceRequirements I m = .ok m') :
    m.totalnominalsize ≤ m.availableMB ∧
      ∃ placed, placePartitions I (m.withExtraSpace I) m.startSector
          (logBeforePrim m.partitionMap) = .ok placed ∧
        m' = { m.withExtraSpace I with partitionMap := m.partitionMap.insertAll placed } := by
  dsimp only [calculateSpaceRequirements] at h
  by_cases hle : (m.withExtraSpace I).totalnominalsize > (m.withExtraSpace I).availableMB
  · rw [if_pos hle] at h; cases h
  rw [if_neg hle] at h
  obtain ⟨placed, hp, hm⟩ := bind_ok.1 h
  exact ⟨not_lt.1 hle, placed, hp, (pure_ok.1 hm).symm⟩

/-- Spare space is not negative once the budget fits. -/
theorem extraSpace_nonneg (hx : m.extraSpacePerPartition = 0) (hn : 0 ≤ m.numexpandparts)
    (hle : m.totalnominalsize ≤ m.availableMB) :
    0 ≤ (m.withExtraSpace unbounded).extraSpacePerPartition := by
  simp only [InstallManager.withExtraSpace, unbounded]
  split_ifs
  · exact Int.tdiv_nonneg (by omega) hn
  · exact hx.ge

theorem sum_maxCount_nonneg (ps : List PartitionInfo) : 0 ≤ (ps.map maxCount).sum := by
  induction ps with
  | nil => simp
  | cons p ps ih =>
    have : 0 ≤ maxCount p := by unfold maxCount; split_ifs <;> simp
    rw [List.map_cons, List.sum_cons]; omega

/-- **The placed map** has the entries the loop placed, under the numbers it had. -/
theorem calculate_entries {I : IntType} (h : calculateSpaceRequirements I m = .ok m') :
    ∃ placed, placePartitions I (m.withExtraSpace I) m.startSector
        (logBeforePrim m.partitionMap) = .ok placed ∧
      m'.partitionMap.keys = m.partitionMap.keys ∧
      ∀ e, e ∈ m'.partitionMap.entries ↔ e ∈ placed := by
  obtain ⟨-, placed, hp, rfl⟩ := calculateSpaceRequirements_ok h
  have hperm := (logBeforePrim_perm m.partitionMap).map Prod.fst
  have hkeys := placePartitions_keys hp
  have hnd : (placed.map Prod.fst).Nodup := by
    rw [hkeys, hperm.nodup_iff, List.nodup_iff_pairwise_ne, List.pairwise_map]
    exact m.partitionMap.sorted.imp fun hab => ne_of_lt hab
  refine ⟨placed, hp, ?_, ?_⟩
  · apply SortedMap.keys_insertAll
    intro k hk
    rw [hkeys] at hk
    exact hperm.mem_iff.1 hk
  · intro e
    apply SortedMap.mem_insertAll_of_keys hnd
    intro k hk
    rw [hkeys]
    exact hperm.mem_iff.2 hk

/-- **In placement order**, the loop makes the new map of the old. -/
theorem calculate_order {I : IntType} (hm : Numbered m.partitionMap) (hk : PlainNumbers m.partitionMap)
    (h : calculateSpaceRequirements I m = .ok m') :
    placePartitions I (m.withExtraSpace I) m.startSector (placementOrder m.partitionMap) =
      .ok (placementOrder m'.partitionMap) := by
  obtain ⟨placed, hp, hkeys', hmem⟩ := calculate_entries h
  rw [logBeforePrim_eq hm hk] at hp
  -- both rows have the same numbers, and take their partitions from the new map
  have horder : placementOrder m'.partitionMap = placed := by
    refine SortedMap.eq_of_keys ?_ (fun e he => mem_placementOrder.1 he) fun e he => (hmem e).2 he
    rw [placePartitions_keys hp]
    unfold SortedMap.keys at hkeys'
    have hf : ∀ (q : ℤ → Bool) (l : List (ℤ × PartitionInfo)),
        (l.filter fun e => q e.1).map Prod.fst = (l.map Prod.fst).filter q := by
      intro q l; rw [List.filter_map]; rfl
    unfold placementOrder
    rw [List.map_append, List.map_append, hf (fun k => 6 ≤ k), hf (fun k => k < 6),
      hf (fun k => 6 ≤ k), hf (fun k => k < 6), hkeys']
  rw [horder]
  exact hp

/-- **The placed row.** In placement order, the placed partitions stand one behind
the other from `startSector` on. -/
theorem calculate_placed (hm : Numbered m.partitionMap) (hk : PlainNumbers m.partitionMap)
    (h0 : 0 ≤ m.startSector) (hx : m.extraSpacePerPartition = 0) (hn : 0 ≤ m.numexpandparts)
    (hnom : ∀ e ∈ m.partitionMap.entries, 1 ≤ e.2.partitionSizeNominal)
    (h : calculateSpaceRequirements unbounded m = .ok m') :
    PlacedBehind (fixedOffset m.partitionMap) m.startSector (placementOrder m'.partitionMap) := by
  obtain ⟨hle, -⟩ := calculateSpaceRequirements_ok h
  have hextra := extraSpace_nonneg hx hn hle
  refine placePartitions_placed (fixedOffset m.partitionMap) h0 (fun e he => ?_) (calculate_order hm hk h)
  have he' := mem_placementOrder.1 he
  refine ⟨?_, fixedOffset_eq he'⟩
  have := hnom e he'
  unfold sizeMB
  split_ifs <;> omega

/-- The calculation changes nothing of a partition but its offset and sectors. -/
theorem calculate_partner {I : IntType} (h : calculateSpaceRequirements I m = .ok m') :
    ∀ e ∈ m'.partitionMap.entries, ∃ q, (e.1, q) ∈ m.partitionMap.entries ∧
      e.2 = { q with offset := e.2.offset, partitionSizeSectors := e.2.partitionSizeSectors } := by
  obtain ⟨placed, hp, -, hmem⟩ := calculate_entries h
  intro e he
  obtain ⟨q, hq, heq⟩ := placePartitions_partner hp e ((hmem e).1 he)
  exact ⟨q, (logBeforePrim_perm _).mem_iff.1 hq, heq⟩

/-! ## No overlap -/

/-- The settings partition. -/
def Sysfs.settings (sys : Sysfs) : Extent ℤ := ⟨sys.startP5, sys.startP5 + sys.sizeP5⟩

/-- What a fresh manager holds after a list of checks. -/
theorem checkPartitions_fresh {sys : Sysfs} {ps ps' : List PartitionInfo}
    (h : checkPartitions unbounded (.new unbounded sys) ps = .ok (ps', m)) :
    Numbered m.partitionMap ∧ m.startSector = sys.startP5 + sys.sizeP5 ∧
      m.extraSpacePerPartition = 0 ∧ 0 ≤ m.numexpandparts ∧
      ∀ e ∈ m.partitionMap.entries, ∃ p ∈ ps, e.2 = p.onDevice e.1 := by
  obtain ⟨-, h2, h3, -, -⟩ := checkPartitions_totals h
  obtain ⟨ns, hlen, hperm⟩ := checkPartitions_entries h
  refine ⟨?_, h3, ?_, ?_, ?_⟩
  · exact checkPartitions_inv (fun _ _ _ _ hm => checkPartition_numbered hm)
      (P := fun m => Numbered m.partitionMap) numbered_empty h
  · refine checkPartitions_inv (P := fun m => m.extraSpacePerPartition = 0) ?_ rfl h
    intro m p p' m' hm hstep
    obtain ⟨n, -, -, -, -, -, -, -, rfl⟩ := checkPartition_ok hstep
    exact hm
  · rw [h2]
    have := sum_maxCount_nonneg ps
    simp only [InstallManager.new]; omega
  · intro e he
    have he' := hperm.mem_iff.1 he
    simp only [InstallManager.new, SortedMap.entries_empty, List.append_nil] at he'
    obtain ⟨⟨n, p⟩, hz, rfl⟩ := List.mem_map.1 he'
    exact ⟨p, (List.of_mem_zip hz).2, rfl⟩

/-- **Planned partitions never overlap.** In the order logical partitions by
ascending number, then primaries, each partition is positive and starts strictly
behind its predecessor, the first behind the settings partition: at its fixed
offset, or else aligned and a gap behind the predecessor's end. So no two
partitions overlap, and none overlaps the settings partition. -/
theorem planned_disjoint {sys : Sysfs} {ps ps' : List PartitionInfo}
    (hcheck : checkPartitions unbounded (.new unbounded sys) ps = .ok (ps', m))
    (hnum : PlainNumbers m.partitionMap) (hnom : ∀ p ∈ ps, 1 ≤ p.partitionSizeNominal)
    (hcalc : calculateSpaceRequirements unbounded m = .ok m') :
    m'.partitionMap.keys = m.partitionMap.keys ∧
      PlacedBehind (fixedOffset m.partitionMap) (sys.startP5 + sys.sizeP5)
        (placementOrder m'.partitionMap) ∧
      (∀ e ∈ m'.partitionMap.entries, ∀ e' ∈ m'.partitionMap.entries, e ≠ e' →
        Disjoint e.2.extent.points e'.2.extent.points) ∧
      ∀ e ∈ m'.partitionMap.entries, Disjoint sys.settings.points e.2.extent.points := by
  obtain ⟨hm, hstart, hx, hn, hent⟩ := checkPartitions_fresh hcheck
  have hnom' : ∀ e ∈ m.partitionMap.entries, 1 ≤ e.2.partitionSizeNominal := by
    intro e he
    obtain ⟨p, hp, heq⟩ := hent e he
    rw [heq]; exact hnom p hp
  obtain ⟨-, -, hkeys, -⟩ := calculate_entries hcalc
  have hpl := calculate_placed hm hnum (by omega) hx hn hnom' hcalc
  rw [hstart] at hpl
  have hlaid := hpl.laid
  refine ⟨hkeys, hpl, ?_, ?_⟩
  · intro e he e' he' hne
    have : Std.Symm fun a b : ℤ × PartitionInfo => Disjoint a.2.extent.points b.2.extent.points :=
      ⟨fun _ _ h => h.symm⟩
    exact (List.pairwise_map.1 hlaid.disjoint).forall (mem_placementOrder.2 he)
      (mem_placementOrder.2 he') hne
  · intro e he
    exact hlaid.disjoint_before le_rfl _
      (List.mem_map.2 ⟨e, mem_placementOrder.2 he, rfl⟩)

/-! ## An example plan -/

/-- A card of 3.7 GiB with a rescue partition of 100 MiB. -/
def demoCard : Sysfs :=
  { startP1 := 8192, sizeP1 := 204800, startP5 := 221184, sizeP5 := 65534, totalSectors := 7744512 }

/-- A boot partition, a maximised root partition and a primary. -/
def demoPartitions : List PartitionInfo :=
  [{ fsType := "FAT".toList, partitionType := "0c".toList, partitionSizeNominal := 62 },
   { fsType := "ext4".toList, partitionType := "83".toList, partitionSizeNominal := 1000,
     wantMaximised := true },
   { fsType := "ext4".toList, partitionType := "83".toList, partitionSizeNominal := 12,
     requiresPartitionNumber := 3 }]

/-- The partitions of a checked plan, on their devices. -/
def checkedPartitions (sys : Sysfs) (ps : List PartitionInfo) : List PartitionInfo :=
  match checkPartitions unbounded (.new unbounded sys) ps with
  | .ok r => r.1
  | .error _ => []

/-- The manager that checked a plan. -/
def checkedManager (sys : Sysfs) (ps : List PartitionInfo) : InstallManager :=
  match checkPartitions unbounded (.new unbounded sys) ps with
  | .ok r => r.2
  | .error _ => .new unbounded sys

/-- The manager after it placed its partitions. -/
def plannedManager (m : InstallManager) : InstallManager :=
  match calculateSpaceRequirements unbounded m with
  | .ok m' => m'
  | .error _ => m

theorem demo_checked : checkPartitions unbounded (.new unbounded demoCard) demoPartitions =
    .ok (checkedPartitions demoCard demoPartitions, checkedManager demoCard demoPartitions) := by
  rfl

theorem demo_planned :
    calculateSpaceRequirements unbounded (checkedManager demoCard demoPartitions) =
      .ok (plannedManager (checkedManager demoCard demoPartitions)) := by
  rfl

theorem demo_disjoint :
    PlacedBehind (fixedOffset (checkedManager demoCard demoPartitions).partitionMap) (221184 + 65534)
      (placementOrder (plannedManager (checkedManager demoCard demoPartitions)).partitionMap) :=
  (planned_disjoint demo_checked (by decide) (by decide) demo_planned).2.1

end Noobs
