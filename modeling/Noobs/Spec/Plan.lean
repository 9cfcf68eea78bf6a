import Noobs.Lib.SortedMap
import Noobs.Spec.Partition

/-!
# Planning an installation

`InstallManager` numbers the partitions of an installation (`checkPartition`,
`checkImage`), budgets them in MB, and places them on the card in sectors
(`calculateSpaceRequirements`): `recovery/InstallManager.cpp`. The table it then
hands to `sfdisk` is `partitionTable`, from
`recovery/InstallManager_Utility.cpp`.

Where the source logs an error and returns `false`, the functions here return the
message; where it returns `true`, the manager it leaves behind. Nobody reads the
manager of a failed call. `I` says how an `int` holds its value.
-/

namespace Noobs

/-- The numbers `/sys/class/block` reports: extents of the rescue partition
`mmcblk0p1` and the settings partition `mmcblk0p5`, and the size of the card. -/
structure Sysfs where
  startP1 : ℕ
  sizeP1 : ℕ
  startP5 : ℕ
  sizeP5 : ℕ
  totalSectors : ℕ
  deriving DecidableEq, Repr

/-- The counters of `InstallManager` and its `_partitionMap`, from partition number
to partition. -/
structure InstallManager where
  extraSpacePerPartition : ℤ := 0
  totalnominalsize : ℤ := 0
  numparts : ℤ := 0
  numexpandparts : ℤ := 0
  startSector : ℤ
  totalSectors : ℤ
  availableMB : ℤ
  partitionMap : SortedMap ℤ PartitionInfo := SortedMap.empty

/-- `InstallManager::InstallManager`. -/
def InstallManager.new (I : IntType) (sys : Sysfs) : InstallManager :=
  let startSector := I (sys.startP5 + sys.sizeP5)
  let totalSectors := I sys.totalSectors
  { startSector := startSector, totalSectors := totalSectors,
    availableMB := I (I (totalSectors - startSector) |>.tdiv 2048) }

variable (I : IntType)

/-! ## Numbering and budget -/

/-- The number a partition gets: the one it requires, or the next behind the
highest in use. -/
def partitionNumber (map : SortedMap ℤ PartitionInfo) (p : PartitionInfo) : ℤ :=
  if p.requiresPartitionNumber ≠ 0 then p.requiresPartitionNumber
  else match map.keys.getLast? with
    | none => 6
    | some k => I (max k 5 + 1)

/-- `InstallManager::checkPartition`: the partition with its device, and the
manager with the partition entered. -/
def checkPartition (m : InstallManager) (p : PartitionInfo) :
    Except String (PartitionInfo × InstallManager) :=
  let numexpandparts := if p.wantMaximised then I (m.numexpandparts + 1) else m.numexpandparts
  let totalnominalsize := I (m.totalnominalsize + p.partitionSizeNominal)
  let reqPart := partitionNumber I m.partitionMap p
  if m.partitionMap.contains reqPart then
    .error ("More than one operating system requires partition number " ++ toString reqPart)
  else if reqPart = 1 ∨ reqPart = 5 then
    .error "Operating system cannot require a system partition (1,5)"
  else if (reqPart = 2 ∧ m.partitionMap.contains 4) ∨ (reqPart = 4 ∧ m.partitionMap.contains 2) then
    .error "Operating system cannot claim both primary partitions 2 and 4"
  else
    let p := { p with partitionDevice := devicePrefix ++ number reqPart }
    .ok (p, { m with
      numparts := I (m.numparts + 1)
      numexpandparts := numexpandparts
      partitionMap := m.partitionMap.insert reqPart p
      -- maximum overhead per partition for alignment
      totalnominalsize :=
        if p.wantMaximised ∨ (I (p.partitionSizeNominal * 2048)).tmod partitionAlignment ≠ 0 then
          I (totalnominalsize + partitionAlignment.tdiv 2048)
        else totalnominalsize })

/-- `checkPartition` for each partition of a list, up to the first that fails. -/
def checkPartitions : InstallManager → List PartitionInfo →
    Except String (List PartitionInfo × InstallManager)
  | m, [] => .ok ([], m)
  | m, p :: ps => do
    let r ← checkPartition I m p
    let rs ← checkPartitions r.2 ps
    return (r.1 :: rs.1, rs.2)

/-- What `checkImage` sets on the partitions of RISC OS: the first at its fixed
offset under number 6, the last under number 7. -/
def pinRiscos (ps : List PartitionInfo) : List PartitionInfo :=
  let ps := ps.modifyHead fun p =>
    { p with requiresPartitionNumber := 6, offset := riscosSectorOffset }
  ps.modify (ps.length - 1) fun p => { p with requiresPartitionNumber := 7 }

def isRiscos (os : OSInfo) : Bool := containsInsensitive os.name "risc".toList

/-- `InstallManager::checkImage`. -/
def checkImage (m : InstallManager) (os : OSInfo) : Except String (OSInfo × InstallManager) :=
  if os.partitions.isEmpty then .error "No partitions specified!"
  else if isRiscos os ∧ m.startSector > riscosSectorOffset - 2048 then
    .error "RISCOS cannot be installed. Size of recovery partition too large."
  else do
    let m := if isRiscos os then
        { m with
          totalnominalsize :=
            I (m.totalnominalsize + (I (riscosSectorOffset - m.startSector)).tdiv 2048) }
      else m
    let r ← checkPartitions I m (if isRiscos os then pinRiscos os.partitions else os.partitions)
    return ({ os with partitions := r.1 }, r.2)

/-- `checkImage` for each operating system of a list, up to the first that fails. -/
def checkImages : InstallManager → List OSInfo → Except String (List OSInfo × InstallManager)
  | m, [] => .ok ([], m)
  | m, os :: oses => do
    let r ← checkImage I m os
    let rs ← checkImages r.2 oses
    return (r.1 :: rs.1, rs.2)

/-! ## Placement -/

/-- Moves the first partition behind the others if it requires number `nr`. -/
def rotateFirst (nr : ℤ) : List (ℤ × PartitionInfo) → List (ℤ × PartitionInfo)
  | [] => []
  | e :: es => if e.2.requiresPartitionNumber = nr then es ++ [e] else e :: es

/-- The order of placement: first the logical partitions, then the primaries. -/
def logBeforePrim (map : SortedMap ℤ PartitionInfo) : List (ℤ × PartitionInfo) :=
  rotateFirst 4 (rotateFirst 3 (rotateFirst 2 map.entries))

/-- Where a partition starts, behind a predecessor that ends at `offset`. -/
def partitionStart (offset : ℤ) (p : PartitionInfo) : Except String ℤ :=
  if p.offset ≠ 0 then
    -- the OS wants its partition at a fixed offset
    if p.offset ≤ offset then .error "Fixed partition offset too low" else .ok p.offset
  else
    let offset := I (offset + partitionGap)
    -- align at 4 MiB offset
    if offset.tmod partitionAlignment ≠ 0 then
      .ok (I (offset + (partitionAlignment - offset.tmod partitionAlignment)))
    else .ok offset

/-- How many sectors the partition starting at `offset` gets. -/
def partitionSectors (m : InstallManager) (isLast : Bool) (offset : ℤ) (p : PartitionInfo) : ℤ :=
  let partsizeMB := if p.wantMaximised then I (p.partitionSizeNominal + m.extraSpacePerPartition)
    else p.partitionSizeNominal
  let partsizeSectors := I (partsizeMB * 2048)
  if isLast then
    -- the last partition has any remaining space that could not be divided evenly
    let spaceleft := I (m.totalSectors - offset - partsizeSectors)
    if spaceleft > 0 ∧ p.wantMaximised then I (partsizeSectors + spaceleft) else partsizeSectors
  else
    -- leave room for the EBR of the next partition, so that it aligns without a 4 MiB gap
    let partsizeSectors :=
      if partsizeSectors.tmod partitionAlignment = 0 ∧ p.fsType ≠ "raw".toList then
        I (partsizeSectors - partitionGap)
      else partsizeSectors
    -- enlarge the partition to close the gap to the next one
    if p.wantMaximised ∧ (I (partsizeSectors + partitionGap)).tmod partitionAlignment ≠ 0 then
      I (partsizeSectors +
        (partitionAlignment - (I (partsizeSectors + partitionGap)).tmod partitionAlignment))
    else partsizeSectors

/-- The loop that places the partitions behind `offset`, in this order. -/
def placePartitions (m : InstallManager) : ℤ → List (ℤ × PartitionInfo) →
    Except String (List (ℤ × PartitionInfo))
  | _, [] => .ok []
  | offset, (nr, p) :: rest => do
    let start ← partitionStart I offset p
    let size := partitionSectors I m rest.isEmpty start p
    let placed ← placePartitions m (I (start + size)) rest
    return (nr, { p with offset := start, partitionSizeSectors := size }) :: placed

/-- The manager with the spare space each maximised partition gets, in MB. -/
def InstallManager.withExtraSpace (m : InstallManager) : InstallManager :=
  { m with
    extraSpacePerPartition :=
      if m.numexpandparts ≠ 0 then
        I ((I (m.availableMB - m.totalnominalsize)).tdiv m.numexpandparts)
      else m.extraSpacePerPartition }

/-- `InstallManager::calculateSpaceRequirements`. -/
def calculateSpaceRequirements (m : InstallManager) : Except String InstallManager :=
  let m := m.withExtraSpace I
  if m.totalnominalsize > m.availableMB then
    .error ("Not enough disk space. Need " ++ toString m.totalnominalsize ++ " MB, got " ++
      toString m.availableMB ++ " MB left")
  else do
    let placed ← placePartitions I m m.startSector (logBeforePrim m.partitionMap)
    return { m with partitionMap := m.partitionMap.insertAll placed }

/-- `InstallManager::prepareImage`, for a list of operating systems. -/
def prepareImages (m : InstallManager) (oses : List OSInfo) :
    Except String (List OSInfo × InstallManager) := do
  let r ← checkImages I m oses
  let m ← calculateSpaceRequirements I r.2
  return (r.1, m)

/-! ## The partition table -/

/-- The system's partitions added to the map: rescue, settings, and the extended
partition on line 2, or on line 4 if an operating system claimed primary 2. -/
def systemMap (sys : Sysfs) (map : SortedMap ℤ PartitionInfo) : SortedMap ℤ PartitionInfo :=
  let startExtended : ℤ := sys.startP1 + sys.sizeP1
  let map := map.insert 1 (.system 1 sys.startP1 sys.sizeP1 "0E".toList)
  let map := map.insert 5 (.system 5 sys.startP5 sys.sizeP5 "L".toList)
  let sizeExtended := (map.values.getLast?.map PartitionInfo.endSector).getD 0 - startExtended
  if !map.contains 2 then map.insert 2 (.system 2 startExtended sizeExtended "E".toList)
  else map.insert 4 (.system 4 startExtended sizeExtended "E".toList)

/-- The line of `sfdisk`'s input that describes a partition. -/
def partitionLine (p : PartitionInfo) : Text :=
  number p.offset ++ ",".toList ++ number p.partitionSizeSectors ++ ",".toList ++ p.partitionType ++
    if p.active then " *".toList else []

/-- The line of number `i`. -/
def tableLine (map : SortedMap ℤ PartitionInfo) (i : ℤ) : Text :=
  match map.find? i with
  | some p => partitionLine p
  | none => "0,0".toList

/-- The text `InstallManager::writePartitionTable` writes to `sfdisk`. -/
def partitionTable (sys : Sysfs) (map : SortedMap ℤ PartitionInfo) : Except String Text :=
  if sys.startP1 = 0 ∨ sys.sizeP1 = 0 ∨ sys.startP5 = 0 ∨ sys.sizeP5 = 0 then
    .error "Error reading existing partition table"
  else
    let map := systemMap sys map
    let last := (map.keys.getLast?.getD 0).toNat
    .ok ((List.range last).flatMap fun i : ℕ => tableLine map (i + 1) ++ ['\n'])

end Noobs
