import Mathlib.Algebra.Group.Nat.Defs
import Mathlib.Algebra.Order.Group.Unbundled.Int
import Mathlib.Algebra.Ring.Int.Defs
import Mathlib.Data.List.Infix

/-!
# Partitions and operating systems

The data the installer works on: `PartitionInfo` (`recovery/PartitionInfo.h`) and
`OSInfo` (`recovery/OSInfo.h`), with the partitioning constants of
`recovery/Utility.h`.

The source passes both around by pointer; here every function returns the values
it would have changed in place.
-/

namespace Noobs

/-- A `QByteArray`, `QString` or `std::string`. A byte is the character with its
code; nothing below depends on codes ending at 255. -/
abbrev Text := List Char

/-- What an `int` variable holds after a value is assigned to it. -/
abbrev IntType := ℤ → ℤ

/-- Unbounded integers. -/
abbrev unbounded : IntType := fun x => x

/-- The 32-bit `int` of the target, in two's complement. -/
def int32 : IntType := fun x => Int.bmod x (2 ^ 32)

/-- `QString::toAscii`: what is not in Latin-1 becomes a question mark. -/
def toAscii (t : Text) : Text := t.map fun c => if c.toNat < 256 then c else '?'

/-- `QByteArray::number`, `QString::number`. -/
def number (n : ℤ) : Text := (toString n).toList

/-- Case folding as far as it can produce an ASCII letter. -/
def foldCase (c : Char) : Char :=
  if c = Char.ofNat 0x17F then 's' else if c = Char.ofNat 0x212A then 'k' else c.toLower

/-- `QString::contains(needle, Qt::CaseInsensitive)`, for an ASCII needle. -/
def containsInsensitive (s needle : Text) : Bool :=
  decide (needle.map foldCase <:+: s.map foldCase)

/-! ## Partitioning settings (`Utility.h`) -/

/-- `PARTITION_ALIGNMENT`, in sectors: 4 MiB. -/
def partitionAlignment : ℤ := 8192

/-- `PARTITION_GAP`, in sectors. -/
def partitionGap : ℤ := 2

/-- `RISCOS_SECTOR_OFFSET`, `RISCOS_OFFSET * 2048`. -/
def riscosSectorOffset : ℤ := 1760 * 2048

/-- What the devices of the SD card's partitions start with. -/
def devicePrefix : Text := "/dev/mmcblk0p".toList

/-! ## Partitions -/

/-- `PartitionInfo`. The defaults are those of its JSON constructor, which leaves
`partitionSizeSectors` unset. -/
structure PartitionInfo where
  fsType : Text := []
  mkfsOptions : Text := []
  label : Text := []
  partitionDevice : Text := []
  partitionType : Text := []
  tarball : Text := []
  mountedDir : Text := []
  partitionSizeNominal : ℤ := 0
  requiresPartitionNumber : ℤ := 0
  offset : ℤ := 0
  uncompressedTarballSize : ℤ := 0
  partitionSizeSectors : ℤ := 0
  emptyFS : Bool := false
  wantMaximised : Bool := false
  active : Bool := false
  deriving DecidableEq, Repr

/-- `PartitionInfo::PartitionInfo(int, int, int, const QByteArray &)`, for the
partitions the installer adds itself. -/
def PartitionInfo.system (partitionNr offset sectors : ℤ) (partType : Text) : PartitionInfo :=
  { requiresPartitionNumber := partitionNr, offset := offset, partitionSizeSectors := sectors,
    partitionType := partType }

def PartitionInfo.endSector (p : PartitionInfo) : ℤ := p.offset + p.partitionSizeSectors

/-- `OSInfo`, after it has been parsed. -/
structure OSInfo where
  folder : Text := []
  flavour : Text := []
  name : Text := []
  description : Text := []
  releaseDate : Text := []
  bootable : Bool := true
  partitions : List PartitionInfo := []
  partitionSetupScript : Text := []
  deriving DecidableEq, Repr

end Noobs
