import Noobs.Spec.Device

/-!
# What the device is for

The device as its owner sees it: the operating systems it lists, the partition it boots by
default, its partition table, and the partition the firmware was last told to boot. Tasks
are done at once and nothing fails on the way; what a request asks for may still be
impossible.

This is a statement of purpose. `Machine.ideal` is what a machine amounts to.
-/

namespace Noobs

structure Ideal where
  installed : List InstalledOs := []
  default : Option Text := none
  table : Text := []
  firmware : Option ℤ := none
  deriving DecidableEq, Repr

/-! ## Tasks -/

/-- Makes a partition the default; what does not look like one is ignored. -/
def Ideal.setDefault (d : Ideal) (device : Text) : Ideal :=
  if devicePrefix <+: device then { d with default := some (toAscii device) } else d

/-- Tells the firmware to boot the default partition, if there is one. -/
def Ideal.boot (d : Ideal) : Ideal :=
  match d.default.bind partitionNumberOf with
  | some n => { d with firmware := some n }
  | none => d

/-- What the partition is to hold can be put there. -/
def PartitionInfo.Writable (p : PartitionInfo) : Bool :=
  if p.fsType = "raw".toList then (decompressor p.tarball).isSome
  else if "partclone".toList <+: p.fsType then (decompressor p.tarball).isSome
  else if p.fsType ≠ "unformatted".toList then
    p.emptyFS || p.tarball.isEmpty || (p.mountedDir.isEmpty && (decompressor p.tarball).isSome)
  else true

/-- The operating system can be put on the card: its partitions can, and the first of them
is free to be mounted. -/
def OSInfo.Writable (os : OSInfo) : Bool :=
  os.partitions.all PartitionInfo.Writable &&
    match os.partitions with
    | [] => false
    | p :: _ => p.mountedDir.isEmpty

/-- Installs an operating system: whether the card was partitioned for it, and the device.
One that cannot be planned changes nothing. One that cannot be put on the card replaces
what was there all the same. -/
def Ideal.install (I : IntType) (sys : Sysfs) (os : OSInfo) (d : Ideal) : Bool × Ideal :=
  match prepareImage I (.new I sys) os with
  | .error _ => (false, d)
  | .ok (os, mgr) =>
    match partitionTable sys mgr.partitionMap with
    | .error _ => (false, { d with installed := [] })
    | .ok table =>
      (true, { d with
        table := table
        installed := if os.Writable then [os.entry] else []
        default := os.vPartitionList.head? })

/-- Looks at the arguments of a start for a default partition. -/
def Ideal.arguments : Ideal → List Text → Ideal
  | d, [] => d
  | d, arg :: rest =>
    if equalsInsensitive arg "-partition".toList then
      match rest with
      | [] => d.arguments rest
      | defaultPartition :: _ => (d.setDefault defaultPartition).arguments rest
    else d.arguments rest

/-- Starts: boots what is installed unless it is told to install. -/
def Ideal.start (d : Ideal) (args : List Text) : Ideal :=
  let d := d.arguments args
  if args.any (fun arg => equalsInsensitive arg "-runinstaller".toList) then d
  else if d.installed = [] then d
  else d.boot

/-- Does a task. -/
def Ideal.perform (I : IntType) (d : Ideal) : Task → Ideal
  | .install _ _ none => d
  | .install sys autoReboot (some os) =>
    let r := d.install I sys os
    if r.1 && autoReboot then r.2.boot else r.2
  | .bootPartition request => d.setDefault (cString request.body)
  | .reboot => d.boot
  | .start args => d.start args

/-- Nothing is installed, and a start sets the installer up, or there is a default to boot. -/
def Ideal.Reachable (d : Ideal) : Prop :=
  d.installed = [] ∨ ∃ text, d.default = some text ∧ namesPartition text = true

/-! ## Machines -/

/-- The entries of a file that is `installed_os.json`. -/
def Data.entries : Option Data → List InstalledOs
  | some (.installedOs entries) => entries
  | _ => []

/-- The text of a file that is one. -/
def Data.contents : Option Data → Option Text
  | some (.text t) => some t
  | _ => none

/-- The number in the file that the firmware looks at. -/
def World.firmware (w : World) : Option ℤ :=
  if (w.other .rebootPart2709).isSome then (Data.contents (w.other .rebootPart2709)).bind integer
  else (Data.contents (w.other .rebootPart2708)).bind integer

/-- What the machine amounts to. -/
def Machine.ideal (m : Machine) : Ideal :=
  { installed := Data.entries (m.world.disk .installedOs)
    default := Data.contents (m.world.disk .defaultBootPartition)
    table := m.world.table
    firmware := m.world.firmware }

end Noobs
