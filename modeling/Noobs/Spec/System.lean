import Mathlib.Logic.Function.Basic
import Noobs.Lib.Prog
import Noobs.Spec.Partition

/-!
# The system under the installer

The installer and the boot manager are programs (`Prog`) over the steps of this module:
they work on files, mount, and start other programs. The functions of
`recovery/Utility_Sys.cpp` and `recovery/Utility_Json.cpp` that do nothing else are here,
too.

A step succeeds or fails as the machine's `outcome` decides: `outcome s n` is what comes
of the step `s` when it is taken for the `n`-th time, so every pattern of failures is
some `outcome`. A failed write leaves a part of what was to be written.

Steps take effect in the order of the program. `disk` is what a power cut leaves.
-/

namespace Noobs

/-! ## Files -/

inductive Path where
  /-- `/settings/installed_os.json` -/
  | installedOs
  /-- `DEFAULT_BOOT_PARTITION_FILE`, `/settings/default_boot_partition` -/
  | defaultBootPartition
  /-- `OS_PARTITION_SETUP_PATH`, `/tmp/partition_setup.sh` -/
  | partitionSetup
  /-- `/mnt2/os_config.json` -/
  | osConfig
  /-- `/sys/module/bcm2709/parameters/reboot_part` -/
  | rebootPart2709
  /-- `/sys/module/bcm2708/parameters/reboot_part` -/
  | rebootPart2708
  deriving DecidableEq, Repr

/-- The files on the settings partition. -/
def Path.onSettings : Path → Bool
  | installedOs => true
  | defaultBootPartition => true
  | _ => false

/-- An entry of `installed_os.json`. -/
structure InstalledOs where
  name : Text
  description : Text
  folder : Text
  releaseDate : Text
  partitions : List Text
  bootable : Bool
  deriving DecidableEq, Repr

/-- `os_config.json`. -/
structure OsConfig where
  flavour : Text
  releaseDate : Text
  imagefolder : Text
  description : Text
  videomode : ℤ
  partitions : List Text
  language : Text
  keyboard : Text
  deriving DecidableEq, Repr

/-- What is written to a file or passed to a program. -/
inductive Data where
  | empty
  | text (t : Text)
  | installedOs (entries : List InstalledOs)
  | osConfig (config : OsConfig)
  /-- The arguments and the environment of the partition setup script. -/
  | script (args : List Text) (env : List (Text × Text))
  /-- JSON that was not completely written. -/
  | garbled
  deriving DecidableEq, Repr

/-- What a failed write leaves of the data. -/
def Data.cutTo (written : ℕ) : Data → Data
  | text t => text (t.take written)
  | _ => garbled

/-- The settings in `noobs.conf`, with the installer's defaults. -/
structure NoobsConf where
  displayMode : ℤ := 0
  language : Text := "en".toList
  keyboardLayout : Text := "gb".toList
  deriving DecidableEq, Repr

/-- `SETTINGS_DIR`. -/
def settingsDir : Text := "/settings".toList

/-- `SYSTEMS_DIR`. -/
def systemsDir : Text := "/mnt".toList

/-- Where the installer mounts the partitions it writes. -/
def mnt2 : Text := "/mnt2".toList

/-- The files of the settings partition (`disk`) and all others, what is mounted on
`/mnt2`, the uppermost first, and the last input `sfdisk` accepted. -/
structure World where
  disk : Path → Option Data := fun _ => none
  other : Path → Option Data := fun _ => none
  settingsMounted : Bool := true
  mounted : List Text := []
  table : Text := []
  conf : NoobsConf := {}

/-- The file a path leads to. -/
def World.file (w : World) (p : Path) : Option Data :=
  if p.onSettings && w.settingsMounted then w.disk p else w.other p

def World.setFile (w : World) (p : Path) (d : Option Data) : World :=
  if p.onSettings && w.settingsMounted then { w with disk := Function.update w.disk p d }
  else { w with other := Function.update w.other p d }

/-! ## Steps -/

/-- What can fail. -/
inductive Step where
  | remove (p : Path)
  /-- `QFile::open(QFile::WriteOnly)` -/
  | openFile (p : Path)
  | writeFile (p : Path)
  /-- Appending to `/mnt2/config.txt`. -/
  | appendConfig
  | mkdir (dir : Text)
  /-- `Utility::Sys::mountPartition` -/
  | mountSystem (dir : Text)
  | umount (dir : Text)
  /-- The mount of a partition on `/mnt2`, which may also not be there. -/
  | mount (device command : Text)
  | sfdisk
  | partprobe
  | zero (device : Text)
  | mkfs (device command : Text)
  | dd (device command : Text)
  | partclone (device command : Text)
  | untar (command : Text)
  | runScript
  | execute (command : Text)
  | reboot
  deriving DecidableEq, Repr

/-- What comes of a step; a write that fails has `written` characters written. -/
structure Outcome where
  ok : Bool
  written : ℕ := 0
  deriving DecidableEq, Repr

/-- What a step does. -/
def World.apply (w : World) (s : Step) (d : Data) (o : Outcome) : World :=
  match s with
  | .remove p => if o.ok then w.setFile p none else w
  | .openFile p => if o.ok then w.setFile p (some (.text [])) else w
  | .writeFile p => w.setFile p (some (if o.ok then d else d.cutTo o.written))
  | .mountSystem dir =>
    if o.ok ∧ dir = settingsDir then { w with settingsMounted := true } else w
  | .umount dir =>
    if o.ok ∧ dir = settingsDir then { w with settingsMounted := false }
    else if o.ok ∧ dir = mnt2 then { w with mounted := w.mounted.tail }
    else w
  | .mount device _ => if o.ok then { w with mounted := device :: w.mounted } else w
  | .sfdisk =>
    match d with
    | .text table => if o.ok then { w with table := table } else w
    | _ => w
  | _ => w

/-- What the programs can ask without changing anything. -/
inductive Query where
  | fileExists (p : Path)
  | readFile (p : Path)
  /-- Whether `findfs LABEL=label` finds a file system. -/
  | findfs (label : Text)
  | blkid (tag part : Text)
  | noobsConf
  deriving DecidableEq, Repr

abbrev Query.Reply : Query → Type
  | fileExists _ => Bool
  | readFile _ => Option Data
  | findfs _ => Bool
  | blkid _ _ => Text
  | noobsConf => NoobsConf

inductive Call where
  | ask (q : Query)
  | act (s : Step) (d : Data)

abbrev Call.Reply : Call → Type
  | ask q => q.Reply
  | act _ _ => Bool

/-- What the machine remembers of a step. -/
structure Entry where
  step : Step
  ok : Bool
  settingsMounted : Bool
  deriving DecidableEq, Repr

/-- A world, the steps taken so far, and what comes of those to be taken. What `findfs`
and `blkid` find depends on the number of steps taken before. -/
structure Machine where
  world : World := {}
  log : List Entry := []
  outcome : Step → ℕ → Outcome
  findfs : Text → ℕ → Bool := fun _ _ => false
  blkid : Text → Text → ℕ → Text := fun _ _ _ => []

/-- How often a step was taken. -/
def Machine.taken (m : Machine) (s : Step) : ℕ := (m.log.map Entry.step).count s

/-- What comes of a step now. -/
def Machine.next (m : Machine) (s : Step) : Outcome := m.outcome s (m.taken s)

def Machine.act (m : Machine) (s : Step) (d : Data) : Bool × Machine :=
  ((m.next s).ok, { m with
    world := m.world.apply s d (m.next s)
    log := m.log ++ [⟨s, (m.next s).ok, m.world.settingsMounted⟩] })

def Machine.answer (m : Machine) : (q : Query) → q.Reply
  | .fileExists p => (m.world.file p).isSome
  | .readFile p => m.world.file p
  | .findfs label => m.findfs label m.log.length
  | .blkid tag part => m.blkid tag part m.log.length
  | .noobsConf => m.world.conf

def serve : (c : Call) → Machine → c.Reply × Machine
  | .ask q, m => (m.answer q, m)
  | .act s d, m => m.act s d

abbrev Sys : Type → Type := Prog Call Call.Reply

/-- The whole run of a program. -/
abbrev Machine.run {α : Type} (m : Machine) (p : Sys α) : α × Machine := Prog.run serve p m

/-- The machine after `k` questions and steps of a program. -/
abbrev Machine.stop {α : Type} (m : Machine) (k : ℕ) (p : Sys α) : Machine := Prog.stop serve k p m

/-- What a power cut leaves: the partitions' files, and nothing in memory. -/
def Machine.powerCut (m : Machine) : Machine :=
  { m with world := { m.world with
    other := fun p =>
      if p.onSettings ∨ p = .partitionSetup then none else m.world.other p
    settingsMounted := false
    mounted := [] } }

def ask (q : Query) : Sys q.Reply := Prog.issue (Call.ask q)

def act (s : Step) (d : Data := .empty) : Sys Bool := Prog.issue (Call.act s d)

/-! ## `Utility::Sys` and `Utility::Json` -/

def fileExists (p : Path) : Sys Bool := ask (.fileExists p)

/-- `QFile::remove`. -/
def removeFile (p : Path) : Sys Bool := act (.remove p)

/-- `Utility::Sys::getFileContents`: empty if the file cannot be opened. -/
def getFileContents (p : Path) : Sys Text := do
  match ← ask (.readFile p) with
  | some (.text t) => return t
  | _ => return []

/-- `Utility::Sys::putFileContents`. -/
def putFileContents (p : Path) (data : Text) : Sys Bool := do
  if ← fileExists p then return false
  else if !(← act (.openFile p)) then return false
  else act (.writeFile p) (.text data)

/-- `Utility::Json::saveToFile`. -/
def saveToFile (p : Path) (json : Data) : Sys Bool := do
  if !(← act (.openFile p)) then return false
  else act (.writeFile p) json

/-- `Utility::Json::loadFromFile`, as a list: empty if the file does not parse. -/
def loadFromFile (p : Path) : Sys (List InstalledOs) := do
  match ← ask (.readFile p) with
  | some (.installedOs entries) => return entries
  | _ => return []

end Noobs
