import Noobs.Spec.Ideal
import Noobs.Spec.Menu

/-!
# Sessions at the console

What the owner of a device does at its menu, as the owner sees it: selections that are read
one after the other, and what the ideal device makes of them.

A device is used at its console and over the network. `Use` is either, or a start.
-/

namespace Noobs

/-! ## Selections -/

/-- What a selection asks for. -/
inductive Choice where
  /-- Boot this device, or the default one if there is none. -/
  | boot (device : Text)
  | setDefault (device : Text)
  | install
  | leave
  | nothing
  deriving DecidableEq, Repr

/-- What one iteration of the loop reads: what it is asked for, the selection, and the
console behind it. -/
def Menu.choose (menu : Menu) (console : Console) (selection : ℤ) : Choice × ℤ × Console :=
  let (selection, console) := menu.select console selection
  if selection = 1 then (.boot [], selection, console)
  else if selection = 2 then
    let (line, console) := menu.reader.read console
    (.boot line, selection, console)
  else if selection = 3 then
    let (line, console) := menu.reader.read console
    (.setDefault line, selection, console)
  else if selection = 4 then (.install, selection, console)
  else if selection = 5 then (.leave, selection, console)
  else (.nothing, selection, console)

/-! ## The ideal device -/

/-- The number of the partition a boot is for. -/
def Ideal.target (d : Ideal) (device : Text) : Option ℤ :=
  if device.isEmpty then d.default.bind partitionNumberOf else partitionNumberOf device

/-- Installs what there is to install, and leaves the menu. -/
def Ideal.installRaspbian (d : Ideal) (menu : Menu) : Option MenuEnd × Ideal :=
  match menu.raspbian with
  | .done os => (some .left, (d.install menu.I menu.sys os).2)
  | .invalid => (some .left, d)
  | .crashed f => (some (.crashed f), d)
  | .unanswered => (none, d)

/-- So many selections, and what becomes of the device: a boot ends the session if there is
a partition to boot. -/
def Menu.session (menu : Menu) : (fuel : ℕ) → Console → (selection : ℤ) → Ideal → Option MenuEnd × Ideal
  | 0, _, _, d => (none, d)
  | fuel + 1, console, selection, d =>
    let (choice, selection, console) := menu.choose console selection
    match choice with
    | .boot device =>
      match d.target device with
      | some n => (some .rebooted, { d with firmware := some n })
      | none => menu.session fuel console selection d
    | .setDefault device => menu.session fuel console selection (d.setDefault device)
    | .install => d.installRaspbian menu
    | .leave => (some .left, d)
    | .nothing => menu.session fuel console selection d

/-! ## Uses -/

/-- What a device is used for: a task, or some selections at its menu. -/
inductive Use where
  | task (t : Task)
  | session (menu : Menu) (fuel : ℕ) (console : Console) (selection : ℤ)

/-- The machine behind it. -/
def Machine.use (I : IntType) (m : Machine) : Use → Machine
  | .task t => m.turn I { task := t }
  | .session menu fuel console selection => (m.run (menu.run fuel console selection)).2

/-- The ideal device behind it. -/
def Ideal.use (I : IntType) (d : Ideal) : Use → Ideal
  | .task t => d.perform I t
  | .session menu fuel console selection => (menu.session fuel console selection d).2

/-- The devices that are asked to be made the default, until the session ends. -/
def Menu.defaults (menu : Menu) : (fuel : ℕ) → Console → (selection : ℤ) → List Text
  | 0, _, _ => []
  | fuel + 1, console, selection =>
    match menu.choose console selection with
    | (.setDefault device, selection, console) => device :: menu.defaults fuel console selection
    | (.install, _, _) => []
    | (.leave, _, _) => []
    | (_, selection, console) => menu.defaults fuel console selection

/-- What is typed where a device becomes the default names a partition, if it looks like one. -/
def Use.WellFormed : Use → Prop
  | .task t => t.WellFormed
  | .session menu fuel console selection =>
    ∀ device ∈ menu.defaults fuel console selection, devicePrefix <+: device → namesPartition device = true

end Noobs
