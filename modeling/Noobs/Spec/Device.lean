import Noobs.Spec.Install

/-!
# The device over time

What happens to a device, one turn after the other: requests to its REST server, starts,
and power cuts in the middle of either. A turn that is cut takes some of its steps; what
is left is what a power cut leaves.
-/

namespace Noobs

inductive Task where
  /-- `POST /os`, with what the body gives and the numbers of the card -/
  | install (sys : Sysfs) (autoReboot : Bool) (osInfo : Option OSInfo)
  /-- `POST /bootPartition` -/
  | bootPartition (request : Request)
  /-- `POST /reboot` -/
  | reboot
  /-- A start with these arguments. -/
  | start (args : List Text)

variable (I : IntType)

def Task.program : Task → Sys Unit
  | install sys autoReboot osInfo => do
    let response ← installOSREST I sys autoReboot osInfo
    if response.code = 200 ∧ autoReboot then
      let _ ← bootIntoPartition []
      return ()
    else return ()
  | bootPartition request => do
    let _ ← setDefaultBootPartitionREST request
    return ()
  | reboot => do
    let _ ← bootIntoPartition []
    return ()
  | start args => runBootManager args

/-- A task, and after how many questions and steps the power is cut, if it is. -/
structure Turn where
  task : Task
  cut : Option ℕ := none

/-- The machine a task starts on: a start finds nothing in memory. -/
def Task.before (m : Machine) : Task → Machine
  | start _ => m.powerCut
  | _ => m

/-- The machine after a turn. -/
def Machine.turn (m : Machine) (t : Turn) : Machine :=
  match t.cut with
  | none => ((t.task.before m).run (t.task.program I)).2
  | some k => ((t.task.before m).stop k (t.task.program I)).powerCut

/-- The machine after some turns. -/
def Machine.turns (m : Machine) (ts : List Turn) : Machine := ts.foldl (Machine.turn I) m

/-- A machine that has just been started and has mounted its settings. -/
def Machine.powerOn (m : Machine) : Machine :=
  { m.powerCut with world := { m.powerCut.world with settingsMounted := true } }

/-! ## Devices as text -/

/-- `/dev/mmcblk0p` followed by an integer. -/
def namesPartition (text : Text) : Bool :=
  decide (devicePrefix <+: text) && (integer (text.drop devicePrefix.length)).isSome

/-- What a task is given names a partition wherever it should. -/
def Task.WellFormed : Task → Prop
  | bootPartition request => namesPartition (cString request.body) = true
  | start args => ∀ flag value, [flag, value] <:+: args →
    equalsInsensitive flag "-partition".toList = true → namesPartition value = true
  | _ => True

end Noobs
