import Noobs.Lib.Lines
import Noobs.Lib.Prog
import Noobs.Spec.Plan

/-!
# The SD card

How the card is prepared before anything can be installed on it:
`PreSetup::checkAndPrepareSDCard` (`recovery/PreSetup.cpp`), a program over the card's
own steps. A run begins when the card is there.

`sfdisk` makes the partitions whose lines it gets, a new partition is not formatted, and
zeroing the entries of the primary partitions takes the logical ones with them.
-/

namespace Noobs

/-! ## The card -/

/-- Which partitions there are, and whether `formatSettingsPartition` has formatted the
settings partition since it was created. -/
structure Card where
  partitions : ℕ → Bool
  formatted : Bool

inductive CardStep where
  | mountSystems
  | unmountSystems
  /-- The entries 2, 3 and 4 of the partition table are overwritten with zeros. -/
  | zeroEntries
  | parted (command : Text)
  | sfdisk (table : Text)
  | partprobe
  | mlabel
  | mkfs (command : Text)
  | writeRiscOSblob (command : Text)
  | dropCaches
  deriving DecidableEq, Repr

/-- The partition that a line of `sfdisk`'s input describes is there unless it is `0,0`. -/
def tablePartitions (table : Text) (n : ℕ) : Bool :=
  match n with
  | 0 => false
  | i + 1 =>
    match (lines '\n' table)[i]? with
    | some line => decide (line ≠ "0,0".toList)
    | none => false

/-- What a step does if it succeeds. -/
def Card.apply (c : Card) : CardStep → Card
  | .zeroEntries => { partitions := fun n => decide (n = 1) && c.partitions 1, formatted := false }
  | .sfdisk table => { partitions := tablePartitions table, formatted := false }
  | .mkfs _ => { c with formatted := c.partitions 5 }
  | _ => c

/-- What the program asks. Whether the kernel shows partition 1, what `sysfs` says of it,
whether there is a blob for RISC OS, and the size the first partition is to get (which is
computed with floating point) are up to the environment. -/
inductive CardQuery where
  | partitionExists (n : ℕ)
  | rescueExists
  | startOfRescue
  | sizeOfRescue
  | newSizeOfRescue
  | blobExists
  deriving DecidableEq, Repr

abbrev CardQuery.Reply : CardQuery → Type
  | partitionExists _ => Bool
  | rescueExists => Bool
  | startOfRescue => ℤ
  | sizeOfRescue => ℤ
  | newSizeOfRescue => ℤ
  | blobExists => Bool

inductive CardCall where
  | ask (q : CardQuery)
  | act (s : CardStep)

abbrev CardCall.Reply : CardCall → Type
  | ask q => q.Reply
  | act _ => Bool

/-- What comes of a step, and what is seen, after so many steps. -/
structure CardEnv where
  outcome : CardStep → ℕ → Bool := fun _ _ => true
  rescueExists : ℕ → Bool := fun _ => true
  startOfRescue : ℕ → ℤ := fun _ => 8192
  sizeOfRescue : ℕ → ℤ := fun _ => 204800
  newSizeOfRescue : ℕ → ℤ := fun _ => 100
  blobExists : ℕ → Bool := fun _ => false

/-- A card, the steps a run has taken and whether they succeeded, and its environment. -/
structure CardMachine where
  card : Card
  log : List (CardStep × Bool) := []
  env : CardEnv

def CardMachine.act (m : CardMachine) (s : CardStep) : Bool × CardMachine :=
  let ok := m.env.outcome s m.log.length
  (ok, { m with card := if ok then m.card.apply s else m.card, log := m.log ++ [(s, ok)] })

def CardMachine.answer (m : CardMachine) : (q : CardQuery) → q.Reply
  | .partitionExists n => m.card.partitions n
  | .rescueExists => m.env.rescueExists m.log.length
  | .startOfRescue => m.env.startOfRescue m.log.length
  | .sizeOfRescue => m.env.sizeOfRescue m.log.length
  | .newSizeOfRescue => m.env.newSizeOfRescue m.log.length
  | .blobExists => m.env.blobExists m.log.length

def serveCard : (c : CardCall) → CardMachine → c.Reply × CardMachine
  | .ask q, m => (m.answer q, m)
  | .act s, m => m.act s

abbrev CardSys : Type → Type := Prog CardCall CardCall.Reply

namespace PreSetup

def ask (q : CardQuery) : CardSys q.Reply := Prog.issue (CardCall.ask q)

def act (s : CardStep) : CardSys Bool := Prog.issue (CardCall.act s)

/-! ## Preparing it -/

/-- `SETTINGS_PARTITION_SIZE`. -/
def settingsPartitionSize : ℤ := 32 * 2048 - partitionGap

/-- The command that moves and resizes the first partition. Moving is a write intensive
operation, so it stays where it is if it is aligned. -/
def resizeCommand (start size : ℤ) : Text :=
  let start := if start < 2048 ∨ start.tmod 2048 ≠ 0 then partitionAlignment else start
  "/usr/sbin/parted --script /dev/mmcblk0 resize 1 ".toList ++ number start ++ "s ".toList ++
    number size ++ ['M']

/-- The lines `resizePartitions` writes to `sfdisk`, for a first partition there. -/
def initialLines (start size : ℤ) : List Text :=
  let startOfExtended := start + size
  let startOfSettings := startOfExtended + partitionGap
  let startOfSettings :=
    if startOfSettings.tmod partitionAlignment ≠ 0 then
      startOfSettings + (partitionAlignment - startOfSettings.tmod partitionAlignment)
    else startOfSettings
  [number start ++ ',' :: number size ++ ",0E".toList,
    number startOfExtended ++ ",,E".toList,
    "0,0".toList,
    "0,0".toList,
    number startOfSettings ++ ',' :: number settingsPartitionSize ++ ",L".toList]

/-- `PreSetup::resizePartitions`. -/
def resizePartitions : CardSys Bool := do
  let newStart ← ask .startOfRescue
  let newSize ← ask .newSizeOfRescue
  if !(← act .unmountSystems) then return false
  else if !(← ask .rescueExists) then return false
  else
    let _ ← act .zeroEntries
    if !(← act (.parted (resizeCommand newStart newSize))) then return false
    else
      let start ← ask .startOfRescue
      let size ← ask .sizeOfRescue
      if !(← act (.sfdisk (terminated '\n' (initialLines start size)))) then return false
      else
        -- sometimes only partition 2 is found and partition 1 goes missing
        if ← ask .rescueExists then
          let _ ← act .mlabel
          act .mountSystems
        else
          let _ ← act .partprobe
          let _ ← act .mlabel
          act .mountSystems

/-- `PreSetup::formatSettingsPartition`. -/
def formatSettingsPartition : CardSys Bool :=
  act (.mkfs "/usr/sbin/mkfs.ext4 -L SETTINGS /dev/mmcblk0p5".toList)

/-- `PreSetup::writeRiscOSblob`, if there is a blob. -/
def writeRiscOSblob : CardSys Bool := do
  if ← ask .blobExists then
    act (.writeRiscOSblob "/bin/dd conv=fsync bs=512 if=/mnt/riscos-boot.bin of=/dev/mmcblk0 seek=1".toList)
  else return true

/-- The steps of `checkAndPrepareSDCard` that read back what was written. -/
def checkChanges : CardSys Bool := do
  let _ ← act .unmountSystems
  let _ ← act .dropCaches
  if !(← act .mountSystems) then return false
  else
    let _ ← act .unmountSystems
    return true

/-- `PreSetup::checkAndPrepareSDCard`. -/
def checkAndPrepareSDCard : CardSys Bool := do
  if ← ask (.partitionExists 2) then return true
  else if ← ask (.partitionExists 5) then return true
  else if !(← act .mountSystems) then return false
  else if !(← resizePartitions) then return false
  else if !(← formatSettingsPartition) then return false
  else if !(← writeRiscOSblob) then return false
  else checkChanges

end PreSetup

/-! ## Runs -/

/-- A run: its environment, and after how many questions and steps it is stopped, if it is. -/
structure CardRun where
  env : CardEnv
  cut : Option ℕ := none

/-- The machine a run leaves. -/
def CardRun.on (r : CardRun) (c : Card) : CardMachine :=
  match r.cut with
  | none => (PreSetup.checkAndPrepareSDCard.run serveCard { card := c, env := r.env }).2
  | some k => PreSetup.checkAndPrepareSDCard.stop serveCard k { card := c, env := r.env }

/-- The card after some runs. -/
def Card.after (c : Card) (rs : List CardRun) : Card := rs.foldl (fun c r => (r.on c).card) c

end Noobs
