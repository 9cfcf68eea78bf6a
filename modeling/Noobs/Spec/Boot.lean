import Mathlib.Data.List.DropRight
import Noobs.Spec.System
import Noobs.Spec.Web

/-!
# The boot manager

Which partition is booted, and whether one is: `recovery/BootManager.cpp`. The default
boot partition is kept in a file of the settings partition; a partition to boot is
handed to the firmware through the parameter `reboot_part` of the kernel.
-/

namespace Noobs

/-! ## Partition devices as text -/

/-- The loop of `removeAll`; `skip` characters belong to an occurrence already found. -/
def removeFrom (needle : Text) : (skip : ℕ) → Text → Text
  | _, [] => []
  | skip + 1, _ :: rest => removeFrom needle skip rest
  | 0, c :: rest =>
    if needle <+: c :: rest then removeFrom needle (needle.length - 1) rest
    else c :: removeFrom needle 0 rest

/-- `QString::replace` with the empty string: removes every occurrence. -/
def removeAll (needle text : Text) : Text := removeFrom needle 0 text

/-- The integer a text consists of, but for whitespace around it. -/
def integer (text : Text) : Option ℤ :=
  let text := (text.dropWhile isSpace).rdropWhile isSpace
  let negative := text.head? = some '-'
  let digits := if negative ∨ text.head? = some '+' then text.tail else text
  if digits = [] ∨ digits.all Char.isDigit = false then none
  else
    let value : ℤ := Nat.ofDigitChars 10 digits 0
    some (if negative then -value else value)

/-- `QString::toInt`. -/
def toInt (text : Text) : Option ℤ :=
  (integer text).filter fun n => decide (-2 ^ 31 ≤ n ∧ n < 2 ^ 31)

/-- The number `bootIntoPartition` reads off a partition device. -/
def partitionNumberOf (partDevice : Text) : Option ℤ :=
  if ¬devicePrefix <+: partDevice then none else toInt (removeAll devicePrefix partDevice)

/-! ## The default boot partition -/

/-- `BootManager::setDefaultBootPartition(const QString &)`. -/
def setDefaultBootPartition (partitionDevice : Text) : Sys Bool := do
  if ¬devicePrefix <+: partitionDevice then return false
  else
    if ← fileExists .defaultBootPartition then
      let _ ← removeFile .defaultBootPartition
    putFileContents .defaultBootPartition (toAscii partitionDevice)

/-- `BootManager::setDefaultBootPartition(PartitionInfo &)`. -/
def PartitionInfo.setDefaultBoot (p : PartitionInfo) : Sys Bool :=
  if p.partitionDevice.isEmpty then return false
  else setDefaultBootPartition p.partitionDevice

/-- `BootManager::setDefaultBootPartition(OSInfo &)`. -/
def OSInfo.setDefaultBoot (os : OSInfo) : Sys Bool :=
  match os.partitions with
  | [] => return false
  | p :: _ => p.setDefaultBoot

/-! ## Booting -/

/-- The file that takes the number of the partition to boot. -/
def rebootDev : Sys (Option Path) := do
  if ← fileExists .rebootPart2709 then return some .rebootPart2709
  else if ← fileExists .rebootPart2708 then return some .rebootPart2708
  else return none

/-- `BootManager::bootIntoPartition` from where it knows the device. -/
def bootDevice (partDevice : Text) : Sys Bool :=
  match partitionNumberOf partDevice with
  | none => return false
  | some n => do
    match ← rebootDev with
    | none => return false
    | some dev =>
      if ← act (.openFile dev) then
        let _ ← act (.writeFile dev) (.text (number n ++ ['\n']))
      let _ ← act (.execute "ifdown -a".toList)
      let _ ← act (.execute "umount -ar".toList)
      act .reboot

/-- `BootManager::bootIntoPartition`: whether it got as far as to reboot. The empty text
stands for the default boot partition. -/
def bootIntoPartition (partitionDevice : Text) : Sys Bool := do
  if partitionDevice.isEmpty then bootDevice (← getFileContents .defaultBootPartition)
  else bootDevice partitionDevice

/-- `BootManager::getInstalledOS`. -/
def getInstalledOS : Sys (List InstalledOs) := do
  if ← fileExists .installedOs then loadFromFile .installedOs else return []

/-- `BootManager::hasInstalledOS`. -/
def hasInstalledOS : Sys Bool := do
  let installed ← getInstalledOS
  return decide (0 < installed.length)

/-- `QString::compare(needle, Qt::CaseInsensitive) == 0`, for an ASCII needle. -/
def equalsInsensitive (s needle : Text) : Bool := decide (s.map foldCase = needle.map foldCase)

/-- The flags `bootCheck` finds on the command line. -/
structure BootFlags where
  runinstaller : Bool := false
  webserver : Bool := true
  deriving DecidableEq, Repr

/-- The loop of `bootCheck`. The value of `-partition` is looked at as an argument of its
own, too. -/
def checkArguments : BootFlags → List Text → Sys BootFlags
  | flags, [] => return flags
  | flags, arg :: rest => do
    if equalsInsensitive arg "-runinstaller".toList then
      checkArguments { flags with runinstaller := true } rest
    else if equalsInsensitive arg "-partition".toList then
      match rest with
      | [] => checkArguments flags rest
      | defaultPartition :: _ =>
        let _ ← setDefaultBootPartition defaultPartition
        checkArguments flags rest
    else if equalsInsensitive arg "-no-webserver".toList then
      checkArguments { flags with webserver := false } rest
    else checkArguments flags rest

/-- `BootManager::bootCheck`: whether to boot into a partition rather than to enter setup
mode, and the flags. -/
def bootCheck (args : List Text) : Sys (Bool × BootFlags) := do
  let flags ← checkArguments {} args
  if flags.runinstaller then return (false, flags)
  else
    let installed ← hasInstalledOS
    return (installed, flags)

/-- `BootManager::run`, up to setup mode. -/
def runBootManager (args : List Text) : Sys Unit := do
  let _ ← act (.mountSystem settingsDir)
  let r ← bootCheck args
  if r.1 then
    let _ ← bootIntoPartition []
  return ()

/-! ## Requests -/

/-- `Web::Server::Response`, without its date. -/
structure Response where
  code : ℕ := 200
  phrase : Text := "OK".toList
  type : Text := "text/plain".toList
  body : Text := []
  deriving DecidableEq, Repr

def badRequest (body : Text) : Response :=
  { code := 400, phrase := "Bad Request".toList, body := body }

/-- `BootManager::setDefaultBootPartitionREST`. -/
def setDefaultBootPartitionREST (request : Request) : Sys Response := do
  if ← setDefaultBootPartition (cString request.body) then
    return { body := "Successfully set default partition to ".toList ++ request.body ++ ['\n'] }
  else
    return badRequest ("Unable to set default partition to ".toList ++ request.body ++
      ", partition does not exist\n".toList)

end Noobs
