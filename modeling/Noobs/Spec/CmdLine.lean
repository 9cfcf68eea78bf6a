import Noobs.Lib.Words
import Noobs.Spec.Boot

/-!
# The kernel's command line

`PreSetup::clearCMDline` (`recovery/PreSetup.cpp`) takes the word that asks for the
installer out of the command line, so that the next boot starts what is installed. The
init script (`buildroot/package/recovery/init`) looks for it with `grep`.
-/

namespace Noobs

namespace PreSetup

/-- The flag on the command line. -/
def runinstaller : Text := "runinstaller".toList

/-- `grep -q runinstaller` of the init script: the installer is started on its own. -/
def asksForInstaller (cmdline : Text) : Prop := runinstaller <:+: cmdline

/-- `QByteArray::trimmed`. -/
def trimmed (text : Text) : Text := (text.dropWhile isSpace).rdropWhile isSpace

inductive CmdlineFile where
  /-- `/mnt/recovery.cmdline` -/
  | recoveryCmdline
  /-- `/mnt/cmdline.txt` -/
  | cmdlineTxt
  deriving DecidableEq, Repr

/-- The command line files as they are behind the attempt to mount them, and what comes of
the steps on the one that is edited: whether it can be opened to be read, to be written and
to be read back, and what the card holds after a write. -/
structure BootFiles where
  files : CmdlineFile → Option Text
  readable : Bool := true
  writable : Bool := true
  readableAgain : Bool := true
  stored : Text → Text := id

/-- The file `clearCMDline` edits. -/
def BootFiles.cmdline (b : BootFiles) : CmdlineFile :=
  if (b.files .recoveryCmdline).isSome then .recoveryCmdline else .cmdlineTxt

/-- What the file can be read as. -/
def BootFiles.read (b : BootFiles) : Option Text :=
  if b.readable then b.files b.cmdline else none

/-- `PreSetup::clearCMDline`: its result, and the files it leaves. A file that cannot be
opened reads as nothing when it is read back. -/
def clearCMDline (b : BootFiles) : Bool × (CmdlineFile → Option Text) :=
  match b.read with
  | none => (false, b.files)
  | some text =>
    let line := trimmed (removeAll runinstaller (trimmed text))
    if !b.writable then (false, b.files)
    else
      let cmdlineread := if b.readableAgain then b.stored line else []
      (decide (cmdlineread = line), Function.update b.files b.cmdline (some (b.stored line)))

end PreSetup

end Noobs
