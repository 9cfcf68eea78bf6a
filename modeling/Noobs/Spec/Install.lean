import Noobs.Spec.Boot
import Noobs.Spec.Plan

/-!
# Installing an operating system

`InstallManager::installOS` and the steps it takes: `recovery/InstallManager.cpp`,
`recovery/InstallManager_Utility.cpp`, and the mounting of partitions in
`recovery/PartitionInfo.cpp`.

A partition remembers where it is mounted, so what changes it returns it.
-/

namespace Noobs

/-! ## Commands -/

/-- `InstallManager::isURL`. -/
def isURL (s : Text) : Bool := decide ("http:".toList <+: s ∨ "https:".toList <+: s)

/-- The program that unpacks an image, by the end of its name. -/
def decompressor (image : Text) : Option Text :=
  if ".gz".toList <:+ image then some "gzip -dc".toList
  else if ".xz".toList <:+ image then some "xz -dc".toList
  else if ".bz2".toList <:+ image then some "bzip2 -dc".toList
  else if ".lzo".toList <:+ image then some "lzop -dc".toList
  else if ".zip".toList <:+ image then some "unzip -p".toList
  else none

/-- The command that fetches and unpacks an image and passes it to `sink`. -/
def imageCommand (image sink : Text) : Option Text :=
  (decompressor image).map fun decompress =>
    "sh -o pipefail -c \"".toList ++
      (if isURL image then "wget --no-verbose --tries=inf -O- ".toList ++ image ++ " | ".toList
        else []) ++
      decompress ++ (if isURL image then [] else ' ' :: image) ++ sink ++ "\"".toList

/-- Executes that command, as the step `s` makes of it. An image with another ending is
refused. -/
def unpack (image sink : Text) (s : Text → Step) : Sys Bool :=
  match imageCommand image sink with
  | none => return false
  | some command => act (s command)

/-- `InstallManager::untar`. -/
def untar (tarball : Text) : Sys Bool := unpack tarball " | tar x -C /mnt2 ".toList .untar

/-- `InstallManager::dd`. -/
def dd (imagePath device : Text) : Sys Bool :=
  unpack imagePath (" | dd of=".toList ++ device ++ " conv=fsync obs=4M".toList) (.dd device)

/-- `InstallManager::partclone_restore`. -/
def partcloneRestore (imagePath device : Text) : Sys Bool :=
  unpack imagePath (" | partclone.restore -q -s - -o ".toList ++ device ++ [' ']) (.partclone device)

/-- The command `InstallManager::mkfs` executes. -/
def mkfsCommand (device fstype label mkfsopt : Text) : Text :=
  (if fstype = "fat".toList ∨ fstype = "FAT".toList then
      "/sbin/mkfs.fat ".toList ++ if label = [] then [] else "-n ".toList ++ label ++ [' ']
    else if fstype = "ext4".toList then
      "/usr/sbin/mkfs.ext4 ".toList ++ if label = [] then [] else "-L ".toList ++ label ++ [' ']
    else if fstype = "ntfs".toList then
      "/sbin/mkfs.ntfs --fast ".toList ++ if label = [] then [] else "-L ".toList ++ label ++ [' ']
    else []) ++
    (if mkfsopt = [] then [] else mkfsopt ++ [' ']) ++ device

/-- `InstallManager::mkfs`. -/
def mkfs (device fstype label mkfsopt : Text) : Sys Bool :=
  act (.mkfs device (mkfsCommand device fstype label mkfsopt))

/-- `InstallManager::isLabelAvailable`. -/
def isLabelAvailable (label : Text) : Sys Bool := do
  return !(← ask (.findfs label))

/-- `InstallManager::getLabel`. -/
def getLabel (part : Text) : Sys Text := ask (.blkid "LABEL".toList part)

/-- `InstallManager::getUUID`. -/
def getUUID (part : Text) : Sys Text := ask (.blkid "UUID".toList part)

/-! ## Mounting -/

/-- The command that mounts a partition, without arguments. -/
def PartitionInfo.mountCMD (p : PartitionInfo) (dir : Text) : Text :=
  (if p.fsType = "ntfs".toList then "/sbin/mount.ntfs-3g ".toList else "mount ".toList) ++
    "  ".toList ++ p.partitionDevice ++ ' ' :: dir

/-- `PartitionInfo::mountPartition`: whether it is mounted, and the partition. -/
def PartitionInfo.mountPartition (p : PartitionInfo) (dir : Text) : Sys (Bool × PartitionInfo) :=
  if p.mountedDir ≠ [] then return (false, p)
  else if p.partitionDevice = [] then return (false, p)
  else do
    if ← act (.mount p.partitionDevice (p.mountCMD dir)) then
      return (true, { p with mountedDir := dir })
    else return (false, p)

/-- `PartitionInfo::unmountPartition`. -/
def PartitionInfo.unmountPartition (p : PartitionInfo) : Sys (Bool × PartitionInfo) :=
  if p.mountedDir ≠ [] then do
    if ← act (.umount p.mountedDir) then return (true, { p with mountedDir := [] })
    else return (false, p)
  else return (true, p)

/-! ## Partitioning -/

/-- `InstallManager::writePartitionTable`. Only the exit code of `sfdisk` counts. -/
def writePartitionTable (sys : Sysfs) (partitionMap : SortedMap ℤ PartitionInfo) : Sys Bool :=
  match partitionTable sys partitionMap with
  | .error _ => return false
  | .ok table => do
    let _ ← act (.umount systemsDir)
    let _ ← act (.umount settingsDir)
    let written ← act .sfdisk (.text table)
    let _ ← act .partprobe
    let _ ← act (.mountSystem systemsDir)
    let _ ← act (.mountSystem settingsDir)
    return written

/-- The loop of `partitionSDCard` that clears the first sector of each partition. -/
def zeroPartitions : List PartitionInfo → Sys Bool
  | [] => return true
  | p :: ps => do
    if p.partitionSizeSectors ≠ 0 then
      if !(← act (.zero p.partitionDevice)) then return false
      else zeroPartitions ps
    else zeroPartitions ps

/-- `InstallManager::partitionSDCard`. -/
def partitionSDCard (sys : Sysfs) (partitionMap : SortedMap ℤ PartitionInfo) : Sys Bool := do
  -- delete information about previously installed operating systems
  if ← fileExists .installedOs then
    let _ ← removeFile .installedOs
  if !(← writePartitionTable sys partitionMap) then return false
  else zeroPartitions partitionMap.values

/-! ## Writing the partitions -/

/-- The loop that looks for a free variant of a label. -/
def freeLabel (label : Text) : List ℕ → Sys Unit
  | [] => return ()
  | i :: rest => do
    if ← isLabelAvailable (label ++ number i) then return ()
    else freeLabel label rest

/-- What `writeImage` does about a partition's label. `label()` returns a copy, so the
label stays as it is. -/
def checkLabel (p : PartitionInfo) : Sys Unit := do
  if p.label.length > 15 then return ()
  else if !(← isLabelAvailable p.label) then freeLabel p.label (List.range 10)
  else return ()

/-- Formats a partition and extracts its tarball to it. -/
def makeFileSystem (p : PartitionInfo) : Sys (Bool × PartitionInfo) := do
  if !(← mkfs p.partitionDevice p.fsType p.label p.mkfsOptions) then return (false, p)
  else if p.emptyFS then return (true, p)
  else if p.tarball.isEmpty then return (true, p)
  else
    let (mounted, p) ← p.mountPartition mnt2
    if !mounted then return (false, p)
    else
      let extracted ← untar p.tarball
      let (_, p) ← p.unmountPartition
      return (extracted, p)

/-- The body of the loop over the partitions in `writeImage`. -/
def writePartition (p : PartitionInfo) : Sys (Bool × PartitionInfo) := do
  checkLabel p
  if p.fsType = "raw".toList then
    return (← dd p.tarball p.partitionDevice, p)
  else if "partclone".toList <+: p.fsType then
    return (← partcloneRestore p.tarball p.partitionDevice, p)
  else if p.fsType ≠ "unformatted".toList then makeFileSystem p
  else return (true, p)

/-- The loop over the partitions in `writeImage`. -/
def writePartitions : List PartitionInfo → Sys (Bool × List PartitionInfo)
  | [] => return (true, [])
  | p :: ps => do
    let (written, p) ← writePartition p
    if !written then return (false, p :: ps)
    else
      let (written, ps) ← writePartitions ps
      return (written, p :: ps)

/-! ## Finishing the image -/

/-- `OSInfo::vPartitionList`. -/
def OSInfo.vPartitionList (os : OSInfo) : List Text := os.partitions.map PartitionInfo.partitionDevice

/-- What `writeImage` saves as `os_config.json`. -/
def OSInfo.config (os : OSInfo) (conf : NoobsConf) : OsConfig :=
  { flavour := os.flavour, releaseDate := os.releaseDate, imagefolder := os.folder,
    description := os.description, videomode := conf.displayMode, partitions := os.vPartitionList,
    language := conf.language, keyboard := conf.keyboardLayout }

/-- What `writeImage` adds to `installed_os.json`. -/
def OSInfo.entry (os : OSInfo) : InstalledOs :=
  { name := os.flavour, description := os.description, folder := os.folder,
    releaseDate := os.releaseDate, partitions := os.vPartitionList, bootable := os.bootable }

/-- The display options for `config.txt`. -/
def displayOptions (videomode : ℤ) : Text :=
  if videomode = 0 then "hdmi_force_hotplug=1\r\n".toList
  else if videomode = 1 then
    "hdmi_ignore_edid=0xa5000080\r\nhdmi_force_hotplug=1\r\nhdmi_group=2\r\nhdmi_mode=4\r\n".toList
  else if videomode = 2 then "hdmi_ignore_hotplug=1\r\nsdtv_mode=2\r\n".toList
  else if videomode = 3 then "hdmi_ignore_hotplug=1\r\nsdtv_mode=0\r\n".toList
  else []

/-- `InstallManager::patchConfigTxt`. -/
def patchConfigTxt : Sys Unit := do
  let conf ← ask .noobsConf
  let _ ← act .appendConfig
    (.text ("\r\n# NOOBS Auto-generated Settings:\r\n".toList ++ displayOptions conf.displayMode))
  return ()

/-- The arguments and the environment for the partitions from number `pnr` on. -/
def scriptArguments : (pnr : ℕ) → List PartitionInfo → Sys (List Text × List (Text × Text))
  | _, [] => return ([], [])
  | pnr, p :: ps => do
    let part := p.partitionDevice
    let nr := number pnr
    let uuid ← getUUID part
    let label ← getLabel part
    let id := if label ≠ [] then "LABEL=".toList ++ label else "UUID=".toList ++ uuid
    let (args, env) ← scriptArguments (pnr + 1) ps
    return ((" part".toList ++ nr ++ '=' :: part) :: (" id".toList ++ nr ++ '=' :: id) :: args,
      ("part".toList ++ nr, part) :: ("id".toList ++ nr, id) :: env)

/-- Writes, runs and removes the partition setup script, if there is one. -/
def runSetupScript (os : OSInfo) : Sys Bool := do
  if os.partitionSetupScript = [] then return true
  else if !(← putFileContents .partitionSetup os.partitionSetupScript) then return false
  else
    let (args, env) ← scriptArguments 1 os.partitions
    if !(← act .runScript (.script ("/tmp/partition_setup.sh".toList :: args)
      (("PATH".toList, "/bin:/usr/bin:/sbin:/usr/sbin".toList) :: env))) then return false
    else removeFile .partitionSetup

/-- The steps of `writeImage` from where the first partition is mounted. -/
def finishImage (installedOs : List InstalledOs) (os : OSInfo) : Sys (Bool × List InstalledOs) := do
  let conf ← ask .noobsConf
  if !(← saveToFile .osConfig (.osConfig (os.config conf))) then return (false, installedOs)
  else
    patchConfigTxt
    if !(← runSetupScript os) then return (false, installedOs)
    else
      let _ ← act (.umount mnt2)
      let installedOs := installedOs ++ [os.entry]
      return (← saveToFile .installedOs (.installedOs installedOs), installedOs)

/-- `InstallManager::writeImage`: whether it reports success, the operating system, and
the entries of `installed_os.json`. -/
def writeImage (installedOs : List InstalledOs) (os : OSInfo) :
    Sys (Bool × OSInfo × List InstalledOs) := do
  let (written, ps) ← writePartitions os.partitions
  let os := { os with partitions := ps }
  if !written then return (false, os, installedOs)
  else
    match ps with
    -- `checkImage` has seen to it that there is a first partition
    | [] => return (false, os, installedOs)
    | p :: ps =>
      let (mounted, p) ← p.mountPartition mnt2
      let os := { os with partitions := p :: ps }
      if !mounted then return (false, os, installedOs)
      else
        let (finished, installedOs) ← finishImage installedOs os
        return (finished, os, installedOs)

/-- `InstallManager::writeImage`, for a list of operating systems. -/
def writeImages : List InstalledOs → List OSInfo → Sys (Bool × List OSInfo)
  | _, [] => return (true, [])
  | installedOs, os :: oses => do
    let (written, os, installedOs) ← writeImage installedOs os
    if !written then return (false, os :: oses)
    else
      let (written, oses) ← writeImages installedOs oses
      return (written, os :: oses)

/-! ## Installing -/

variable (I : IntType)

/-- `InstallManager::prepareImage`, for a single operating system. -/
def prepareImage (m : InstallManager) (os : OSInfo) : Except String (OSInfo × InstallManager) := do
  let r ← checkImage I m os
  let m ← calculateSpaceRequirements I r.2
  return (r.1, m)

/-- `InstallManager::installOS`, for a single operating system and a manager that has
installed none before. -/
def installOS (sys : Sysfs) (m : InstallManager) (os : OSInfo) : Sys Bool :=
  match prepareImage I m os with
  | .error _ => return false
  | .ok (os, m) => do
    if !(← partitionSDCard sys m.partitionMap) then return false
    else
      -- a failure is logged, here and of the default boot partition
      let (_, os, _) ← writeImage [] os
      let _ ← os.setDefaultBoot
      return true

/-- `InstallManager::installOS`, for a list of operating systems and a manager that has
installed none before. With an empty list, `first()` ends the process (`none`). -/
def installOSes (sys : Sysfs) (m : InstallManager) (oses : List OSInfo) : Sys (Option Bool) :=
  match prepareImages I m oses with
  | .error _ => return some false
  | .ok (oses, m) => do
    if !(← partitionSDCard sys m.partitionMap) then return some false
    else
      let (_, oses) ← writeImages [] oses
      match oses with
      | [] => return none
      | os :: _ =>
        let _ ← os.setDefaultBoot
        return some true

/-- `InstallManager::InstallManager`, as far as it takes steps. -/
def newInstallManager : Sys Unit := do
  let _ ← act (.mountSystem systemsDir)
  let _ ← act (.mkdir mnt2)
  return ()

/-- `BootManager::installOSREST`, if its body gave `osInfo`, and up to where an
`AutoReboot` header makes it reboot itself. -/
def installOSREST (sys : Sysfs) (autoReboot : Bool) (osInfo : Option OSInfo) : Sys Response :=
  match osInfo with
  | none => return badRequest "Unable to install OS\n".toList
  | some os => do
    newInstallManager
    if !(← installOS I sys (.new I sys) os) then
      return { code := 500, phrase := "Internal Server Error".toList,
               body := "Unable to install OS\n".toList }
    else if autoReboot then
      return { body := "Successfully installed OS and rebooting now!\n".toList }
    else return { body := "Successfully installed OS\n".toList }

end Noobs
