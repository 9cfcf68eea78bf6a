import Noobs.Proof.Calls
import Noobs.Proof.Follow

/-!
# The plan of an installation

What `installOS` does as long as nothing it depends on fails, as a plan: `sdCardPlan` for
the partition table, `imagePlan` for an operating system, `bootPlan` for the default boot
partition.

* `partitionSDCard_follows`, `writeImage_follows`, `setDefaultBoot_follows`: **each of
  the three reports success just when its plan succeeds**.
-/

namespace Noobs

variable {m : Machine} {p : PartitionInfo} {os : OSInfo}

/-! ## Files -/

/-- `Utility::Json::saveToFile`. -/
def savePlan (path : Path) (json : World → Data) : List Item :=
  [.needs (.openFile path), .needs (.writeFile path) json]

/-- `Utility::Sys::putFileContents`. -/
def putPlan (path : Path) (data : Text) : List Item :=
  .check (fun w => (w.file path).isNone) :: savePlan path fun _ => .text data

theorem saveToFile_follows {path : Path} {json : World → Data} {d : Data}
    (hd : json (m.act (.openFile path) .empty).2.world = d) :
    Follows (saveToFile path d) m (savePlan path json) (· = true) := by
  unfold saveToFile
  refine follows_step ?_ fun _ => Bool.false_ne_true
  exact follows_act (by rw [hd])

theorem putFileContents_follows (path : Path) (data : Text) :
    Follows (putFileContents path data) m (putPlan path data) (· = true) := by
  unfold putFileContents
  apply follows_check
  · intro hnone
    have habsent : (m.run (fileExists path)).1 = false := by
      show (m.world.file path).isSome = false
      rw [Option.isNone_iff_eq_none.1 hnone]
      rfl
    refine follows_asks rfl ?_
    rw [habsent]
    exact saveToFile_follows rfl
  · intro hsome
    have hpresent : (m.run (fileExists path)).1 = true := by
      show (m.world.file path).isSome = true
      rw [← Option.not_isNone, hsome]
      rfl
    rw [run_bind, hpresent]
    exact Bool.false_ne_true

/-! ## The partition table -/

def zeroPlan (ps : List PartitionInfo) : List Item :=
  (ps.filter fun p => p.partitionSizeSectors ≠ 0).map fun p => .needs (.zero p.partitionDevice)

def tablePlan (sys : Sysfs) (map : SortedMap ℤ PartitionInfo) : List Item :=
  [.check fun _ => (partitionTable sys map).isOk,
    .tries (.umount systemsDir),
    .tries (.umount settingsDir),
    .needs .sfdisk (fun _ => .text (((partitionTable sys map).toOption).getD [])),
    .tries .partprobe,
    .tries (.mountSystem systemsDir),
    .tries (.mountSystem settingsDir)]

def sdCardPlan (sys : Sysfs) (map : SortedMap ℤ PartitionInfo) : List Item :=
  .step false (fun w => (w.file .installedOs).isSome) (.remove .installedOs) (fun _ => .empty) ::
  (tablePlan sys map ++ zeroPlan map.values)

theorem zeroPartitions_follows : ∀ {m : Machine} (ps : List PartitionInfo),
    Follows (zeroPartitions ps) m (zeroPlan ps) (· = true) := by
  intro m ps
  induction ps generalizing m with
  | nil => exact follows_pure rfl
  | cons p ps ih =>
    unfold zeroPartitions zeroPlan
    by_cases hsize : p.partitionSizeSectors ≠ 0
    · rw [if_pos hsize, List.filter_cons_of_pos (by simpa using hsize), List.map_cons]
      refine follows_step ?_ fun _ => Bool.false_ne_true
      exact ih
    · rw [if_neg hsize, List.filter_cons_of_neg (by simpa using hsize)]
      exact ih

theorem writePartitionTable_follows (sys : Sysfs) (map : SortedMap ℤ PartitionInfo) :
    Follows (writePartitionTable sys map) m (tablePlan sys map) (· = true) := by
  unfold writePartitionTable tablePlan
  cases partitionTable sys map with
  | error e => exact follows_check (fun h => by cases h) fun _ => Bool.false_ne_true
  | ok table =>
    refine follows_check (fun _ => ?_) fun h => by cases h
    refine follows_try fun _ => ?_
    refine follows_try fun _ => ?_
    refine follows_step ?_ fun _ => Bool.false_ne_true
    refine follows_try fun _ => ?_
    refine follows_try fun _ => ?_
    exact follows_try fun _ => follows_pure rfl

/-- **`partitionSDCard` reports success just when its plan succeeds.** -/
theorem partitionSDCard_follows (sys : Sysfs) (map : SortedMap ℤ PartitionInfo) :
    Follows (partitionSDCard sys map) m (sdCardPlan sys map) (· = true) := by
  have hrest : ∀ m, Follows (writePartitionTable sys map >>= fun written =>
      if (!written) = true then pure false else zeroPartitions map.values) m
      (tablePlan sys map ++ zeroPlan map.values) (· = true) := by
    intro m
    apply follows_guard (writePartitionTable_follows sys map)
    · exact zeroPartitions_follows _
    · exact fun _ => Bool.false_ne_true
  unfold partitionSDCard sdCardPlan
  refine follows_asks rfl ?_
  cases hfile : (m.world.file .installedOs).isSome with
  | true =>
    apply follows_when hfile
    have hrun : (m.run (fileExists .installedOs)).1 = true := hfile
    rw [hrun]
    exact follows_try fun _ => hrest _
  | false =>
    apply follows_unless hfile
    have hrun : (m.run (fileExists .installedOs)).1 = false := hfile
    rw [hrun]
    exact hrest m

/-! ## The partitions -/

/-- Fetches and unpacks an image and passes it to `sink`. -/
def unpackPlan (image sink : Text) (s : Text → Step) : List Item :=
  [.check fun _ => (imageCommand image sink).isSome, .needs (s ((imageCommand image sink).getD []))]

def mountPlan (p : PartitionInfo) : List Item :=
  [.check fun _ => decide (p.mountedDir = []),
    .check fun _ => decide (p.partitionDevice ≠ []),
    .needs (.mount p.partitionDevice (p.mountCMD mnt2))]

/-- A file system. Only the first partition has to be unmounted, as it is mounted again. -/
def fileSystemPlan (first : Bool) (p : PartitionInfo) : List Item :=
  .needs (.mkfs p.partitionDevice (mkfsCommand p.partitionDevice p.fsType p.label p.mkfsOptions)) ::
  if p.emptyFS ∨ p.tarball = [] then []
  else mountPlan p ++ unpackPlan p.tarball " | tar x -C /mnt2 ".toList .untar ++
    [.step first (fun _ => true) (.umount mnt2) fun _ => .empty]

def partitionPlan (first : Bool) (p : PartitionInfo) : List Item :=
  if p.fsType = "raw".toList then
    unpackPlan p.tarball (" | dd of=".toList ++ p.partitionDevice ++ " conv=fsync obs=4M".toList)
      (.dd p.partitionDevice)
  else if "partclone".toList <+: p.fsType then
    unpackPlan p.tarball (" | partclone.restore -q -s - -o ".toList ++ p.partitionDevice ++ [' '])
      (.partclone p.partitionDevice)
  else if p.fsType ≠ "unformatted".toList then fileSystemPlan first p
  else []

/-- A partition was written; the first is not left mounted. -/
def Written (first : Bool) (p : PartitionInfo) (r : Bool × PartitionInfo) : Prop :=
  r.1 = true ∧ r.2.partitionDevice = p.partitionDevice ∧ (first = true → r.2 = p)

theorem unpack_follows (image sink : Text) (s : Text → Step) :
    Follows (unpack image sink s) m (unpackPlan image sink s) (· = true) := by
  unfold unpack unpackPlan
  cases imageCommand image sink with
  | none => exact follows_check (fun h => by cases h) fun _ => Bool.false_ne_true
  | some command => exact follows_check (fun _ => follows_act) fun h => by cases h

theorem mountPartition_follows : Follows (p.mountPartition mnt2) m (mountPlan p) (Mounted p) := by
  unfold PartitionInfo.mountPartition mountPlan
  apply follows_check
  · intro hdir
    rw [if_neg (not_not.2 (of_decide_eq_true hdir))]
    apply follows_check
    · intro hdev
      rw [if_neg (of_decide_eq_true hdev)]
      exact follows_step (follows_pure ⟨rfl, of_decide_eq_true hdir⟩) fun m' h => by cases h.1
    · intro hdev
      rw [if_pos (not_not.1 (of_decide_eq_false hdev))]
      intro h
      cases h.1
  · intro hdir h
    exact of_decide_eq_false hdir h.2

/-- A mount that fails says so. -/
theorem mountPartition_fails (h : ¬Mounted p (m.run (p.mountPartition mnt2)).1) :
    (m.run (p.mountPartition mnt2)).1 = (false, p) := by
  unfold PartitionInfo.mountPartition at h ⊢
  by_cases hdir : p.mountedDir ≠ []
  · rw [if_pos hdir]
    rfl
  by_cases hdev : p.partitionDevice = []
  · rw [if_neg hdir, if_pos hdev]
    rfl
  rw [if_neg hdir, if_neg hdev] at h ⊢
  rw [run_act_bind] at h ⊢
  cases hok : (m.act (.mount p.partitionDevice (p.mountCMD mnt2)) .empty).1 with
  | true =>
    rw [hok] at h
    exact absurd ⟨rfl, not_not.1 hdir⟩ h
  | false => rfl

/-- A partition that was extracted to is unmounted, if that succeeds. -/
theorem run_unmount (extracted : Bool) : m.run (do
      let (_, p) ← { p with mountedDir := mnt2 }.unmountPartition
      return (extracted, p)) =
    ((extracted, { p with mountedDir := if (m.act (.umount mnt2) .empty).1 then [] else mnt2 }),
      (m.act (.umount mnt2) .empty).2) := by
  have hne : mnt2 ≠ [] := by decide
  unfold PartitionInfo.unmountPartition
  rw [if_pos hne, run_bind, run_act_bind]
  cases (m.act (.umount mnt2) .empty).1 with
  | true => rfl
  | false => rfl

theorem unmountPartition_follows (first : Bool) (hdir : p.mountedDir = []) :
    Follows (do
      let (_, p) ← { p with mountedDir := mnt2 }.unmountPartition
      return (true, p)) m [.step first (fun _ => true) (.umount mnt2) fun _ => .empty]
      (Written first p) := by
  have hne : mnt2 ≠ [] := by decide
  constructor
  · rintro ⟨hok, -⟩
    rw [run_unmount]
    refine ⟨⟨rfl, rfl, fun hfirst => ?_⟩, rfl⟩
    simp only [hok hfirst, if_true, ← hdir]
  · rw [run_unmount]
    rintro ⟨-, -, hp⟩
    refine ⟨fun hfirst => ?_, trivial⟩
    have hmounted := congrArg PartitionInfo.mountedDir (hp hfirst)
    by_contra hok
    simp only [if_neg hok, hdir] at hmounted
    exact hne hmounted

theorem makeFileSystem_follows (first : Bool) :
    Follows (makeFileSystem p) m (fileSystemPlan first p) (Written first p) := by
  unfold makeFileSystem fileSystemPlan
  refine follows_step ?_ fun m' h => Bool.false_ne_true h.1
  have hskip : Written first p (true, p) := ⟨rfl, rfl, fun _ => rfl⟩
  by_cases hempty : p.emptyFS = true
  · rw [if_pos (Or.inl hempty)]
    simp only [hempty, if_true]
    exact follows_pure hskip
  by_cases htarball : p.tarball = []
  · rw [if_pos (Or.inr htarball)]
    simp only [hempty, htarball, List.isEmpty_nil, if_true]
    exact follows_pure hskip
  rw [if_neg (not_or.2 ⟨hempty, htarball⟩), List.append_assoc]
  simp only [Bool.not_true, Bool.false_eq_true, if_false, hempty, List.isEmpty_iff, htarball]
  apply follows_bind mountPartition_follows
  · rintro _ ⟨rfl, hdir⟩
    apply follows_bind (unpack_follows _ _ _)
    · rintro _ rfl
      exact unmountPartition_follows first hdir
    · intro h
      rw [run_unmount]
      exact fun hw => h hw.1
  · intro h
    rw [mountPartition_fails h]
    intro hw
    cases hw.1

theorem run_freeLabel (label : Text) (is : List ℕ) : (m.run (freeLabel label is)).2 = m := by
  induction is with
  | nil => rfl
  | cons i is ih =>
    unfold freeLabel isLabelAvailable
    simp only [run_bind, Machine.run, Prog.run_pure]
    split_ifs
    · rfl
    · exact ih

theorem run_checkLabel : (m.run (checkLabel p)).2 = m := by
  unfold checkLabel isLabelAvailable
  split_ifs
  · rfl
  simp only [run_bind, Machine.run, Prog.run_pure]
  split_ifs
  · exact run_freeLabel _ _
  · rfl

theorem writePartition_follows (first : Bool) :
    Follows (writePartition p) m (partitionPlan first p) (Written first p) := by
  have hkept : ∀ ok, Written first p (ok, p) ↔ ok = true := fun ok => ⟨fun h => h.1, fun h => ⟨h, rfl, fun _ => rfl⟩⟩
  unfold writePartition partitionPlan
  refine follows_asks run_checkLabel ?_
  split_ifs
  · exact follows_map (unpack_follows _ _ _) hkept
  · exact follows_map (unpack_follows _ _ _) hkept
  · exact makeFileSystem_follows first
  · exact follows_pure ((hkept true).2 rfl)

/-! ## All partitions -/

/-- The partitions of an operating system. -/
def partitionsPlan : List PartitionInfo → List Item
  | [] => []
  | p :: ps => partitionPlan true p ++ ps.flatMap (partitionPlan false)

/-- All partitions were written; the first is not left mounted. -/
def AllWritten (first : Bool) (ps : List PartitionInfo) (r : Bool × List PartitionInfo) : Prop :=
  r.1 = true ∧ r.2.map PartitionInfo.partitionDevice = ps.map PartitionInfo.partitionDevice ∧
    (first = true → r.2.head? = ps.head?)

theorem writePartitions_cons {ps : List PartitionInfo} (first : Bool)
    (ih : ∀ m, Follows (writePartitions ps) m (ps.flatMap (partitionPlan false)) (AllWritten false ps)) :
    Follows (writePartitions (p :: ps)) m (partitionPlan first p ++ ps.flatMap (partitionPlan false))
      (AllWritten first (p :: ps)) := by
  rw [writePartitions]
  apply follows_bind (writePartition_follows first)
  · rintro ⟨-, p'⟩ ⟨rfl, hdev, hfirst⟩
    show Follows (writePartitions ps >>= fun r => pure (r.1, p' :: r.2)) _ _ _
    refine follows_map (ih _) fun r => ?_
    unfold AllWritten
    simp only [List.map_cons, List.head?_cons, List.cons.injEq, Option.some.injEq, Bool.false_eq_true]
    constructor
    · rintro ⟨h1, ⟨-, h2⟩, -⟩
      exact ⟨h1, h2, fun h => by cases h⟩
    · rintro ⟨h1, h2, -⟩
      exact ⟨h1, ⟨hdev, h2⟩, hfirst⟩
  · generalize (m.run (writePartition p)).1 = a, (m.run (writePartition p)).2 = m'
    obtain ⟨written, p'⟩ := a
    intro hw h
    apply hw
    cases written with
    | false => cases h.1
    | true =>
      change AllWritten first (p :: ps) (m'.run (writePartitions ps >>= fun r => pure (r.1, p' :: r.2))).1 at h
      rw [run_bind] at h
      obtain ⟨-, hdev, hhead⟩ := h
      exact ⟨rfl, (List.cons.inj hdev).1, fun hfirst => Option.some.inj (hhead hfirst)⟩

theorem writePartitions_follows (ps : List PartitionInfo) :
    Follows (writePartitions ps) m (partitionsPlan ps) (AllWritten true ps) := by
  have key : ∀ (ps : List PartitionInfo) (m : Machine),
      Follows (writePartitions ps) m (ps.flatMap (partitionPlan false)) (AllWritten false ps) := by
    intro ps
    induction ps with
    | nil => exact fun m => follows_pure ⟨rfl, rfl, fun _ => rfl⟩
    | cons p ps ih => exact fun m => writePartitions_cons false ih
  cases ps with
  | nil => exact follows_pure ⟨rfl, rfl, fun _ => rfl⟩
  | cons p ps => exact writePartitions_cons true (key ps)

/-! ## The rest of the image -/

/-- The partition setup script. One left by an earlier installation is not overwritten. -/
def scriptPlan (os : OSInfo) : List Item :=
  if os.partitionSetupScript = [] then []
  else putPlan .partitionSetup os.partitionSetupScript ++
    [.needs .runScript, .needs (.remove .partitionSetup)]

def patchPlan : List Item :=
  [.tries .appendConfig fun w => .text ("\r\n# NOOBS Auto-generated Settings:\r\n".toList ++
    displayOptions w.conf.displayMode)]

def finishPlan (installedOs : List InstalledOs) (os : OSInfo) : List Item :=
  savePlan .osConfig (fun w => .osConfig (os.config w.conf)) ++
  (patchPlan ++
  (scriptPlan os ++
  (.tries (.umount mnt2) ::
  savePlan .installedOs (fun _ => .installedOs (installedOs ++ [os.entry])))))

theorem run_scriptArguments (pnr : ℕ) (ps : List PartitionInfo) :
    (m.run (scriptArguments pnr ps)).2 = m := by
  induction ps generalizing pnr with
  | nil => rfl
  | cons p ps ih =>
    rw [scriptArguments, run_bind, run_bind, run_bind]
    exact ih _

theorem runSetupScript_follows : Follows (runSetupScript os) m (scriptPlan os) (· = true) := by
  unfold runSetupScript scriptPlan
  split_ifs
  · exact follows_pure rfl
  apply follows_guard (putFileContents_follows _ _)
  · refine follows_asks (run_scriptArguments _ _) ?_
    refine follows_step ?_ fun _ => Bool.false_ne_true
    exact follows_act
  · exact fun _ => Bool.false_ne_true

theorem patchConfigTxt_follows : Follows patchConfigTxt m patchPlan fun _ => True := by
  unfold patchConfigTxt patchPlan
  refine follows_asks rfl ?_
  exact follows_try fun _ => follows_pure trivial

/-- What `finishImage` does while the first partition is mounted. -/
def setUpImage (os : OSInfo) : Sys Bool := do
  let conf ← ask .noobsConf
  if !(← saveToFile .osConfig (.osConfig (os.config conf))) then return false
  else
    patchConfigTxt
    runSetupScript os

/-- What it does then. -/
def enterImage (installedOs : List InstalledOs) (os : OSInfo) (setUp : Bool) :
    Sys (Bool × List InstalledOs) :=
  if !setUp then return (false, installedOs)
  else do
    let _ ← act (.umount mnt2)
    let saved ← saveToFile .installedOs (.installedOs (installedOs ++ [os.entry]))
    return (saved, installedOs ++ [os.entry])

theorem finishImage_eq (installedOs : List InstalledOs) (os : OSInfo) :
    finishImage installedOs os = setUpImage os >>= enterImage installedOs os := by
  unfold finishImage setUpImage
  refine Prog.bind_eq_bind_bind fun conf => ?_
  refine Prog.bind_eq_bind_bind fun saved => ?_
  cases saved with
  | false => rfl
  | true => exact Prog.bind_eq_bind_bind fun _ => rfl

def setUpPlan (os : OSInfo) : List Item :=
  savePlan .osConfig (fun w => .osConfig (os.config w.conf)) ++ (patchPlan ++ scriptPlan os)

theorem setUpImage_follows : Follows (setUpImage os) m (setUpPlan os) (· = true) := by
  unfold setUpImage setUpPlan
  refine follows_asks rfl ?_
  apply follows_guard (saveToFile_follows (by rw [act_conf]; rfl))
  · apply follows_bind patchConfigTxt_follows
    · exact fun _ _ => runSetupScript_follows
    · exact fun h => absurd trivial h
  · exact fun _ => Bool.false_ne_true

theorem finishPlan_eq (installedOs : List InstalledOs) (os : OSInfo) : finishPlan installedOs os =
    setUpPlan os ++ .tries (.umount mnt2) ::
      savePlan .installedOs fun _ => .installedOs (installedOs ++ [os.entry]) := by
  unfold finishPlan setUpPlan
  rw [List.append_assoc, List.append_assoc]

theorem finishImage_follows (installedOs : List InstalledOs) :
    Follows (finishImage installedOs os) m (finishPlan installedOs os)
      (· = (true, installedOs ++ [os.entry])) := by
  have hfalse : ∀ entries, (false, installedOs) ≠ (true, entries) := fun entries h => by cases h
  rw [finishImage_eq, finishPlan_eq]
  apply follows_guard setUpImage_follows
  · refine follows_try fun _ => ?_
    exact follows_map (saveToFile_follows rfl) fun ok => by simp
  · exact fun _ => hfalse _

/-! ## The whole image -/

/-- `os_config.json` and `installed_os.json` are about the devices of the partitions only. -/
theorem finishPlan_congr (os : OSInfo) (ps : List PartitionInfo) (installedOs : List InstalledOs)
    (h : ps.map PartitionInfo.partitionDevice = os.vPartitionList) :
    finishPlan installedOs { os with partitions := ps } = finishPlan installedOs os ∧
      OSInfo.entry { os with partitions := ps } = os.entry := by
  have hlist : OSInfo.vPartitionList { os with partitions := ps } = os.vPartitionList := h
  have hentry : OSInfo.entry { os with partitions := ps } = os.entry := by
    unfold OSInfo.entry
    rw [hlist]
  refine ⟨?_, hentry⟩
  unfold finishPlan OSInfo.config
  rw [hlist, hentry]
  rfl

def imagePlan (installedOs : List InstalledOs) (os : OSInfo) : List Item :=
  match os.partitions with
  | [] => [.check fun _ => false]
  | p :: ps => partitionsPlan (p :: ps) ++ (mountPlan p ++ finishPlan installedOs os)

/-- `writeImage` reported success. -/
def ImageWritten (installedOs : List InstalledOs) (os : OSInfo) (r : Bool × OSInfo × List InstalledOs) : Prop :=
  r.1 = true ∧ r.2.1.vPartitionList = os.vPartitionList ∧ r.2.2 = installedOs ++ [os.entry]

/-- **`writeImage` reports success just when its plan succeeds.** -/
theorem writeImage_follows (installedOs : List InstalledOs) :
    Follows (writeImage installedOs os) m (imagePlan installedOs os) (ImageWritten installedOs os) := by
  unfold writeImage imagePlan
  cases hps : os.partitions with
  | nil =>
    refine follows_check (fun h => by cases h) fun _ h => ?_
    cases h.1
  | cons p ps =>
    apply follows_bind (writePartitions_follows (p :: ps))
    · rintro ⟨-, ps'⟩ ⟨rfl, hdev, hhead⟩
      obtain ⟨p', ps', rfl⟩ : ∃ p' ps'', ps' = p' :: ps'' := by
        cases ps' with
        | nil => cases hdev
        | cons p' ps'' => exact ⟨p', ps'', rfl⟩
      obtain rfl : p' = p := Option.some.inj (hhead rfl)
      rw [← hps] at hdev
      apply follows_bind mountPartition_follows
      · rintro _ ⟨rfl, -⟩
        obtain ⟨hplan, hentry⟩ := finishPlan_congr os
          ({ p' with mountedDir := mnt2 } :: ps') installedOs hdev
        rw [← hplan]
        refine follows_map (finishImage_follows installedOs) fun r => ?_
        constructor
        · rintro ⟨h1, -, h2⟩
          exact Prod.ext h1 (h2.trans (by rw [hentry]))
        · rintro rfl
          exact ⟨rfl, hdev, by rw [hentry]⟩
      · intro h
        rw [mountPartition_fails h]
        intro hw
        cases hw.1
    -- the partitions were not written, or the first is not as it was
    · have hkept : List.Forall₂ Kept (p :: ps) (m.run (writePartitions (p :: ps))).1.2 :=
        (writePartitions_sat (p :: ps)).run m
      generalize (m.run (writePartitions (p :: ps))).1 = a, (m.run (writePartitions (p :: ps))).2 = m' at hkept ⊢
      obtain ⟨written, ps'⟩ := a
      intro hnot hw
      cases written with
      | false => cases hw.1
      | true =>
        obtain _ | ⟨hp, hrest⟩ := hkept
        rcases hp with rfl | rfl
        · exact hnot ⟨rfl, kept_devices (List.Forall₂.cons (Or.inl rfl) hrest), fun _ => rfl⟩
        · -- it was left mounted, so it is not mounted again
          cases hw.1

/-! ## The default boot partition -/

def bootPlan (device : Text) : List Item :=
  .check (fun _ => decide (devicePrefix <+: device)) ::
  .step true (fun w => (w.file .defaultBootPartition).isSome) (.remove .defaultBootPartition)
    (fun _ => .empty) ::
  putPlan .defaultBootPartition (toAscii device)

/-- A file that is still there is not overwritten. -/
theorem putFileContents_present {path : Path} (data : Text) (h : (m.world.file path).isSome) :
    m.run (putFileContents path data) = (false, m) := by
  unfold putFileContents
  rw [run_bind]
  show m.run (if (m.world.file path).isSome then pure false else _) = (false, m)
  rw [if_pos h]
  rfl

theorem setDefaultBootPartition_follows (device : Text) :
    Follows (setDefaultBootPartition device) m (bootPlan device) (· = true) := by
  unfold setDefaultBootPartition bootPlan
  apply follows_check
  · intro hbegins
    rw [if_neg (not_not.2 (of_decide_eq_true hbegins))]
    refine follows_asks rfl ?_
    cases hfile : (m.world.file .defaultBootPartition).isSome with
    | true =>
      apply follows_when hfile
      have hrun : (m.run (fileExists .defaultBootPartition)).1 = true := hfile
      rw [hrun]
      refine follows_step (putFileContents_follows _ _) fun hfailed => ?_
      rw [putFileContents_present _ (by rw [act_remove_failed hfailed]; exact hfile)]
      exact Bool.false_ne_true
    | false =>
      apply follows_unless hfile
      have hrun : (m.run (fileExists .defaultBootPartition)).1 = false := hfile
      rw [hrun]
      exact putFileContents_follows _ _
  · intro hbegins
    rw [if_pos (of_decide_eq_false hbegins)]
    exact Bool.false_ne_true

/-- **`setDefaultBootPartition` reports success just when its plan succeeds.** -/
theorem setDefaultBoot_follows {ps : List PartitionInfo} (hps : os.partitions = p :: ps)
    (hdev : p.partitionDevice ≠ []) :
    Follows os.setDefaultBoot m (bootPlan p.partitionDevice) (· = true) := by
  unfold OSInfo.setDefaultBoot PartitionInfo.setDefaultBoot
  rw [hps]
  simp only [List.isEmpty_iff, hdev, if_false]
  exact setDefaultBootPartition_follows _

end Noobs
