import Noobs.Proof.Write

/-!
# What a reported success is worth

`installOS` returns `true` as soon as the partition table is written: it logs a failure of
`writeImage`, and does not even look at that of `setDefaultBootPartition`.

* `success_is_real_iff`: so **a reported success is a real one** just where nothing fails
  behind the partition table.
-/

namespace Noobs

variable {m : Machine} {plan plan' : List Item} {path q : Path} {json : Data}

/-! ## What a plan leaves in the files -/

theorem savePlan_file (h : m.Succeeds (savePlan path fun _ => json)) :
    (m.perform (savePlan path fun _ => json)).world.file path = some json := by
  obtain ⟨-, hwrite, -⟩ := h
  show ((m.act (.openFile path) .empty).2.act (.writeFile path) json).2.world.file path = some json
  rw [act_writeFile (hwrite rfl), file_setFile, if_pos rfl]

theorem savePlan_other {e : World → Data} (hq : q ≠ path) :
    (m.perform (savePlan path e)).world.file q = m.world.file q := by
  show ((m.act (.openFile path) .empty).2.act (.writeFile path) _).2.world.file q = m.world.file q
  rw [file_act_of_ne (Or.inr (Or.inr rfl)) hq, file_act_of_ne (Or.inr (Or.inl rfl)) hq]

/-- The default boot file holds the device's text, and no other file has changed. -/
theorem bootPlan_files {device : Text} (h : m.Succeeds (bootPlan device)) :
    (m.perform (bootPlan device)).world.file .defaultBootPartition = some (.text (toAscii device)) ∧
      ∀ q ≠ Path.defaultBootPartition, (m.perform (bootPlan device)).world.file q = m.world.file q := by
  obtain ⟨-, h⟩ := h
  have hput : ∀ m : Machine, m.Succeeds (putPlan .defaultBootPartition (toAscii device)) →
      (m.perform (putPlan .defaultBootPartition (toAscii device))).world.file .defaultBootPartition =
        some (.text (toAscii device)) := fun m h => savePlan_file h.2
  have hother : ∀ (m : Machine) (q : Path), q ≠ Path.defaultBootPartition →
      (m.perform (putPlan .defaultBootPartition (toAscii device))).world.file q = m.world.file q :=
    fun m q hq => @savePlan_other m _ q (fun _ => .text (toAscii device)) hq
  simp only [Machine.Succeeds] at h
  simp only [bootPlan, Machine.perform]
  split_ifs at h ⊢
  · refine ⟨hput _ h.2, fun q hq => ?_⟩
    rw [hother _ q hq, file_act_of_ne (Or.inl rfl) hq]
  · exact ⟨hput _ h, hother m⟩

/-- `installed_os.json` holds the entries. -/
theorem imagePlan_file {os : OSInfo} {installedOs : List InstalledOs}
    (h : m.Succeeds (imagePlan installedOs os)) :
    (m.perform (imagePlan installedOs os)).world.file .installedOs =
      some (.installedOs (installedOs ++ [os.entry])) := by
  unfold imagePlan at h ⊢
  cases hps : os.partitions with
  | nil =>
    rw [hps] at h
    cases h.1
  | cons p ps =>
    rw [hps] at h
    -- the plan ends with the file
    simp only [finishPlan, succeeds_append, perform_append] at h ⊢
    exact savePlan_file h.2.2.2.2.2.2

/-! ## What a plan leaves in the log -/

/-- The steps a reported success depends on, by what it says. -/
def Step.essential : Step → Bool
  | .umount _ => false
  | .partprobe => false
  | .mountSystem _ => false
  | .appendConfig => false
  | .remove .installedOs => false
  | _ => true

/-- No step that is essential has failed between `m` and `m'`. -/
def NoFailure (m m' : Machine) : Prop :=
  ∃ new, m'.log = m.log ++ new ∧ ∀ e ∈ new, e.step.essential = true → e.ok = true

/-- A plan that needs every step that is essential. -/
def Item.Strict : Item → Prop
  | .check _ => True
  | .step needed _ s _ => s.essential = true → needed = true

def Strict (plan : List Item) : Prop := ∀ item ∈ plan, item.Strict

theorem NoFailure.refl (m : Machine) : NoFailure m m := ⟨[], by simp, by simp⟩

theorem NoFailure.trans {m' m'' : Machine} (h : NoFailure m m') (h' : NoFailure m' m'') : NoFailure m m'' := by
  obtain ⟨new, hnew, hok⟩ := h
  obtain ⟨new', hnew', hok'⟩ := h'
  refine ⟨new ++ new', by rw [hnew', hnew, List.append_assoc], ?_⟩
  intro e he
  rcases List.mem_append.1 he with he | he
  · exact hok e he
  · exact hok' e he

theorem noFailure_act {s : Step} {d : Data} (h : s.essential = true → (m.act s d).1 = true) :
    NoFailure m (m.act s d).2 := by
  refine ⟨[⟨s, (m.next s).ok, m.world.settingsMounted⟩], rfl, ?_⟩
  intro e he
  rw [List.mem_singleton.1 he]
  exact h

theorem perform_noFailure (hplan : Strict plan) (h : m.Succeeds plan) :
    NoFailure m (m.perform plan) := by
  induction plan generalizing m with
  | nil => exact NoFailure.refl m
  | cons item plan ih =>
    obtain ⟨hitem, hrest⟩ := List.forall_mem_cons.1 hplan
    cases item with
    | check holds => exact ih hrest h.2
    | step needed applies s d =>
      simp only [Machine.Succeeds, Machine.perform] at h ⊢
      split_ifs at h ⊢
      · exact (noFailure_act fun he => h.1 (hitem he)).trans (ih hrest h.2)
      · exact ih hrest h

/-! ### The plans are strict -/

theorem strict_nil : Strict [] := fun _ h => absurd h List.not_mem_nil

theorem strict_check {holds : World → Bool} (h : Strict plan) : Strict (.check holds :: plan) :=
  List.forall_mem_cons.2 ⟨trivial, h⟩

theorem strict_needs {applies : World → Bool} {s : Step} {d : World → Data} (h : Strict plan) :
    Strict (.step true applies s d :: plan) :=
  List.forall_mem_cons.2 ⟨fun _ => rfl, h⟩

/-- A step that is not essential may be tried. -/
theorem strict_step {needed : Bool} {applies : World → Bool} {s : Step} {d : World → Data}
    (hs : s.essential = false) (h : Strict plan) : Strict (.step needed applies s d :: plan) := by
  refine List.forall_mem_cons.2 ⟨fun he => ?_, h⟩
  rw [hs] at he
  cases he

theorem strict_append (h : Strict plan) (h' : Strict plan') : Strict (plan ++ plan') :=
  List.forall_mem_append.2 ⟨h, h'⟩

theorem strict_save (path : Path) (e : World → Data) : Strict (savePlan path e) :=
  strict_needs (strict_needs strict_nil)

theorem strict_put (path : Path) (data : Text) : Strict (putPlan path data) :=
  strict_check (strict_save path _)

theorem strict_sdCard (sys : Sysfs) (map : SortedMap ℤ PartitionInfo) : Strict (sdCardPlan sys map) := by
  have htable : Strict (tablePlan sys map) := by
    apply strict_check
    apply strict_step rfl
    apply strict_step rfl
    apply strict_needs
    apply strict_step rfl
    apply strict_step rfl
    exact strict_step rfl strict_nil
  have hzero : Strict (zeroPlan map.values) := by
    intro item hitem
    obtain ⟨p, -, rfl⟩ := List.mem_map.1 hitem
    exact fun _ => rfl
  exact strict_step rfl (strict_append htable hzero)

theorem strict_unpack (image sink : Text) (s : Text → Step) : Strict (unpackPlan image sink s) :=
  strict_check (strict_needs strict_nil)

theorem strict_mount (p : PartitionInfo) : Strict (mountPlan p) :=
  strict_check (strict_check (strict_needs strict_nil))

theorem strict_partition (first : Bool) (p : PartitionInfo) : Strict (partitionPlan first p) := by
  unfold partitionPlan fileSystemPlan
  split_ifs
  · exact strict_unpack _ _ _
  · exact strict_unpack _ _ _
  · exact strict_needs strict_nil
  · have hextract := strict_append (strict_mount p) (strict_unpack p.tarball " | tar x -C /mnt2 ".toList .untar)
    exact strict_needs (strict_append hextract (strict_step rfl strict_nil))
  · exact strict_nil

theorem strict_script (os : OSInfo) : Strict (scriptPlan os) := by
  unfold scriptPlan
  split_ifs
  · exact strict_nil
  · exact strict_append (strict_put _ _) (strict_needs (strict_needs strict_nil))

theorem strict_image (installedOs : List InstalledOs) (os : OSInfo) : Strict (imagePlan installedOs os) := by
  unfold imagePlan
  cases os.partitions with
  | nil => exact strict_check strict_nil
  | cons p ps =>
    have hothers : Strict (ps.flatMap (partitionPlan false)) := by
      intro item hitem
      obtain ⟨q, -, hq⟩ := List.mem_flatMap.1 hitem
      exact strict_partition false q item hq
    have hfinish : Strict (finishPlan installedOs os) := by
      apply strict_append (strict_save _ _)
      apply strict_append (strict_step rfl strict_nil)
      apply strict_append (strict_script os)
      exact strict_step rfl (strict_save _ _)
    exact strict_append (strict_append (strict_partition true p) hothers)
      (strict_append (strict_mount p) hfinish)

theorem strict_boot (device : Text) : Strict (bootPlan device) :=
  strict_check (strict_needs (strict_put _ _))

/-! ## The report -/

variable {I : IntType} {sys : Sysfs} {mgr mgr' : InstallManager} {os os' : OSInfo}
  {p : PartitionInfo} {ps : List PartitionInfo}

/-- What `installOS` means to report: everything succeeded, `installed_os.json` lists the
operating system and no other, and its first partition is the default to boot. -/
def Installed (I : IntType) (sys : Sysfs) (mgr : InstallManager) (os : OSInfo) (m : Machine) : Prop :=
  ∃ os' mgr' p ps, prepareImage I mgr os = .ok (os', mgr') ∧ os'.partitions = p :: ps ∧
    let partitioned := m.run (partitionSDCard sys mgr'.partitionMap)
    let written := partitioned.2.run (writeImage [] os')
    let default := written.2.run written.1.2.1.setDefaultBoot
    partitioned.1 = true ∧ ImageWritten [] os' written.1 ∧ default.1 = true ∧
      NoFailure m default.2 ∧
      default.2.world.file .installedOs = some (.installedOs [os'.entry]) ∧
      default.2.world.file .defaultBootPartition = some (.text p.partitionDevice)

/-- Nothing fails behind the partition table: if the steps up to there succeed, so do
those behind it. -/
def Flawless (I : IntType) (sys : Sysfs) (mgr : InstallManager) (os : OSInfo) (m : Machine) : Prop :=
  ∀ os' mgr' p ps, prepareImage I mgr os = .ok (os', mgr') → os'.partitions = p :: ps →
    m.Succeeds (sdCardPlan sys mgr'.partitionMap) →
    (m.perform (sdCardPlan sys mgr'.partitionMap)).Succeeds
      (imagePlan [] os' ++ bootPlan p.partitionDevice)

/-- What `installOS` returns depends on nothing behind the partition table. -/
theorem installOS_fst (hprep : prepareImage I mgr os = .ok (os', mgr')) :
    (m.run (installOS I sys mgr os)).1 = (m.run (partitionSDCard sys mgr'.partitionMap)).1 := by
  unfold installOS
  rw [hprep]
  show (m.run (partitionSDCard sys mgr'.partitionMap >>= fun ok =>
    if (!ok) = true then pure false else do
      let r ← writeImage [] os'
      let _ ← r.2.1.setDefaultBoot
      return true)).1 = _
  rw [run_bind]
  cases (m.run (partitionSDCard sys mgr'.partitionMap)).1 with
  | false => rfl
  | true =>
    show ((m.run (partitionSDCard sys mgr'.partitionMap)).2.run (do
      let r ← writeImage [] os'
      let _ ← r.2.1.setDefaultBoot
      return true)).1 = true
    rw [run_bind, run_bind]
    rfl

theorem device_ne_nil (hprep : prepareImage I mgr os = .ok (os', mgr')) (hps : os'.partitions = p :: ps) :
    p.partitionDevice ≠ [] := by
  obtain ⟨p', ps', n, hps', hdev⟩ := prepareImage_first hprep
  rw [hps] at hps'
  obtain ⟨rfl, -⟩ := List.cons.inj hps'
  rw [hdev]
  exact List.append_ne_nil_of_left_ne_nil (by decide) _

/-- The image comes back with the same first device, so this becomes the default. -/
theorem written_follows {r : Bool × OSInfo × List InstalledOs} (hw : ImageWritten [] os' r)
    (hps : os'.partitions = p :: ps) (hdev : p.partitionDevice ≠ []) :
    Follows r.2.1.setDefaultBoot m (bootPlan p.partitionDevice) (· = true) := by
  obtain ⟨-, hlist, -⟩ := hw
  unfold OSInfo.vPartitionList at hlist
  rw [hps] at hlist
  obtain ⟨p', ps', hps', hp', -⟩ := List.map_eq_cons_iff.1 hlist
  rw [← hp'] at hdev ⊢
  exact setDefaultBoot_follows hps' hdev

/-- `installOS` returns `true` only if all it does succeeded, just where nothing fails
behind the partition table. -/
theorem installed_iff (I : IntType) (sys : Sysfs) (mgr : InstallManager) (os : OSInfo) (m : Machine) :
    ((m.run (installOS I sys mgr os)).1 = true → Installed I sys mgr os m) ↔
      Flawless I sys mgr os m := by
  constructor
  · intro h os' mgr' p ps hprep hps hcard
    -- the card is partitioned, so all that is reported is true, and the plans name its steps
    obtain ⟨hpart, hm₁⟩ := (partitionSDCard_follows sys mgr'.partitionMap).done hcard
    obtain ⟨os₁, mgr₁, p₁, ps₁, hprep₁, hps₁, -, hwritten, hdefault, -⟩ :=
      h ((installOS_fst hprep).trans hpart)
    obtain ⟨rfl, rfl⟩ := Prod.mk.inj (Except.ok.inj (hprep₁.symm.trans hprep))
    obtain ⟨rfl, rfl⟩ := List.cons.inj (hps₁.symm.trans hps)
    have himage := (writeImage_follows []).only hwritten
    have hm₂ := (writeImage_follows []).run_eq hwritten
    have hboot := (written_follows hwritten hps (device_ne_nil hprep hps)).only hdefault
    rw [hm₂] at hboot
    rw [hm₁] at himage hboot
    exact (succeeds_append _ _).2 ⟨himage, hboot⟩
  · intro h hok
    cases hprep : prepareImage I mgr os with
    | error e =>
      unfold installOS at hok
      rw [hprep] at hok
      cases hok
    | ok r =>
      obtain ⟨os', mgr'⟩ := r
      obtain ⟨p, ps, n, hps, hdev⟩ := prepareImage_first hprep
      -- each stage runs as planned, on the machine the one before it leaves
      have hpart : (m.run (partitionSDCard sys mgr'.partitionMap)).1 = true :=
        (installOS_fst hprep).symm.trans hok
      have hcard := (partitionSDCard_follows sys mgr'.partitionMap).only hpart
      have hm₁ := (partitionSDCard_follows sys mgr'.partitionMap).run_eq hpart
      obtain ⟨himage, hboot⟩ := (succeeds_append _ _).1 (h os' mgr' p ps hprep hps hcard)
      rw [← hm₁] at himage hboot
      obtain ⟨hwritten, hm₂⟩ := (writeImage_follows []).done himage
      rw [← hm₂] at hboot
      obtain ⟨hdefault, hm₃⟩ := (written_follows hwritten hps (device_ne_nil hprep hps)).done hboot
      refine ⟨os', mgr', p, ps, hprep, hps, hpart, hwritten, hdefault, ?_, ?_, ?_⟩
      · have hlog₁ := perform_noFailure (strict_sdCard _ _) hcard
        have hlog₂ := perform_noFailure (strict_image _ _) himage
        have hlog₃ := perform_noFailure (strict_boot _) hboot
        rw [← hm₁] at hlog₁
        rw [← hm₂] at hlog₂
        rw [← hm₃] at hlog₃
        exact (hlog₁.trans hlog₂).trans hlog₃
      · rw [hm₃, (bootPlan_files hboot).2 _ (by decide), hm₂, imagePlan_file himage]
        rfl
      · rw [hm₃, (bootPlan_files hboot).1, hdev, toAscii_device]

/-- The client is told of a success just when `installOS` reports one. -/
theorem installOSREST_code (autoReboot : Bool) :
    (m.run (installOSREST I sys autoReboot (some os))).1.code = 200 ↔
      ((m.run newInstallManager).2.run (installOS I sys (.new I sys) os)).1 = true := by
  unfold installOSREST
  rw [run_bind, run_bind]
  cases ((m.run newInstallManager).2.run (installOS I sys (.new I sys) os)).1 with
  | false => exact iff_of_false (fun h => by cases h) Bool.false_ne_true
  | true => cases autoReboot <;> exact iff_of_true rfl rfl

/-- **A reported success is a real one** just where nothing fails behind the partition
table, for `installOS` and for the answer 200 its client gets. -/
theorem success_is_real_iff (I : IntType) (sys : Sysfs) (os : OSInfo) (m : Machine) :
    (∀ mgr, ((m.run (installOS I sys mgr os)).1 = true → Installed I sys mgr os m) ↔
      Flawless I sys mgr os m) ∧
    ∀ autoReboot, ((m.run (installOSREST I sys autoReboot (some os))).1.code = 200 →
        Installed I sys (.new I sys) os (m.run newInstallManager).2) ↔
      Flawless I sys (.new I sys) os (m.run newInstallManager).2 := by
  refine ⟨fun mgr => installed_iff I sys mgr os m, fun autoReboot => ?_⟩
  rw [installOSREST_code]
  exact installed_iff I sys _ os _

/-- A machine on which nothing fails but `mkfs`. -/
def noMkfs : Machine :=
  { outcome := fun s _ => match s with
      | .mkfs _ _ => { ok := false }
      | _ => { ok := true } }

def smallCard : Sysfs :=
  { startP1 := 8192, sizeP1 := 204800, startP5 := 221184, sizeP5 := 65534, totalSectors := 7744512 }

def smallOs : OSInfo :=
  { name := "Raspbian".toList
    partitions := [{ fsType := "ext4".toList, partitionSizeNominal := 62,
                     tarball := "http://downloads/root.tar.xz".toList }] }

/-- The client is told that the operating system was installed. Nothing was, and what is
booted by default is not even formatted. -/
theorem failure_reported_as_success :
    let r := noMkfs.run (installOSREST int32 smallCard false (some smallOs))
    r.1.code = 200 ∧ r.2.world.file .installedOs = none ∧
      r.2.world.file .defaultBootPartition = some (.text "/dev/mmcblk0p6".toList) := by
  decide

end Noobs
