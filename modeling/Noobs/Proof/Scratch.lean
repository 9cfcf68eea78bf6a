import Noobs.Proof.Crash

/-!
# What a failed image write leaves behind

`writeImage` mounts partitions on `/mnt2` and writes the partition setup script to
`/tmp`. Each partition is unmounted on every path, but the final mount of the first one
is undone on the last path only, and by a function that knows nothing of the partition:
its record says `/mnt2` for ever.

* `writeImage_leaves`: the three ways in which `writeImage` ends.
* `scratch_free_iff`: so **nothing is left behind** just where the first partition does
  not get to its final mount, and in images that were wrongly recorded before.
-/

namespace Noobs

open Prog

variable {m m₁ m₂ : Machine} {p : PartitionInfo} {ps : List PartitionInfo} {os : OSInfo}
  {installedOs : List InstalledOs}

/-! ## Scratch state -/

/-- The same is mounted on `/mnt2`, the script is the same, and what fails does. -/
structure SameScratch (m m' : Machine) : Prop where
  outcome : m'.outcome = m.outcome
  mounted : m'.world.mounted = m.world.mounted
  script : m'.world.file .partitionSetup = m.world.file .partitionSetup

theorem SameScratch.refl (m : Machine) : SameScratch m m := ⟨rfl, rfl, rfl⟩

theorem SameScratch.trans (h : SameScratch m m₁) (h' : SameScratch m₁ m₂) : SameScratch m m₂ :=
  ⟨h'.outcome.trans h.outcome, h'.mounted.trans h.mounted, h'.script.trans h.script⟩

/-- The step mounts or unmounts. -/
def Step.Mounts (s : Step) : Prop := (∃ device command, s = .mount device command) ∨ ∃ dir, s = .umount dir

/-- The step concerns scratch state. -/
def Step.Scratch (s : Step) : Prop := s.On .partitionSetup ∨ s.Mounts

theorem mounted_act_of_not {s : Step} (h : ¬s.Mounts) (d : Data) :
    (m.act s d).2.world.mounted = m.world.mounted := by
  rw [mounted_act]
  cases s with
  | mount device command => exact absurd (Or.inl ⟨device, command, rfl⟩) h
  | umount dir => exact absurd (Or.inr ⟨dir, rfl⟩) h
  | _ => rfl

/-- Only steps on the script change it. -/
theorem script_act_of_not {s : Step} (h : ¬s.On .partitionSetup) (d : Data) :
    (m.act s d).2.world.file .partitionSetup = m.world.file .partitionSetup := by
  have hne : ∀ q, s.On q → Path.partitionSetup ≠ q := by
    rintro q hq rfl
    exact h hq
  cases s with
  | remove q => exact file_act_of_ne (Or.inl rfl) (hne q (Or.inl rfl))
  | openFile q => exact file_act_of_ne (Or.inr (Or.inl rfl)) (hne q (Or.inr (Or.inl rfl)))
  | writeFile q => exact file_act_of_ne (Or.inr (Or.inr rfl)) (hne q (Or.inr (Or.inr rfl)))
  | mountSystem dir =>
    show (if _ then _ else m.world : World).file _ = _
    split_ifs <;> rfl
  | umount dir =>
    show (if _ then _ else if _ then _ else m.world : World).file _ = _
    split_ifs <;> rfl
  | mount device command =>
    show (if _ then _ else m.world : World).file _ = _
    split_ifs <;> rfl
  | sfdisk =>
    cases d with
    | text table =>
      show (if _ then _ else m.world : World).file _ = _
      split_ifs <;> rfl
    | _ => rfl
  | _ => rfl

theorem sameScratch_act {s : Step} (h : ¬s.Scratch) (d : Data) : SameScratch m (m.act s d).2 :=
  ⟨rfl, mounted_act_of_not (fun hs => h (Or.inr hs)) d, script_act_of_not (fun hs => h (Or.inl hs)) d⟩

/-! ## Programs that concern no scratch state -/

variable {α : Type} {q : Sys α} {Q : α → Prop} {bad : Step → Prop}

theorem sameScratch_run (h : q.Sat (Call.Avoids Step.Scratch) Q) (m : Machine) :
    SameScratch m (m.run q).2 :=
  (throughout_avoids h (fun _ _ d hs hx => hx.trans (sameScratch_act hs d)) (SameScratch.refl m)).run

theorem mounted_run (h : q.Sat (Call.Avoids Step.Mounts) Q) (m : Machine) :
    (m.run q).2.world.mounted = m.world.mounted := by
  have hstays : q.Throughout serve (fun x => x.world.mounted = m.world.mounted) m :=
    throughout_avoids h (fun _ _ d hs hx => (mounted_act_of_not hs d).trans hx) rfl
  exact hstays.run

/-- Whatever a program does, the outcomes of its steps are what they were. -/
theorem outcome_run (q : Sys α) (m : Machine) : (m.run q).2.outcome = m.outcome := by
  have hstays : q.Throughout serve (fun x => x.outcome = m.outcome) m :=
    throughout_avoids (avoids_nothing q) (fun _ _ _ _ hx => hx) rfl
  exact hstays.run

theorem unpack_avoids {image sink : Text} {s : Text → Step} (h : ∀ t, ¬bad (s t)) :
    (unpack image sink s).Sat (Call.Avoids bad) fun _ => True := by
  unfold unpack
  cases imageCommand image sink with
  | none => exact sat_pure trivial
  | some command => exact avoids_act (h command)

theorem patchConfigTxt_avoids (h : ¬bad .appendConfig) :
    patchConfigTxt.Sat (Call.Avoids bad) fun _ => True :=
  sat_bind avoids_ask fun _ _ => sat_bind (avoids_act h) fun _ _ => sat_pure trivial

theorem scriptArguments_avoids (pnr : ℕ) (ps : List PartitionInfo) :
    (scriptArguments pnr ps).Sat (Call.Avoids bad) fun _ => True := by
  induction ps generalizing pnr with
  | nil => exact sat_pure trivial
  | cons p ps ih =>
    rw [scriptArguments]
    refine sat_bind avoids_ask fun _ _ => sat_bind avoids_ask fun _ _ => ?_
    exact sat_bind (ih _) fun _ _ => sat_pure trivial

theorem runSetupScript_mounts : (runSetupScript os).Sat (Call.Avoids Step.Mounts) fun _ => True := by
  unfold runSetupScript
  split_ifs
  · exact sat_pure trivial
  refine sat_guard trivial (putFileContents_avoids (by simp [Step.Mounts]) (by simp [Step.Mounts])) ?_
  refine sat_bind (scriptArguments_avoids _ _) fun _ _ => ?_
  exact sat_guard trivial (avoids_act (by simp [Step.Mounts])) (avoids_act (by simp [Step.Mounts]))

/-! ## Writing the partitions -/

/-- Unmounting `/mnt2` succeeds, and so does the removal of the script. -/
structure Restorable (m : Machine) : Prop where
  umount : ∀ n, (m.outcome (.umount mnt2) n).ok = true
  remove : ∀ n, (m.outcome (.remove .partitionSetup) n).ok = true

theorem Restorable.congr (h : Restorable m) (heq : m₁.outcome = m.outcome) : Restorable m₁ := by
  constructor
  · rw [heq]
    exact h.umount
  · rw [heq]
    exact h.remove

/-- A mount that fails changes nothing; one that succeeds puts the device on top. -/
theorem mountPartition_scratch (p : PartitionInfo) (m : Machine) :
    ((m.run (p.mountPartition mnt2)).1 = (false, p) ∧ SameScratch m (m.run (p.mountPartition mnt2)).2) ∨
      (Mounted p (m.run (p.mountPartition mnt2)).1 ∧
        (m.run (p.mountPartition mnt2)).2.world.mounted = p.partitionDevice :: m.world.mounted ∧
        (m.run (p.mountPartition mnt2)).2.world.file .partitionSetup = m.world.file .partitionSetup) := by
  unfold PartitionInfo.mountPartition
  split_ifs with hdir hdev
  · exact Or.inl ⟨rfl, SameScratch.refl m⟩
  · exact Or.inl ⟨rfl, SameScratch.refl m⟩
  have hmounted := mounted_act (m := m) (.mount p.partitionDevice (p.mountCMD mnt2)) .empty
  have hscript := script_act_of_not (m := m) (s := .mount p.partitionDevice (p.mountCMD mnt2))
    (by simp [Step.On]) .empty
  rw [run_act_bind]
  cases hok : (m.act (.mount p.partitionDevice (p.mountCMD mnt2)) .empty).1 with
  | false =>
    have hnext : (m.next (.mount p.partitionDevice (p.mountCMD mnt2))).ok = false := hok
    refine Or.inl ⟨rfl, ⟨rfl, hmounted.trans ?_, hscript⟩⟩
    rw [hnext]
    rfl
  | true =>
    have hnext : (m.next (.mount p.partitionDevice (p.mountCMD mnt2))).ok = true := hok
    refine Or.inr ⟨⟨rfl, not_not.1 hdir⟩, hmounted.trans ?_, hscript⟩
    rw [hnext]
    rfl

/-- Unmounting takes away what was mounted last. -/
theorem umount_scratch {device : Text} (h : Restorable m)
    (hmounted : m.world.mounted = device :: m₁.world.mounted)
    (hscript : m.world.file .partitionSetup = m₁.world.file .partitionSetup)
    (houtcome : m.outcome = m₁.outcome) :
    (m.act (.umount mnt2) .empty).1 = true ∧ SameScratch m₁ (m.act (.umount mnt2) .empty).2 := by
  have hok : (m.next (.umount mnt2)).ok = true := h.umount _
  refine ⟨hok, houtcome, ?_, (script_act_of_not (by simp [Step.On]) _).trans hscript⟩
  rw [mounted_act, hok, hmounted]
  rfl

/-- Formatting a partition and extracting to it mounts it and unmounts it again. -/
theorem makeFileSystem_scratch (h : Restorable m) (p : PartitionInfo) :
    (m.run (makeFileSystem p)).1.2 = p ∧ SameScratch m (m.run (makeFileSystem p)).2 := by
  have hmkfs : SameScratch m (m.run (mkfs p.partitionDevice p.fsType p.label p.mkfsOptions)).2 :=
    sameScratch_act (by simp [Step.Scratch, Step.On, Step.Mounts]) _
  unfold makeFileSystem
  rw [run_bind]
  generalize m.run (mkfs p.partitionDevice p.fsType p.label p.mkfsOptions) = r at hmkfs ⊢
  obtain ⟨made, m₁⟩ := r
  cases made with
  | false => exact ⟨rfl, hmkfs⟩
  | true =>
    simp only [Bool.not_true, Bool.false_eq_true, if_false]
    split_ifs
    · exact ⟨rfl, hmkfs⟩
    · exact ⟨rfl, hmkfs⟩
    have hmount := mountPartition_scratch p m₁
    have houtcome := outcome_run (p.mountPartition mnt2) m₁
    rw [run_bind]
    generalize m₁.run (p.mountPartition mnt2) = r at hmount houtcome ⊢
    obtain ⟨⟨mounted, p'⟩, m₂⟩ := r
    rcases hmount with ⟨heq, hsame⟩ | ⟨⟨heq, hdir⟩, hmounted, hscript⟩
    · obtain ⟨rfl, rfl⟩ := Prod.mk.inj heq
      exact ⟨rfl, hmkfs.trans hsame⟩
    obtain ⟨rfl, rfl⟩ := Prod.mk.inj heq
    simp only [Bool.not_true, Bool.false_eq_true, if_false]
    -- unpacking leaves the mount alone, and the umount takes it back
    have huntar := sameScratch_run (q := untar p.tarball)
      (unpack_avoids fun t => by simp [Step.Scratch, Step.On, Step.Mounts]) m₂
    rw [run_bind]
    generalize m₂.run (untar p.tarball) = r at huntar ⊢
    obtain ⟨extracted, m₃⟩ := r
    have hm₃ : m₃.outcome = m₁.outcome := huntar.outcome.trans houtcome
    obtain ⟨hok, hsame⟩ := umount_scratch (h.congr (hm₃.trans hmkfs.outcome))
      (huntar.mounted.trans hmounted) (huntar.script.trans hscript) hm₃
    rw [run_unmount, hok]
    refine ⟨?_, hmkfs.trans hsame⟩
    simp only [if_true, ← hdir]

theorem writePartition_scratch (h : Restorable m) (p : PartitionInfo) :
    (m.run (writePartition p)).1.2 = p ∧ SameScratch m (m.run (writePartition p)).2 := by
  have hscratch : ∀ {image sink : Text} {s : Text → Step}, (∀ t, ¬(s t).Scratch) →
      SameScratch m (m.run (unpack image sink s)).2 := fun hs => sameScratch_run (unpack_avoids hs) m
  unfold writePartition
  rw [run_bind, run_checkLabel]
  split_ifs
  · rw [run_bind]
    exact ⟨rfl, hscratch fun t => by simp [Step.Scratch, Step.On, Step.Mounts]⟩
  · rw [run_bind]
    exact ⟨rfl, hscratch fun t => by simp [Step.Scratch, Step.On, Step.Mounts]⟩
  · exact makeFileSystem_scratch h p
  · exact ⟨rfl, SameScratch.refl m⟩

/-- **Writing the partitions leaves nothing behind**, whether it succeeds or not. -/
theorem writePartitions_scratch (h : Restorable m) (ps : List PartitionInfo) :
    (m.run (writePartitions ps)).1.2 = ps ∧ SameScratch m (m.run (writePartitions ps)).2 := by
  induction ps generalizing m with
  | nil => exact ⟨rfl, SameScratch.refl m⟩
  | cons p ps ih =>
    have hfirst := writePartition_scratch h p
    rw [writePartitions, run_bind]
    generalize m.run (writePartition p) = r at hfirst ⊢
    obtain ⟨⟨written, p'⟩, m₁⟩ := r
    obtain ⟨hp, hsame⟩ := hfirst
    obtain rfl : p' = p := hp
    cases written with
    | false => exact ⟨rfl, hsame⟩
    | true =>
      obtain ⟨hps, hrest⟩ := ih (h.congr hsame.outcome)
      show (m₁.run (writePartitions ps >>= fun r => pure (r.1, p' :: r.2))).1.2 = p' :: ps ∧
        SameScratch m (m₁.run (writePartitions ps >>= fun r => pure (r.1, p' :: r.2))).2
      rw [run_bind]
      exact ⟨congrArg (List.cons p') hps, hsame.trans hrest⟩

/-! ## Behind the final mount -/

theorem setUpImage_mounted (os : OSInfo) (m : Machine) :
    (m.run (setUpImage os)).2.world.mounted = m.world.mounted := by
  refine mounted_run (Q := fun _ => True) ?_ m
  refine sat_bind avoids_ask fun conf _ => ?_
  refine sat_guard trivial (saveToFile_avoids (by simp [Step.Mounts]) (by simp [Step.Mounts])) ?_
  exact sat_bind (patchConfigTxt_avoids (by simp [Step.Mounts])) fun _ _ => runSetupScript_mounts

/-- A script that was set up is not there, and was not before. -/
theorem runSetupScript_script (h : Restorable m) (hok : (m.run (runSetupScript os)).1 = true) :
    (m.run (runSetupScript os)).2.world.file .partitionSetup = m.world.file .partitionSetup := by
  have hplan := runSetupScript_follows.only hok
  rw [runSetupScript_follows.run_eq hok]
  unfold scriptPlan at hplan ⊢
  split_ifs at hplan ⊢
  · rfl
  obtain ⟨⟨habsent, -⟩, -⟩ := (succeeds_append _ _).1 hplan
  rw [Option.isNone_iff_eq_none.1 habsent, perform_append]
  -- the plan ends with the removal
  generalize hm₁ : m.perform (putPlan .partitionSetup os.partitionSetupScript) = m₁
  have houtcome : m₁.outcome = m.outcome := by
    rw [← hm₁]
    rfl
  refine (file_act_on _ .partitionSetup .empty).1.trans (if_pos ?_)
  exact (h.congr houtcome).remove _

theorem setUpImage_script (h : Restorable m) (hok : (m.run (setUpImage os)).1 = true) :
    (m.run (setUpImage os)).2.world.file .partitionSetup = m.world.file .partitionSetup := by
  unfold setUpImage at hok ⊢
  rw [run_ask_bind] at hok ⊢
  have hsave := sameScratch_run (Q := fun _ => True) (q := saveToFile .osConfig (.osConfig (os.config m.world.conf)))
    (saveToFile_avoids (by simp [Step.Scratch, Step.On, Step.Mounts])
      (by simp [Step.Scratch, Step.On, Step.Mounts])) m
  obtain ⟨-, hrun⟩ := Prog.run_guard serve hok
  change Machine.run m _ = _ at hrun
  rw [hrun] at hok ⊢
  have hpatch := sameScratch_run (Q := fun _ => True) (q := patchConfigTxt)
    (patchConfigTxt_avoids (by simp [Step.Scratch, Step.On, Step.Mounts]))
    (m.run (saveToFile .osConfig (.osConfig (os.config m.world.conf)))).2
  have hsame := hsave.trans hpatch
  rw [Prog.run_bind] at hok ⊢
  exact (runSetupScript_script (h.congr hsame.outcome) hok).trans hsame.script

/-- Once the script has run, the first partition is unmounted. Before, it stays mounted. -/
theorem finishImage_scratch (installedOs : List InstalledOs) (os : OSInfo) {device : Text}
    (h : Restorable m₁) (houtcome : m₁.outcome = m.outcome)
    (hmounted : m₁.world.mounted = device :: m.world.mounted)
    (hscript : m₁.world.file .partitionSetup = m.world.file .partitionSetup) :
    (¬m₁.Succeeds (setUpPlan os) ∧
        (m₁.run (finishImage installedOs os)).2.world.mounted = device :: m.world.mounted) ∨
      (m₁.Succeeds (setUpPlan os) ∧ SameScratch m (m₁.run (finishImage installedOs os)).2) := by
  have hfollows := @setUpImage_follows m₁ os
  have hsetUp := setUpImage_mounted os m₁
  have hrun := @setUpImage_script m₁ os h
  have hsame := outcome_run (setUpImage os) m₁
  rw [finishImage_eq, run_bind]
  cases hok : (m₁.run (setUpImage os)).1 with
  | false =>
    refine Or.inl ⟨fun hplan => ?_, hsetUp.trans hmounted⟩
    rw [(hfollows.done hplan).1] at hok
    cases hok
  | true =>
    refine Or.inr ⟨hfollows.only hok, ?_⟩
    generalize (m₁.run (setUpImage os)).2 = m₂ at hsetUp hrun hsame ⊢
    -- `umount` undoes the final mount
    have hm₂ : m₂.outcome = m.outcome := hsame.trans houtcome
    have hscript₂ := (hrun hok).trans hscript
    obtain ⟨-, humount⟩ := umount_scratch (h.congr hsame) (hsetUp.trans hmounted) hscript₂ hm₂
    have hsave := sameScratch_run (Q := fun _ => True)
      (q := saveToFile .installedOs (.installedOs (installedOs ++ [os.entry])))
      (saveToFile_avoids (by simp [Step.Scratch, Step.On, Step.Mounts])
        (by simp [Step.Scratch, Step.On, Step.Mounts])) (m₂.act (.umount mnt2) .empty).2
    unfold enterImage
    rw [if_neg (by simp), run_act_bind, run_bind]
    exact humount.trans hsave

/-! ## The whole image -/

/-- The steps up to the final mount of the first partition. -/
def finalMountPlan (os : OSInfo) : List Item :=
  match os.partitions with
  | [] => [.check fun _ => false]
  | p :: ps => partitionsPlan (p :: ps) ++ mountPlan p

/-- The partitions as the final mount records them. -/
def OSInfo.mountedFirst (os : OSInfo) : List PartitionInfo :=
  os.partitions.modifyHead fun p => { p with mountedDir := mnt2 }

/-- An image without partitions is refused. -/
theorem writeImage_nil (hps : os.partitions = []) (m : Machine) (installedOs : List InstalledOs) :
    m.run (writeImage installedOs os) = ((false, os, installedOs), m) := by
  unfold writeImage
  rw [hps]
  show ((false, { os with partitions := [] }, installedOs), m) = _
  rw [← hps]

/-- The setup of an image is about the devices of its partitions only. -/
theorem setUpPlan_mountedFirst (os : OSInfo) :
    setUpPlan { os with partitions := os.mountedFirst } = setUpPlan os := by
  have hlist : OSInfo.vPartitionList { os with partitions := os.mountedFirst } = os.vPartitionList := by
    unfold OSInfo.vPartitionList OSInfo.mountedFirst
    cases os.partitions <;> rfl
  unfold setUpPlan OSInfo.config
  rw [hlist]
  rfl

/-- Either the plan of the partitions succeeds, or `writePartitions` reports a failure. -/
theorem writePartitions_plan (h : Restorable m) (ps : List PartitionInfo) :
    (¬m.Succeeds (partitionsPlan ps) ∧ (m.run (writePartitions ps)).1 = (false, ps)) ∨
      (m.Succeeds (partitionsPlan ps) ∧ (m.run (writePartitions ps)).1 = (true, ps) ∧
        (m.run (writePartitions ps)).2 = m.perform (partitionsPlan ps)) := by
  have hps : (m.run (writePartitions ps)).1.2 = ps := (writePartitions_scratch h ps).1
  have hfollows := @writePartitions_follows m ps
  cases hwritten : (m.run (writePartitions ps)).1.1 with
  | false =>
    refine Or.inl ⟨fun hs => ?_, Prod.ext hwritten hps⟩
    have hdone := (hfollows.done hs).1.1
    rw [hwritten] at hdone
    cases hdone
  | true =>
    have hall : AllWritten true ps (m.run (writePartitions ps)).1 :=
      ⟨hwritten, by rw [hps], fun _ => by rw [hps]⟩
    exact Or.inr ⟨hfollows.only hall, Prod.ext hwritten hps, hfollows.run_eq hall⟩

/-- Either the plan of the mount succeeds, or `mountPartition` reports a failure. -/
theorem mountPartition_plan (p : PartitionInfo) (m : Machine) :
    (¬m.Succeeds (mountPlan p) ∧ (m.run (p.mountPartition mnt2)).1 = (false, p) ∧
        SameScratch m (m.run (p.mountPartition mnt2)).2) ∨
      (m.Succeeds (mountPlan p) ∧ (m.run (p.mountPartition mnt2)).1 = (true, { p with mountedDir := mnt2 }) ∧
        (m.run (p.mountPartition mnt2)).2 = m.perform (mountPlan p) ∧
        (m.run (p.mountPartition mnt2)).2.world.mounted = p.partitionDevice :: m.world.mounted ∧
        (m.run (p.mountPartition mnt2)).2.world.file .partitionSetup = m.world.file .partitionSetup) := by
  have hfollows := @mountPartition_follows m p
  rcases mountPartition_scratch p m with ⟨hfailed, hsame⟩ | ⟨hmounted, htop, hscript⟩
  · refine Or.inl ⟨fun hs => ?_, hfailed, hsame⟩
    have hdone := (hfollows.done hs).1.1
    rw [hfailed] at hdone
    cases hdone
  · exact Or.inr ⟨hfollows.only hmounted, hmounted.1, hfollows.run_eq hmounted, htop, hscript⟩

/-- **How `writeImage` ends**: short of the final mount, with the first partition mounted,
or behind the script. -/
theorem writeImage_leaves (h : Restorable m) (installedOs : List InstalledOs) (os : OSInfo) :
    let r := m.run (writeImage installedOs os)
    (¬m.Succeeds (finalMountPlan os) ∧ r.1.2.1.partitions = os.partitions ∧ SameScratch m r.2) ∨
      (m.Succeeds (finalMountPlan os) ∧ ¬m.Succeeds (finalMountPlan os ++ setUpPlan os) ∧
        ∃ device, r.2.world.mounted = device :: m.world.mounted) ∨
      (m.Succeeds (finalMountPlan os ++ setUpPlan os) ∧ r.1.2.1.partitions = os.mountedFirst ∧
        SameScratch m r.2) := by
  intro r
  have hr : r = m.run (writeImage installedOs os) := rfl
  cases hparts : os.partitions with
  | nil =>
    rw [writeImage_nil hparts] at hr
    refine Or.inl ⟨?_, ?_, ?_⟩
    · unfold finalMountPlan
      rw [hparts]
      exact fun hplan => Bool.false_ne_true hplan.1
    · rw [hr, hparts]
    · rw [hr]
      exact SameScratch.refl m
  | cons p ps =>
    have hplan : finalMountPlan os = partitionsPlan (p :: ps) ++ mountPlan p := by
      unfold finalMountPlan
      rw [hparts]
    have hfirst : os.mountedFirst = { p with mountedDir := mnt2 } :: ps := by
      unfold OSInfo.mountedFirst
      rw [hparts]
      rfl
    have hsetUp := setUpPlan_mountedFirst os
    rw [hfirst] at hsetUp
    rw [hplan, hfirst, succeeds_append (partitionsPlan (p :: ps) ++ mountPlan p), succeeds_append, perform_append]
    -- the partitions
    have hsame := (writePartitions_scratch h (p :: ps)).2
    have hwrite := writePartitions_plan h (p :: ps)
    unfold writeImage at hr
    rw [run_bind, hparts] at hr
    generalize m.run (writePartitions (p :: ps)) = r₁ at hr hsame hwrite
    obtain ⟨_, m₁⟩ := r₁
    rcases hwrite with ⟨hfailed, rfl⟩ | ⟨hwritten, rfl, rfl⟩
    · rw [hr]
      exact Or.inl ⟨fun hs => hfailed hs.1, rfl, hsame⟩
    -- the final mount
    have hmount := mountPartition_plan p (m.perform (partitionsPlan (p :: ps)))
    have houtcome := outcome_run (p.mountPartition mnt2) (m.perform (partitionsPlan (p :: ps)))
    change r = Machine.run _ (p.mountPartition mnt2 >>= _) at hr
    rw [run_bind] at hr
    generalize (m.perform (partitionsPlan (p :: ps))).run (p.mountPartition mnt2) = r₂ at hr hmount houtcome
    obtain ⟨_, m₂⟩ := r₂
    rcases hmount with ⟨hfailed, rfl, hfree⟩ | ⟨hmounted, rfl, hm₂, htop, hscript⟩
    · rw [hr]
      exact Or.inl ⟨fun hs => hfailed hs.2, rfl, hsame.trans hfree⟩
    -- what is behind it
    change m₂ = _ at hm₂
    rw [← hm₂, ← hsetUp]
    have houtcome₂ : m₂.outcome = m.outcome := houtcome.trans hsame.outcome
    have hends := finishImage_scratch installedOs { os with partitions := { p with mountedDir := mnt2 } :: ps }
      (h.congr houtcome₂) houtcome₂ (htop.trans (congrArg _ hsame.mounted)) (hscript.trans hsame.script)
    change r = m₂.run (finishImage installedOs _ >>= _) at hr
    rw [run_bind] at hr
    rw [hr]
    rcases hends with ⟨hfailed, hstays⟩ | ⟨hdone, hfree⟩
    · exact Or.inr (Or.inl ⟨⟨hwritten, hmounted⟩, fun hs => hfailed hs.2, _, hstays⟩)
    · exact Or.inr (Or.inr ⟨⟨⟨hwritten, hmounted⟩, hdone⟩, rfl, hfree⟩)

/-! ## Nothing left behind -/

/-- The records of the partitions say which of them are mounted. -/
def RecordsRight (mounted : List Text) (ps : List PartitionInfo) : Prop :=
  ∀ p ∈ ps, p.mountedDir = [] ↔ p.partitionDevice ∉ mounted

/-- Between `m` and `m'`, nothing stayed mounted, the partitions are recorded as they
are, and there is no setup script. -/
structure ScratchFree (m : Machine) (ps : List PartitionInfo) (m' : Machine) : Prop where
  mounted : m'.world.mounted = m.world.mounted
  records : RecordsRight m'.world.mounted ps
  script : m'.world.file .partitionSetup = none

/-- **`writeImage` leaves nothing behind** just where there was no script, and the first
partition does not get to its final mount, with the records right before; or where it
gets behind its script, with the records right but for the first partition's, which is
right if it says `/mnt2`. -/
theorem scratch_free_iff (humount : ∀ n, (m.outcome (.umount mnt2) n).ok = true)
    (hremove : ∀ n, (m.outcome (.remove .partitionSetup) n).ok = true)
    (installedOs : List InstalledOs) (os : OSInfo) :
    ScratchFree m (m.run (writeImage installedOs os)).1.2.1.partitions
        (m.run (writeImage installedOs os)).2 ↔
      m.world.file .partitionSetup = none ∧
        (¬m.Succeeds (finalMountPlan os) ∧ RecordsRight m.world.mounted os.partitions ∨
          m.Succeeds (finalMountPlan os ++ setUpPlan os) ∧
            RecordsRight m.world.mounted os.mountedFirst) := by
  have hsub : m.Succeeds (finalMountPlan os ++ setUpPlan os) → m.Succeeds (finalMountPlan os) :=
    fun hs => ((succeeds_append _ _).1 hs).1
  rcases writeImage_leaves ⟨humount, hremove⟩ installedOs os with
    ⟨hshort, hps, hsame⟩ | ⟨hreached, hnot, device, hstays⟩ | ⟨hdone, hps, hsame⟩
  · rw [hps]
    constructor
    · rintro ⟨-, hrecords, hscript⟩
      rw [hsame.mounted] at hrecords
      -- it stopped by the final mount: all is as before
      exact ⟨hsame.script.symm.trans hscript, Or.inl ⟨hshort, hrecords⟩⟩
    · rintro ⟨hscript, ⟨-, hrecords⟩ | ⟨hdone, -⟩⟩
      · rw [← hsame.mounted] at hrecords
        exact ⟨hsame.mounted, hrecords, hsame.script.trans hscript⟩
      · exact absurd (hsub hdone) hshort
  · constructor
    · rintro ⟨hmounted, -, -⟩
      -- it stopped behind the mount: a partition stays mounted
      rw [hstays] at hmounted
      exact absurd hmounted (List.cons_ne_self _ _)
    · rintro ⟨-, ⟨hshort, -⟩ | ⟨hdone, -⟩⟩
      · exact absurd hreached hshort
      · exact absurd hdone hnot
  · rw [hps]
    constructor
    · rintro ⟨-, hrecords, hscript⟩
      rw [hsame.mounted] at hrecords
      -- it got to its end, and does not clear the first partition's record
      exact ⟨hsame.script.symm.trans hscript, Or.inr ⟨hdone, hrecords⟩⟩
    · rintro ⟨hscript, ⟨hshort, -⟩ | ⟨-, hrecords⟩⟩
      · exact absurd (hsub hdone) hshort
      · rw [← hsame.mounted] at hrecords
        exact ⟨hsame.mounted, hrecords, hsame.script.trans hscript⟩

/-- An operating system with a setup script, ready to be written. -/
def scriptedOs : OSInfo :=
  { name := "Raspbian".toList
    partitions := [{ fsType := "ext4".toList, partitionDevice := "/dev/mmcblk0p6".toList,
                     tarball := "http://downloads/root.tar.xz".toList }]
    partitionSetupScript := "mount $part1 /tmp/1".toList }

/-- Where no file system can be made, nothing is left behind. -/
theorem demo_scratch_free : ScratchFree noMkfs (noMkfs.run (writeImage [] scriptedOs)).1.2.1.partitions
    (noMkfs.run (writeImage [] scriptedOs)).2 := by
  refine (scratch_free_iff (fun _ => rfl) (fun _ => rfl) [] scriptedOs).2 ⟨rfl, Or.inl ⟨fun h => ?_, ?_⟩⟩
  · exact Bool.false_ne_true (h.1 rfl)
  · intro p hp
    rw [List.mem_singleton.1 hp]
    exact iff_of_true rfl List.not_mem_nil

/-- A machine on which the setup script fails once, and nothing else does. -/
def brokenScript : Machine := { outcome := fun s n => { ok := decide (s ≠ .runScript ∨ n ≠ 0) } }

/-- A script that fails stays, and so does the first partition on `/mnt2`. The next
installation cannot write its script then. -/
theorem failed_script_left :
    let r := brokenScript.run (writeImage [] scriptedOs)
    (∀ n, (brokenScript.outcome (.umount mnt2) n).ok = true) ∧
      (∀ n, (brokenScript.outcome (.remove .partitionSetup) n).ok = true) ∧
      r.1.1 = false ∧ ¬ScratchFree brokenScript r.1.2.1.partitions r.2 ∧
      (r.2.run (writeImage [] scriptedOs)).1.1 = false := by
  refine ⟨fun _ => rfl, fun _ => rfl, by decide, fun h => ?_, by decide⟩
  have hmounted : (brokenScript.run (writeImage [] scriptedOs)).2.world.mounted =
      ["/dev/mmcblk0p6".toList] := by
    decide
  rw [h.mounted] at hmounted
  cases hmounted

end Noobs
