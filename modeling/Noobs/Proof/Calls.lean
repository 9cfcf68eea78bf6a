import Noobs.Proof.Check
import Noobs.Proof.Number
import Noobs.Spec.Device

/-!
# What the programs may do

For every program, whatever the system answers: what it returns, that only
`setDefaultBootPartition` writes the default boot file (`Call.Quiet`), and that what
writes the partitions works neither on the files of the settings partition nor on the
partition table (`Call.Aside`).

* `prepareImage_first`: a prepared operating system has a first partition on the card.
* `writeImage_sat`: `writeImage` gives its partitions back on their devices.
* `program_sound`: **whatever a well-formed task writes to the default boot file names a
  partition**.
-/

namespace Noobs

open Prog

variable {m : Machine} {p : PartitionInfo} {os : OSInfo}

/-! ## The devices of a prepared image -/

variable {I : IntType} {mgr mgr' : InstallManager} {os' : OSInfo}

theorem checkPartition_device {p' : PartitionInfo} (h : checkPartition I mgr p = .ok (p', mgr')) :
    ∃ n, p'.partitionDevice = devicePrefix ++ number n :=
  ⟨_, congrArg PartitionInfo.partitionDevice (checkPartition_enters h).2.1⟩

theorem pinRiscos_ne_nil {ps : List PartitionInfo} (h : ps ≠ []) : pinRiscos ps ≠ [] := by
  intro hnil
  have hlen := congrArg List.length hnil
  simp only [pinRiscos, List.length_modify, List.length_modifyHead, List.length_nil] at hlen
  exact h (List.length_eq_zero_iff.1 hlen)

theorem checkImage_partitions (h : checkImage I mgr os = .ok (os', mgr')) :
    pinned os ≠ [] ∧ ∃ m₁, checkPartitions I m₁ (pinned os) = .ok (os'.partitions, mgr') := by
  unfold checkImage at h
  unfold pinned
  by_cases hempty : os.partitions.isEmpty = true
  · rw [if_pos hempty] at h
    cases h
  have hne : os.partitions ≠ [] := fun hnil => hempty (List.isEmpty_iff.2 hnil)
  rw [if_neg hempty] at h
  split_ifs at h ⊢
  all_goals
    obtain ⟨⟨ps', m₂⟩, hcheck, heq⟩ := bind_ok.1 h
    obtain ⟨rfl, rfl⟩ := Prod.mk.inj (pure_ok.1 heq)
  · exact ⟨pinRiscos_ne_nil hne, _, hcheck⟩
  · exact ⟨hne, _, hcheck⟩

/-- **A prepared operating system has a first partition**, on a device of the SD card. -/
theorem prepareImage_first (h : prepareImage I mgr os = .ok (os', mgr')) :
    ∃ p ps n, os'.partitions = p :: ps ∧ p.partitionDevice = devicePrefix ++ number n := by
  obtain ⟨⟨os₁, m₁⟩, hcheck, hspace⟩ := bind_ok.1 h
  obtain ⟨m₂, -, heq⟩ := bind_ok.1 hspace
  obtain ⟨rfl, -⟩ := Prod.mk.inj (pure_ok.1 heq)
  obtain ⟨hne, m₃, hps⟩ := checkImage_partitions hcheck
  obtain ⟨p, ps, hpinned⟩ := List.exists_cons_of_ne_nil hne
  rw [hpinned, checkPartitions] at hps
  obtain ⟨⟨p', m₄⟩, hfirst, hps⟩ := bind_ok.1 hps
  obtain ⟨⟨ps', m₅⟩, -, heq⟩ := bind_ok.1 hps
  obtain ⟨n, hn⟩ := checkPartition_device hfirst
  exact ⟨p', ps', n, (Prod.mk.inj (pure_ok.1 heq)).1.symm, hn⟩

/-! ## Calls -/

/-- The call does not write the default boot file. -/
def Call.Quiet (c : Call) : Prop := ∀ d, c ≠ .act (.writeFile .defaultBootPartition) d

theorem sat_act {s : Step} {d : Data} (h : s ≠ .writeFile .defaultBootPartition) :
    (act s d).Sat Call.Quiet fun _ => True :=
  sat_issue (fun _ heq => h (Call.act.inj heq).1) fun _ => trivial

theorem sat_ask {q : Query} : (ask q).Sat Call.Quiet fun _ => True :=
  sat_issue (fun _ heq => by cases heq) fun _ => trivial

/-- The step works on no file of the settings partition, and is not `sfdisk`. -/
def Step.aside : Step → Bool
  | .remove path => !path.onSettings
  | .openFile path => !path.onSettings
  | .writeFile path => !path.onSettings
  | .sfdisk => false
  | _ => true

def Call.Aside : Call → Prop
  | .ask _ => True
  | .act s _ => s.aside = true

theorem aside_act {s : Step} {d : Data} (h : s.aside = true) : (act s d).Sat Call.Aside fun _ => True :=
  sat_issue h fun _ => trivial

theorem aside_ask {q : Query} : (ask q).Sat Call.Aside fun _ => True := sat_issue trivial fun _ => trivial

theorem Call.Aside.quiet {c : Call} (h : c.Aside) : c.Quiet := by
  rintro d rfl
  cases h

theorem sat_quiet {α : Type} {q : Sys α} {Q : α → Prop} (h : q.Sat Call.Aside Q) : q.Sat Call.Quiet Q :=
  h.mono (fun _ hc => hc.quiet) fun _ hQ => hQ

/-! ## What becomes of the partitions -/

/-- A partition is kept as it is, or left mounted. -/
def Kept (p p' : PartitionInfo) : Prop := p' = p ∨ p' = { p with mountedDir := mnt2 }

theorem Kept.device {p' : PartitionInfo} (h : Kept p p') : p'.partitionDevice = p.partitionDevice := by
  rcases h with rfl | rfl <;> rfl

theorem kept_devices {ps ps' : List PartitionInfo} (h : List.Forall₂ Kept ps ps') :
    ps'.map PartitionInfo.partitionDevice = ps.map PartitionInfo.partitionDevice := by
  induction h with
  | nil => rfl
  | cons hp _ ih => rw [List.map_cons, List.map_cons, hp.device, ih]

/-- A partition was mounted. -/
def Mounted (p : PartitionInfo) (r : Bool × PartitionInfo) : Prop :=
  r = (true, { p with mountedDir := mnt2 }) ∧ p.mountedDir = []

theorem mountPartition_sat : (p.mountPartition mnt2).Sat Call.Aside
    fun r => r = (false, p) ∨ Mounted p r := by
  unfold PartitionInfo.mountPartition
  split_ifs with hdir hdev
  · exact sat_pure (Or.inl rfl)
  · exact sat_pure (Or.inl rfl)
  · refine sat_bind (aside_act rfl) fun ok _ => ?_
    split_ifs
    · exact sat_pure (Or.inr ⟨rfl, not_not.1 hdir⟩)
    · exact sat_pure (Or.inl rfl)

theorem unmountPartition_sat (hdir : p.mountedDir = []) :
    ({ p with mountedDir := mnt2 }.unmountPartition).Sat Call.Aside
      fun r : Bool × PartitionInfo => Kept p r.2 := by
  unfold PartitionInfo.unmountPartition
  split_ifs
  · refine sat_bind (aside_act rfl) fun ok _ => ?_
    split_ifs
    · exact sat_pure (Or.inl (by rw [← hdir]))
    · exact sat_pure (Or.inr rfl)
  · exact sat_pure (Or.inr rfl)

theorem unpack_sat (image sink : Text) {s : Text → Step} (h : ∀ t, (s t).aside = true) :
    (unpack image sink s).Sat Call.Aside fun _ => True := by
  unfold unpack
  cases imageCommand image sink with
  | none => exact sat_pure trivial
  | some command => exact aside_act (h command)

theorem makeFileSystem_sat : (makeFileSystem p).Sat Call.Aside fun r => Kept p r.2 := by
  unfold makeFileSystem
  refine sat_bind (aside_act rfl) fun ok _ => ?_
  split_ifs
  · exact sat_pure (Or.inl rfl)
  · exact sat_pure (Or.inl rfl)
  · exact sat_pure (Or.inl rfl)
  refine sat_bind mountPartition_sat fun r hr => ?_
  rcases hr with rfl | ⟨rfl, hdir⟩
  · exact sat_pure (Or.inl rfl)
  · refine sat_bind (unpack_sat _ _ fun _ => rfl) fun extracted _ => ?_
    exact sat_bind (unmountPartition_sat hdir) fun r hr => sat_pure hr

theorem isLabelAvailable_sat (label : Text) : (isLabelAvailable label).Sat Call.Aside fun _ => True :=
  sat_bind aside_ask fun _ _ => sat_pure trivial

theorem freeLabel_sat (label : Text) (is : List ℕ) : (freeLabel label is).Sat Call.Aside fun _ => True := by
  induction is with
  | nil => exact sat_pure trivial
  | cons i is ih =>
    unfold freeLabel
    refine sat_bind (isLabelAvailable_sat _) fun available _ => ?_
    split_ifs
    · exact sat_pure trivial
    · exact ih

theorem checkLabel_sat : (checkLabel p).Sat Call.Aside fun _ => True := by
  unfold checkLabel
  split_ifs
  · exact sat_pure trivial
  refine sat_bind (isLabelAvailable_sat _) fun available _ => ?_
  split_ifs
  · exact freeLabel_sat _ _
  · exact sat_pure trivial

theorem writePartition_sat : (writePartition p).Sat Call.Aside fun r => Kept p r.2 := by
  unfold writePartition
  refine sat_bind checkLabel_sat fun _ _ => ?_
  split_ifs
  · exact sat_bind (unpack_sat _ _ fun _ => rfl) fun _ _ => sat_pure (Or.inl rfl)
  · exact sat_bind (unpack_sat _ _ fun _ => rfl) fun _ _ => sat_pure (Or.inl rfl)
  · exact makeFileSystem_sat
  · exact sat_pure (Or.inl rfl)

theorem writePartitions_sat (ps : List PartitionInfo) :
    (writePartitions ps).Sat Call.Aside fun r => List.Forall₂ Kept ps r.2 := by
  induction ps with
  | nil => exact sat_pure List.Forall₂.nil
  | cons p ps ih =>
    rw [writePartitions]
    refine sat_bind writePartition_sat fun r hr => ?_
    obtain ⟨written, p'⟩ := r
    cases written with
    | false => exact sat_pure (List.Forall₂.cons hr (List.forall₂_same.2 fun p _ => Or.inl rfl))
    | true => exact sat_bind ih fun r' hr' => sat_pure (List.Forall₂.cons hr hr')

/-! ## The rest of an installation -/

theorem saveToFile_sat {path : Path} (json : Data) (h : path ≠ .defaultBootPartition) :
    (saveToFile path json).Sat Call.Quiet fun _ => True := by
  unfold saveToFile
  refine sat_guard trivial (sat_act (by simp)) ?_
  exact sat_act fun heq => h (Step.writeFile.inj heq)

theorem saveToFile_aside {path : Path} (json : Data) (h : path.onSettings = false) :
    (saveToFile path json).Sat Call.Aside fun _ => True := by
  have haside : (!path.onSettings) = true := by rw [h]; rfl
  unfold saveToFile
  exact sat_guard trivial (aside_act haside) (aside_act haside)

theorem scriptArguments_sat (pnr : ℕ) (ps : List PartitionInfo) :
    (scriptArguments pnr ps).Sat Call.Aside fun _ => True := by
  induction ps generalizing pnr with
  | nil => exact sat_pure trivial
  | cons p ps ih =>
    rw [scriptArguments]
    refine sat_bind aside_ask fun _ _ => sat_bind aside_ask fun _ _ => ?_
    exact sat_bind (ih _) fun _ _ => sat_pure trivial

theorem runSetupScript_sat : (runSetupScript os).Sat Call.Aside fun _ => True := by
  unfold runSetupScript putFileContents
  split_ifs
  · exact sat_pure trivial
  refine sat_guard (Q := fun _ => True) trivial (sat_bind aside_ask fun present _ => ?_) ?_
  · split_ifs
    · exact sat_pure trivial
    · exact saveToFile_aside _ rfl
  · refine sat_bind (scriptArguments_sat _ _) fun _ _ => ?_
    exact sat_guard trivial (aside_act rfl) (aside_act rfl)

theorem finishImage_sat (installedOs : List InstalledOs) :
    (finishImage installedOs os).Sat Call.Quiet fun _ => True := by
  unfold finishImage patchConfigTxt
  refine sat_bind sat_ask fun conf _ => sat_bind (saveToFile_sat _ (by decide)) fun saved _ => ?_
  split_ifs
  · exact sat_pure trivial
  refine sat_bind (sat_bind sat_ask fun _ _ => sat_bind (sat_act (by simp)) fun _ _ =>
    sat_pure (Q := fun _ => True) trivial) fun _ _ => ?_
  refine sat_bind (sat_quiet runSetupScript_sat) fun prepared _ => ?_
  split_ifs
  · exact sat_pure trivial
  refine sat_bind (sat_act (by simp)) fun _ _ => ?_
  exact sat_bind (saveToFile_sat _ (by decide)) fun _ _ => sat_pure trivial

/-- **`writeImage` gives the partitions back** on the devices they were on. -/
theorem writeImage_sat (installedOs : List InstalledOs) : (writeImage installedOs os).Sat Call.Quiet
    fun r => r.2.1.vPartitionList = os.vPartitionList := by
  unfold writeImage
  refine sat_bind (sat_quiet (writePartitions_sat _)) fun r hr => ?_
  obtain ⟨written, ps⟩ := r
  have hdev := kept_devices hr
  cases written with
  | false => exact sat_pure hdev
  | true =>
    cases ps with
    | nil => exact sat_pure hdev
    | cons p ps =>
      refine sat_bind (sat_quiet mountPartition_sat) fun r hr => ?_
      rcases hr with rfl | ⟨rfl, -⟩
      · exact sat_pure hdev
      · exact sat_bind (finishImage_sat _) fun _ _ => sat_pure hdev

theorem zeroPartitions_sat (ps : List PartitionInfo) : (zeroPartitions ps).Sat Call.Aside fun _ => True := by
  induction ps with
  | nil => exact sat_pure trivial
  | cons p ps ih =>
    unfold zeroPartitions
    split_ifs
    · exact sat_guard trivial (aside_act rfl) ih
    · exact ih

theorem partitionSDCard_sat (sys : Sysfs) (map : SortedMap ℤ PartitionInfo) :
    (partitionSDCard sys map).Sat Call.Quiet fun _ => True := by
  have htable : (writePartitionTable sys map).Sat Call.Quiet fun _ => True := by
    unfold writePartitionTable
    cases partitionTable sys map with
    | error e => exact sat_pure trivial
    | ok table =>
      refine sat_bind (sat_act (by simp)) fun _ _ => sat_bind (sat_act (by simp)) fun _ _ => ?_
      refine sat_bind (sat_act (by simp)) fun _ _ => sat_bind (sat_act (by simp)) fun _ _ => ?_
      refine sat_bind (sat_act (by simp)) fun _ _ => sat_bind (sat_act (by simp)) fun _ _ => ?_
      exact sat_pure trivial
  have hrest : (writePartitionTable sys map >>= fun written =>
      if (!written) = true then pure false else zeroPartitions map.values).Sat Call.Quiet
      fun _ => True :=
    sat_guard trivial htable (sat_quiet (zeroPartitions_sat _))
  unfold partitionSDCard
  refine sat_bind sat_ask fun present _ => ?_
  split_ifs
  · exact sat_bind (sat_act (by simp)) fun _ _ => hrest
  · exact hrest

/-! ## What is written to the default boot file -/

/-- If the call writes the default boot file, then the device of a partition. -/
def Call.Sound : Call → Prop
  | .act (.writeFile .defaultBootPartition) d => ∃ text, d = .text text ∧ namesPartition text = true
  | _ => True

theorem Call.Quiet.sound {c : Call} (h : c.Quiet) : c.Sound := by
  unfold Call.Sound
  split
  · exact absurd rfl (h _)
  · trivial

theorem sat_sound {α : Type} {q : Sys α} {Q : α → Prop} (h : q.Sat Call.Quiet Q) : q.Sat Call.Sound Q :=
  h.mono (fun _ hc => hc.sound) fun _ hQ => hQ

theorem toAscii_of_namesPartition {text : Text} (h : namesPartition text = true) : toAscii text = text := by
  unfold namesPartition at h
  rw [Bool.and_eq_true] at h
  obtain ⟨t, rfl⟩ := of_decide_eq_true h.1
  obtain ⟨n, hn⟩ := Option.isSome_iff_exists.1 h.2
  rw [List.drop_left] at hn
  exact toAscii_integer hn

theorem setDefaultBootPartition_sound {text : Text} (h : namesPartition text = true) :
    (setDefaultBootPartition text).Sat Call.Sound fun _ => True := by
  have hput : (putFileContents .defaultBootPartition (toAscii text)).Sat Call.Sound fun _ => True := by
    rw [toAscii_of_namesPartition h]
    unfold putFileContents
    refine sat_bind (sat_sound sat_ask) fun present _ => ?_
    split_ifs
    · exact sat_pure trivial
    refine sat_guard trivial (sat_sound (sat_act (by simp))) ?_
    exact sat_issue ⟨text, rfl, h⟩ fun _ => trivial
  unfold namesPartition at h
  rw [Bool.and_eq_true] at h
  unfold setDefaultBootPartition
  rw [if_neg (not_not.2 (of_decide_eq_true h.1))]
  refine sat_bind (sat_sound sat_ask) fun present _ => ?_
  split_ifs
  · exact sat_bind (sat_sound (sat_act (by simp))) fun _ _ => hput
  · exact hput

theorem namesPartition_number (n : ℤ) : namesPartition (devicePrefix ++ number n) = true := by
  unfold namesPartition
  rw [List.drop_left, integer_number, decide_eq_true (List.prefix_append _ _)]
  rfl

theorem checkArguments_sound (flags : BootFlags) (args : List Text)
    (h : ∀ flag value, [flag, value] <:+: args →
      equalsInsensitive flag "-partition".toList = true → namesPartition value = true) :
    (checkArguments flags args).Sat Call.Sound fun _ => True := by
  induction args generalizing flags with
  | nil => exact sat_pure trivial
  | cons arg rest ih =>
    have hrest := fun flags => ih flags fun flag value hin =>
      h flag value (hin.trans (List.suffix_cons _ _).isInfix)
    unfold checkArguments
    split_ifs with h1 h2
    · exact hrest _
    · cases rest with
      | nil => exact hrest _
      | cons value rest =>
        have hvalue : [arg, value] <:+: arg :: value :: rest := (List.prefix_append [arg, value] rest).isInfix
        refine sat_bind (setDefaultBootPartition_sound (h arg value hvalue h2)) fun _ _ => ?_
        exact hrest _
    · exact hrest _
    · exact hrest _

theorem rebootDev_sat : rebootDev.Sat Call.Quiet
    fun r => ∀ dev ∈ r, dev = .rebootPart2709 ∨ dev = .rebootPart2708 := by
  unfold rebootDev
  refine sat_bind sat_ask fun _ _ => ?_
  split_ifs
  · exact sat_pure (by simp)
  refine sat_bind sat_ask fun _ _ => ?_
  split_ifs
  · exact sat_pure (by simp)
  · exact sat_pure (by simp)

theorem bootDevice_sat (partDevice : Text) : (bootDevice partDevice).Sat Call.Quiet fun _ => True := by
  have hreboot : (do
      let _ ← act (.execute "ifdown -a".toList)
      let _ ← act (.execute "umount -ar".toList)
      act .reboot : Sys Bool).Sat Call.Quiet fun _ => True := by
    refine sat_bind (sat_act (by simp)) fun _ _ => sat_bind (sat_act (by simp)) fun _ _ => ?_
    exact sat_act (by simp)
  unfold bootDevice
  cases partitionNumberOf partDevice with
  | none => exact sat_pure trivial
  | some n =>
    refine sat_bind rebootDev_sat fun r hr => ?_
    cases r with
    | none => exact sat_pure trivial
    | some dev =>
      have hdev : dev ≠ .defaultBootPartition := by
        rcases hr dev rfl with rfl | rfl <;> decide
      refine sat_bind (sat_act (by simp)) fun opened _ => ?_
      split_ifs
      · exact sat_bind (sat_act fun h => hdev (Step.writeFile.inj h)) fun _ _ => hreboot
      · exact hreboot

theorem bootIntoPartition_sat (partitionDevice : Text) :
    (bootIntoPartition partitionDevice).Sat Call.Quiet fun _ => True := by
  unfold bootIntoPartition getFileContents
  split_ifs
  · refine sat_bind (Q := fun _ => True) (sat_bind sat_ask fun contents _ => ?_) fun _ _ =>
      bootDevice_sat _
    split <;> exact sat_pure trivial
  · exact bootDevice_sat _

/-- The device of the first partition becomes the default, whatever else happened. -/
theorem installOS_sound (sys : Sysfs) (mgr : InstallManager) :
    (installOS I sys mgr os).Sat Call.Sound fun _ => True := by
  unfold installOS
  cases hprep : prepareImage I mgr os with
  | error e => exact sat_pure trivial
  | ok r =>
    obtain ⟨os', mgr'⟩ := r
    obtain ⟨p, ps, n, hps, hdev⟩ := prepareImage_first hprep
    refine sat_bind (sat_sound (partitionSDCard_sat _ _)) fun partitioned _ => ?_
    split_ifs
    · exact sat_pure trivial
    refine sat_bind (sat_sound (writeImage_sat _)) fun r hr => ?_
    refine sat_bind (Q := fun _ => True) ?_ fun _ _ => sat_pure trivial
    unfold OSInfo.vPartitionList at hr
    rw [hps] at hr
    obtain ⟨p', ps', hps', hp', -⟩ := List.map_eq_cons_iff.1 hr
    unfold OSInfo.setDefaultBoot PartitionInfo.setDefaultBoot
    rw [hps']
    simp only
    rw [hp', hdev]
    split_ifs
    · exact sat_pure trivial
    · exact setDefaultBootPartition_sound (namesPartition_number n)

theorem installOSREST_sound (sys : Sysfs) (autoReboot : Bool) (osInfo : Option OSInfo) :
    (installOSREST I sys autoReboot osInfo).Sat Call.Sound fun _ => True := by
  unfold installOSREST newInstallManager
  cases osInfo with
  | none => exact sat_pure trivial
  | some os =>
    refine sat_bind (Q := fun _ => True) (sat_sound ?_) fun _ _ => ?_
    · exact sat_bind (sat_act (by simp)) fun _ _ => sat_bind (sat_act (by simp)) fun _ _ => sat_pure trivial
    · refine sat_bind (installOS_sound sys _) fun installed _ => ?_
      split_ifs
      · exact sat_pure trivial
      · exact sat_pure trivial
      · exact sat_pure trivial

theorem hasInstalledOS_sat : hasInstalledOS.Sat Call.Quiet fun _ => True := by
  unfold hasInstalledOS getInstalledOS loadFromFile
  refine sat_bind (Q := fun _ => True) (sat_bind sat_ask fun present _ => ?_) fun _ _ => sat_pure trivial
  split_ifs
  · refine sat_bind sat_ask fun contents _ => ?_
    split <;> exact sat_pure trivial
  · exact sat_pure trivial

theorem runBootManager_sound {args : List Text} (h : (Task.start args).WellFormed) :
    (runBootManager args).Sat Call.Sound fun _ => True := by
  have hcheck : (bootCheck args).Sat Call.Sound fun _ => True := by
    unfold bootCheck
    refine sat_bind (checkArguments_sound {} args h) fun flags _ => ?_
    split_ifs
    · exact sat_pure trivial
    · exact sat_bind (sat_sound hasInstalledOS_sat) fun _ _ => sat_pure trivial
  unfold runBootManager
  refine sat_bind (sat_sound (sat_act (by simp))) fun _ _ => sat_bind hcheck fun r _ => ?_
  split_ifs
  · exact sat_bind (sat_sound (bootIntoPartition_sat _)) fun _ _ => sat_pure trivial
  · exact sat_pure trivial

/-- **A well-formed task writes devices of partitions** to the default boot file and
nothing else. -/
theorem program_sound {t : Task} (h : t.WellFormed) : (t.program I).Sat Call.Sound fun _ => True := by
  have hboot : (do let _ ← bootIntoPartition []; return () : Sys Unit).Sat Call.Sound fun _ => True :=
    sat_bind (sat_sound (bootIntoPartition_sat _)) fun _ _ => sat_pure trivial
  cases t with
  | install sys autoReboot osInfo =>
    refine sat_bind (installOSREST_sound sys autoReboot osInfo) fun response _ => ?_
    split_ifs
    · exact hboot
    · exact sat_pure trivial
  | bootPartition request =>
    refine sat_bind (Q := fun _ => True) ?_ fun _ _ => sat_pure trivial
    unfold setDefaultBootPartitionREST
    refine sat_bind (setDefaultBootPartition_sound h) fun set _ => ?_
    split_ifs <;> exact sat_pure trivial
  | reboot => exact hboot
  | start args => exact runBootManager_sound h

end Noobs
