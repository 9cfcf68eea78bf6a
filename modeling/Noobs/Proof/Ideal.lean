import Noobs.Proof.Healthy

/-!
# The device and what it is for

A healthy machine does what the device is for: task by task it moves as the ideal device
does. What holds of every run of the ideal device then holds of the machine.

* `run_installOS`: what an installation makes of a healthy machine.
* `device_simulates`: **a healthy device does what it is for.**
* `serving_ideal`: **so does a server**, whoever sends it what.
* `comes_up`: **a healthy device can always be reached or booted.**
-/

namespace Noobs

open Prog Simulation

variable {m m' : Machine} {I : IntType} {sys : Sysfs} {s : Step} {d : Data} {os : OSInfo} {α : Type}
  {p : PartitionInfo} {ps : List PartitionInfo} {plan : List Item}

/-! ## Installing -/

/-- Nothing fails, and the plan checks nothing that does not hold anyway. -/
theorem succeeds_of_ok (hok : Unfailing m)
    (hchecks : ∀ holds, Item.check holds ∈ plan → ∀ w, holds w = true) : m.Succeeds plan := by
  induction plan generalizing m with
  | nil => trivial
  | cons item plan ih =>
    have hrest := fun holds hmem => hchecks holds (List.mem_cons_of_mem item hmem)
    cases item with
    | check holds => exact ⟨hchecks holds List.mem_cons_self _, ih hok hrest⟩
    | step needed applies s e =>
      have hnext : (m.act s (e m.world)).2.Succeeds plan := ih hok hrest
      have hskip : m.Succeeds plan := ih hok hrest
      simp only [Machine.Succeeds]
      split_ifs
      · exact ⟨fun _ => hok s _, hnext⟩
      · exact hskip

variable {map : SortedMap ℤ PartitionInfo}

theorem removeOld_same (m : Machine) : Same (· ≠ .installedOs) m (m.run removeOld).2 := by
  have hspares : (Step.remove .installedOs).Spares (· ≠ .installedOs) := on_spares (Or.inl rfl)
  refine run_same (Q := fun _ => True) ?_ m
  unfold removeOld fileExists removeFile
  refine sat_bind avoids_ask fun present _ => ?_
  cases present with
  | false => exact sat_pure trivial
  | true => exact sat_bind (avoids_act (not_not.2 hspares)) fun _ _ => sat_pure trivial

/-- Behind the removal, nothing is listed. -/
theorem run_removeOld (h : Healthy m) : Healthy (m.run removeOld).2 ∧
    (m.run removeOld).2.ideal = { m.ideal with installed := [] } := by
  have hsame := removeOld_same m
  have hnone := (removeOld_done h.mounted fun n => h.ok (.remove .installedOs) n).2
  refine ⟨h.same hsame (by simp) (by simp) (by simp), ?_⟩
  unfold Machine.ideal World.firmware
  rw [hnone, hsame.disk _ (by simp), hsame.table, hsame.other _ (by simp), hsame.other _ (by simp)]
  rfl

/-- A table that does not fit costs what was listed. -/
theorem run_partition_refused {e : String} (h : Healthy m) (htable : partitionTable sys map = .error e) :
    (m.run (partitionSDCard sys map)).1 = false ∧ Healthy (m.run (partitionSDCard sys map)).2 ∧
      (m.run (partitionSDCard sys map)).2.ideal = { m.ideal with installed := [] } := by
  have hrefused : ∀ x : Machine, x.run (layOut sys map) = (false, x) := by
    intro x
    unfold layOut writePartitionTable
    rw [htable]
    rfl
  rw [partitionSDCard_eq, run_bind, hrefused]
  exact ⟨rfl, run_removeOld h⟩

/-- Writing the table works on no file. -/
theorem writePartitionTable_files (m : Machine) :
    (m.run (writePartitionTable sys map)).2.world.disk = m.world.disk ∧
      (m.run (writePartitionTable sys map)).2.world.other = m.world.other := by
  have hact : ∀ {s : Step} {d : Data}, (∀ q, ¬s.On q) →
      (act s d).Sat (Call.Avoids fun s => ∃ q, s.On q) fun _ => True :=
    fun h => avoids_act fun ⟨q, hq⟩ => h q hq
  have hsat : (writePartitionTable sys map).Sat (Call.Avoids fun s => ∃ q, s.On q) fun _ => True := by
    unfold writePartitionTable
    cases partitionTable sys map with
    | error e => exact sat_pure trivial
    | ok table =>
      refine sat_bind (hact (by simp [Step.On])) fun _ _ => sat_bind (hact (by simp [Step.On])) fun _ _ => ?_
      refine sat_bind (hact (by simp [Step.On])) fun _ _ => sat_bind (hact (by simp [Step.On])) fun _ _ => ?_
      refine sat_bind (hact (by simp [Step.On])) fun _ _ => sat_bind (hact (by simp [Step.On])) fun _ _ => ?_
      exact sat_pure trivial
  have hstays : (writePartitionTable sys map).Throughout serve
      (fun x => x.world.disk = m.world.disk ∧ x.world.other = m.world.other) m := by
    refine throughout_avoids hsat (fun x s d hs hx => ?_) ⟨rfl, rfl⟩
    have hnot : ∀ q, ¬s.On q := fun q hq => hs ⟨q, hq⟩
    exact ⟨(funext fun q => disk_act (Or.inl (hnot q))).trans hx.1,
      (funext fun q => other_act (hnot q)).trans hx.2⟩
  exact hstays.run

/-- The table is written, and the settings are mounted again. -/
theorem run_writePartitionTable {table : Text} (h : Healthy m) (htable : partitionTable sys map = .ok table) :
    (m.run (writePartitionTable sys map)).1 = true ∧ Healthy (m.run (writePartitionTable sys map)).2 ∧
      (m.run (writePartitionTable sys map)).2.ideal = { m.ideal with table := table } := by
  obtain ⟨hdisk, hother⟩ := @writePartitionTable_files sys map m
  have houtcome := outcome_run (writePartitionTable sys map) m
  have hdone : (m.run (writePartitionTable sys map)).1 = true := by
    unfold writePartitionTable
    rw [htable]
    exact h.ok _ _
  have hmounted : (m.run (writePartitionTable sys map)).2.world.settingsMounted = true := by
    unfold writePartitionTable
    rw [htable]
    simp only [run_act_bind]
    -- the last step mounts the settings
    have hmount : ∀ x : Machine, x.outcome = m.outcome →
        (x.act (.mountSystem settingsDir) .empty).2.world.settingsMounted = true := by
      intro x hx
      rw [world_mountSettings (fun s n => by rw [hx]; exact h.ok s n)]
    exact hmount _ rfl
  have hwritten := writePartitionTable_table hdone
  rw [htable] at hwritten
  generalize (m.run (writePartitionTable sys map)).2 = m' at hdisk hother houtcome hmounted hwritten ⊢
  refine ⟨hdone, ⟨fun s n => by rw [houtcome]; exact h.ok s n, hmounted, by rw [hother]; exact h.script, ?_⟩, ?_⟩
  · rw [rebootDev_congr (congrFun hother _) (congrFun hother _)]
    exact h.rebootDev
  · unfold Machine.ideal World.firmware
    rw [hdisk, hother, ← Except.ok.inj hwritten]

/-- The card is partitioned. -/
theorem run_partition {table : Text} (h : Healthy m) (htable : partitionTable sys map = .ok table) :
    (m.run (partitionSDCard sys map)).1 = true ∧ Healthy (m.run (partitionSDCard sys map)).2 ∧
      (m.run (partitionSDCard sys map)).2.ideal = { m.ideal with installed := [], table := table } := by
  obtain ⟨hremoved, hideal⟩ := run_removeOld h
  obtain ⟨hdone, hwritten, hideal'⟩ := run_writePartitionTable hremoved htable
  rw [partitionSDCard_eq, run_bind]
  unfold layOut
  rw [run_bind, hdone]
  have hzeroed : ((m.run removeOld).2.run (writePartitionTable sys map)).2.Succeeds (zeroPlan map.values) := by
    refine succeeds_of_ok hwritten.ok fun holds hmem => ?_
    obtain ⟨p, -, hp⟩ := List.mem_map.1 hmem
    cases hp
  obtain ⟨hzero, hm⟩ := (zeroPartitions_follows map.values).done hzeroed
  have hsame : Same (fun _ => True) ((m.run removeOld).2.run (writePartitionTable sys map)).2
      (((m.run removeOld).2.run (writePartitionTable sys map)).2.perform (zeroPlan map.values)) := by
    refine perform_same fun needed applies s e hmem => ?_
    obtain ⟨p, -, hp⟩ := List.mem_map.1 hmem
    obtain ⟨-, -, rfl, -⟩ := Item.step.inj hp
    exact ⟨by simp, by simp, by simp, by simp [Step.On]⟩
  simp only [Bool.not_true, Bool.false_eq_true, if_false]
  rw [hm]
  refine ⟨hzero, hwritten.same hsame trivial trivial trivial, ?_⟩
  rw [ideal_same hsame trivial trivial trivial trivial, hideal', hideal]

/-! ### Writing the image -/

theorem imageCommand_isSome (image sink : Text) :
    (imageCommand image sink).isSome = (decompressor image).isSome := by
  unfold imageCommand
  rw [Option.isSome_map]

theorem unpackPlan_succeeds (hok : Unfailing m) (image sink : Text) (s : Text → Step) :
    m.Succeeds (unpackPlan image sink s) ↔ (decompressor image).isSome = true := by
  rw [← imageCommand_isSome image sink]
  exact and_iff_left (succeeds_of_ok hok (by simp))

theorem mountPlan_succeeds (hok : Unfailing m) :
    m.Succeeds (mountPlan p) ↔ p.mountedDir = [] ∧ p.partitionDevice ≠ [] := by
  have hmount : m.Succeeds [.needs (.mount p.partitionDevice (p.mountCMD mnt2))] :=
    succeeds_of_ok hok (by simp)
  simp only [mountPlan, Machine.Succeeds, decide_eq_true_eq] at hmount ⊢
  exact ⟨fun h => ⟨h.1, h.2.1⟩, fun h => ⟨h.1, h.2, hmount⟩⟩

/-- A step and what follows it. -/
theorem needs_succeeds (hok : Unfailing m) {e : World → Data} :
    m.Succeeds (.needs s e :: plan) ↔ (m.act s (e m.world)).2.Succeeds plan := by
  show (if _ then _ ∧ _ else _) ↔ _
  rw [if_pos rfl]
  exact and_iff_right fun _ => hok _ _

/-- A partition on a device is written just if it is writable. -/
theorem partitionPlan_succeeds (hok : Unfailing m) (first : Bool) (hdev : p.partitionDevice ≠ []) :
    m.Succeeds (partitionPlan first p) ↔ p.Writable = true := by
  unfold partitionPlan PartitionInfo.Writable
  split_ifs
  · exact unpackPlan_succeeds hok _ _ _
  · exact unpackPlan_succeeds hok _ _ _
  · unfold fileSystemPlan
    rw [needs_succeeds hok]
    simp only [Bool.or_eq_true, List.isEmpty_iff, Bool.and_eq_true]
    split_ifs with hempty
    · exact iff_of_true trivial (Or.inl hempty)
    · have hformatted : Unfailing (m.act (.mkfs p.partitionDevice
          (mkfsCommand p.partitionDevice p.fsType p.label p.mkfsOptions)) .empty).2 := hok
      have hunmount : ∀ x : Machine, Unfailing x →
          x.Succeeds [.step first (fun _ => true) (.umount mnt2) fun _ => .empty] :=
        fun x hx => succeeds_of_ok hx (by simp)
      rw [or_iff_right hempty, succeeds_append, succeeds_append, mountPlan_succeeds hformatted,
        unpackPlan_succeeds (hformatted.perform _), and_iff_left (hunmount _ (hformatted.perform _)),
        and_iff_left hdev]
  · exact iff_of_true trivial rfl

theorem partitionsPlan_succeeds (hok : Unfailing m) (hdev : ∀ p ∈ ps, p.partitionDevice ≠ []) :
    m.Succeeds (partitionsPlan ps) ↔ ps.all PartitionInfo.Writable = true := by
  have hrest : ∀ (ps : List PartitionInfo) {x : Machine}, Unfailing x → (∀ p ∈ ps, p.partitionDevice ≠ []) →
      (x.Succeeds (ps.flatMap (partitionPlan false)) ↔ ps.all PartitionInfo.Writable = true) := by
    intro ps
    induction ps with
    | nil => exact fun _ _ => iff_of_true trivial rfl
    | cons p ps ih =>
      intro x hx hdev
      obtain ⟨hp, hps⟩ := List.forall_mem_cons.1 hdev
      rw [List.flatMap_cons, succeeds_append, partitionPlan_succeeds hx false hp, ih (hx.perform _) hps,
        List.all_cons, Bool.and_eq_true]
  cases ps with
  | nil => exact iff_of_true trivial rfl
  | cons p ps =>
    obtain ⟨hp, hps⟩ := List.forall_mem_cons.1 hdev
    rw [partitionsPlan, succeeds_append, partitionPlan_succeeds hok true hp, hrest ps (hok.perform _) hps,
      List.all_cons, Bool.and_eq_true]

theorem savePlan_same (path : Path) (e : World → Data) : Same (· ≠ path) m (m.perform (savePlan path e)) := by
  refine perform_same fun needed applies s e' hmem => on_spares ?_
  simp only [savePlan, List.mem_cons, Item.step.injEq, List.not_mem_nil, or_false] at hmem
  rcases hmem with ⟨-, -, rfl, -⟩ | ⟨-, -, rfl, -⟩
  · exact Or.inr (Or.inl rfl)
  · exact Or.inr (Or.inr rfl)

theorem patchPlan_same : Same (fun _ => True) m (m.perform patchPlan) := by
  refine perform_same fun needed applies s e hmem => ?_
  obtain ⟨-, -, rfl, -⟩ := Item.step.inj (List.mem_singleton.1 hmem)
  exact ⟨by simp, by simp, by simp, by simp [Step.On]⟩

/-- The script is run and removed. -/
theorem scriptPlan_leaves (h : Healthy m) (os : OSInfo) : m.Succeeds (scriptPlan os) ∧
    Same (· ≠ .partitionSetup) m (m.perform (scriptPlan os)) ∧
      (m.perform (scriptPlan os)).world.other .partitionSetup = none := by
  unfold scriptPlan
  split_ifs
  · exact ⟨trivial, Same.refl m, h.script⟩
  have habsent : (m.world.file .partitionSetup).isNone = true := by
    have hfile : m.world.file .partitionSetup = m.world.other .partitionSetup := rfl
    rw [hfile, h.script]
    rfl
  have hput : m.Succeeds (putPlan .partitionSetup os.partitionSetupScript) :=
    ⟨habsent, succeeds_of_ok h.ok (by simp [savePlan])⟩
  have hwritten : Same (· ≠ .partitionSetup) m
      (m.perform (putPlan .partitionSetup os.partitionSetupScript)) :=
    @savePlan_same m .partitionSetup fun _ => .text os.partitionSetupScript
  have hok : Unfailing (m.perform (putPlan .partitionSetup os.partitionSetupScript)) := h.ok.perform _
  rw [succeeds_append, perform_append]
  generalize m.perform (putPlan .partitionSetup os.partitionSetupScript) = x at hwritten hok ⊢
  refine ⟨⟨hput, succeeds_of_ok hok (by simp)⟩, hwritten.trans ?_, ?_⟩
  · have hrun : Same (· ≠ .partitionSetup) x (x.act .runScript .empty).2 :=
      act_same ⟨by simp, by simp, by simp, by simp [Step.On]⟩ _
    exact hrun.trans (act_same (on_spares (Or.inl rfl)) _)
  · have hremoved := (file_act_on (x.act .runScript .empty).2 .partitionSetup .empty).1
    have hdone : ((x.act .runScript .empty).2.next (.remove .partitionSetup)).ok = true := hok _ _
    rw [if_pos hdone] at hremoved
    exact hremoved

/-- The plan succeeds, and what it changes is what is listed. -/
structure Finishes (m : Machine) (plan : List Item) (entries : List InstalledOs) : Prop where
  succeeds : m.Succeeds plan
  healthy : Healthy (m.perform plan)
  ideal : (m.perform plan).ideal = { m.ideal with installed := entries }

/-- A plan behind another one that changes nothing of interest. -/
theorem Finishes.behind {plan' : List Item} {entries : List InstalledOs} (hplan : m.Succeeds plan)
    (hideal : (m.perform plan).ideal = m.ideal) (h : Finishes (m.perform plan) plan' entries) :
    Finishes m (plan ++ plan') entries where
  succeeds := (succeeds_append _ _).2 ⟨hplan, h.succeeds⟩
  healthy := by
    rw [perform_append]
    exact h.healthy
  ideal := by
    rw [perform_append, h.ideal, hideal]

/-- With no script left behind, the image is finished, and the operating system listed. -/
theorem finishPlan_finishes (h : Healthy m) (os : OSInfo) : Finishes m (finishPlan [] os) [os.entry] := by
  have hsave : ∀ {x : Machine} (q : Path) (e : World → Data), Healthy x → x.Succeeds (savePlan q e) :=
    fun q e hx => succeeds_of_ok hx.ok (by simp [savePlan])
  have henter : ∀ {x : Machine}, Healthy x →
      Finishes x (savePlan .installedOs fun _ => .installedOs ([] ++ [os.entry])) [os.entry] := by
    intro x hx
    have hsaved := hsave .installedOs (fun _ => .installedOs ([] ++ [os.entry])) hx
    have hsame := @savePlan_same x .installedOs fun _ => .installedOs ([] ++ [os.entry])
    have hhealthy := hx.same hsame (by simp) (by simp) (by simp)
    have hfile := savePlan_file hsaved
    rw [hhealthy.file rfl] at hfile
    refine ⟨hsaved, hhealthy, ?_⟩
    unfold Machine.ideal World.firmware
    rw [hfile, hsame.disk _ (by simp), hsame.table, hsame.other _ (by simp), hsame.other _ (by simp)]
    rfl
  have hleave : ∀ {x : Machine}, Healthy x → Finishes x (.tries (.umount mnt2) ::
      savePlan .installedOs fun _ => .installedOs ([] ++ [os.entry])) [os.entry] := by
    intro x hx
    have hsame : Same (fun _ => True) x (x.act (.umount mnt2) .empty).2 :=
      act_same ⟨by simp, by decide, by simp, by simp [Step.On]⟩ _
    have hrest := henter (hx.same hsame trivial trivial trivial)
    refine @Finishes.behind _ [.tries (.umount mnt2)] _ _ (succeeds_of_ok hx.ok (by simp)) ?_ hrest
    exact ideal_same hsame trivial trivial trivial trivial
  have hconfig := @savePlan_same m .osConfig fun w => .osConfig (os.config w.conf)
  have hm₁ := h.same hconfig (by simp) (by simp) (by simp)
  refine Finishes.behind (hsave _ _ h) (ideal_same hconfig (by simp) (by simp) (by simp) (by simp)) ?_
  have hm₂ := hm₁.same patchPlan_same trivial trivial trivial
  refine Finishes.behind (succeeds_of_ok hm₁.ok (by simp [patchPlan]))
    (ideal_same patchPlan_same trivial trivial trivial trivial) ?_
  obtain ⟨hscript, hsame, hnone⟩ := scriptPlan_leaves hm₂ os
  have hm₃ : Healthy (Machine.perform _ (scriptPlan os)) :=
    ⟨hm₂.ok.perform _, hsame.mounted.trans hm₂.mounted, hnone, by
      rw [rebootDev_congr (hsame.other _ (by simp)) (hsame.other _ (by simp))]
      exact hm₂.rebootDev⟩
  exact Finishes.behind hscript (ideal_same hsame (by simp) (by simp) (by simp) (by simp)) (hleave hm₃)

/-! ### The whole image -/

/-- The steps that write partitions. -/
def Step.writes : Step → Bool
  | .mount _ _ => true
  | .umount dir => decide (dir = mnt2)
  | .mkfs _ _ => true
  | .dd _ _ => true
  | .partclone _ _ => true
  | .untar _ => true
  | _ => false

theorem writes_spares (h : s.writes = true) : s.Spares fun _ => True := by
  have hne : mnt2 ≠ settingsDir := by decide
  cases s with
  | umount dir =>
    obtain rfl : dir = mnt2 := of_decide_eq_true h
    exact ⟨by simp, by simp [hne], by simp, by simp [Step.On]⟩
  | mount device command => exact ⟨by simp, by simp, by simp, by simp [Step.On]⟩
  | mkfs device command => exact ⟨by simp, by simp, by simp, by simp [Step.On]⟩
  | dd device command => exact ⟨by simp, by simp, by simp, by simp [Step.On]⟩
  | partclone device command => exact ⟨by simp, by simp, by simp, by simp [Step.On]⟩
  | untar command => exact ⟨by simp, by simp, by simp, by simp [Step.On]⟩
  | _ => cases h

theorem umount_writes : (Step.umount mnt2).writes = true := by decide

/-- The call takes a step that writes partitions, if any. -/
def Call.Writes : Call → Prop
  | .ask _ => True
  | .act s _ => s.writes = true

theorem writes_act (h : s.writes = true) : (act s d).Sat Call.Writes fun _ => True :=
  sat_issue h fun _ => trivial

theorem writes_ask {q : Query} : (ask q).Sat Call.Writes fun _ => True := sat_issue trivial fun _ => trivial

theorem run_writes {q : Sys α} {Q : α → Prop} (h : q.Sat Call.Writes Q) (m : Machine) :
    Same (fun _ => True) m (m.run q).2 := by
  refine run_same (h.mono (fun c hc s d hact hs => hs ?_) fun _ hQ => hQ) m
  subst hact
  exact writes_spares hc

theorem unpack_writes (image sink : Text) {s : Text → Step} (h : ∀ t, (s t).writes = true) :
    (unpack image sink s).Sat Call.Writes fun _ => True := by
  unfold unpack
  cases imageCommand image sink with
  | none => exact sat_pure trivial
  | some command => exact writes_act (h command)

theorem mountPartition_writes (p : PartitionInfo) :
    (p.mountPartition mnt2).Sat Call.Writes fun r => r.1 = true → r.2.mountedDir = mnt2 := by
  unfold PartitionInfo.mountPartition
  split_ifs
  · exact sat_pure fun h => by cases h
  · exact sat_pure fun h => by cases h
  · refine sat_bind (writes_act rfl) fun ok _ => ?_
    cases ok with
    | true => exact sat_pure fun _ => rfl
    | false => exact sat_pure fun h => by cases h

theorem checkLabel_writes (p : PartitionInfo) : (checkLabel p).Sat Call.Writes fun _ => True := by
  have havailable : ∀ label, (isLabelAvailable label).Sat Call.Writes fun _ => True :=
    fun label => sat_bind writes_ask fun _ _ => sat_pure trivial
  have hfree : ∀ label is, (freeLabel label is).Sat Call.Writes fun _ => True := by
    intro label is
    induction is with
    | nil => exact sat_pure trivial
    | cons i is ih =>
      refine sat_bind (havailable _) fun ok _ => ?_
      cases ok with
      | true => exact sat_pure trivial
      | false => exact ih
  unfold checkLabel
  split_ifs
  · exact sat_pure trivial
  · refine sat_bind (havailable _) fun ok _ => ?_
    cases ok with
    | true => exact sat_pure trivial
    | false => exact hfree _ _

theorem writePartition_writes (p : PartitionInfo) : (writePartition p).Sat Call.Writes fun _ => True := by
  have hfs : (makeFileSystem p).Sat Call.Writes fun _ => True := by
    unfold makeFileSystem
    refine sat_bind (writes_act rfl) fun ok _ => ?_
    split_ifs
    · exact sat_pure trivial
    · exact sat_pure trivial
    · exact sat_pure trivial
    · refine sat_bind (mountPartition_writes p) fun r hr => ?_
      obtain ⟨mounted, p'⟩ := r
      cases mounted with
      | false => exact sat_pure trivial
      | true =>
        refine sat_bind (unpack_writes _ _ fun _ => rfl) fun extracted _ => ?_
        refine sat_bind (Q := fun _ => True) ?_ fun _ _ => sat_pure trivial
        unfold PartitionInfo.unmountPartition
        rw [hr rfl]
        split_ifs
        · refine sat_bind (writes_act umount_writes) fun ok _ => ?_
          split_ifs <;> exact sat_pure trivial
        · exact sat_pure trivial
  unfold writePartition
  refine sat_bind (checkLabel_writes p) fun _ _ => ?_
  split_ifs
  · exact sat_bind (unpack_writes _ _ fun _ => rfl) fun _ _ => sat_pure trivial
  · exact sat_bind (unpack_writes _ _ fun _ => rfl) fun _ _ => sat_pure trivial
  · exact hfs
  · exact sat_pure trivial

theorem writePartitions_writes (ps : List PartitionInfo) :
    (writePartitions ps).Sat Call.Writes fun _ => True := by
  induction ps with
  | nil => exact sat_pure trivial
  | cons p ps ih =>
    rw [writePartitions]
    refine sat_bind (writePartition_writes p) fun r _ => ?_
    obtain ⟨written, p'⟩ := r
    cases written with
    | false => exact sat_pure trivial
    | true => exact sat_bind ih fun _ _ => sat_pure trivial

/-- **What comes of an image** on a healthy machine: it is not written and nothing of
interest has changed, or it is written and listed. -/
theorem writeImage_outcome (h : Healthy m) (os : OSInfo) :
    ((m.run (writeImage [] os)).1.1 = false ∧ Same (fun _ => True) m (m.run (writeImage [] os)).2) ∨
      (m.run (writeImage [] os)).1.1 = true ∧ Healthy (m.run (writeImage [] os)).2 ∧
        (m.run (writeImage [] os)).2.ideal = { m.ideal with installed := [os.entry] } := by
  have hdone := @writeImage_done m os []
  have hwrite := run_writes (writePartitions_writes os.partitions) m
  unfold writeImage at hdone ⊢
  rw [run_bind] at hdone ⊢
  generalize m.run (writePartitions os.partitions) = r at hdone hwrite ⊢
  obtain ⟨⟨written, ps⟩, m₁⟩ := r
  cases written with
  | false => exact Or.inl ⟨rfl, hwrite⟩
  | true =>
    cases ps with
    | nil => exact Or.inl ⟨rfl, hwrite⟩
    | cons p ps =>
      have hmount := run_writes (mountPartition_writes p) m₁
      simp only [Bool.not_true, Bool.false_eq_true, if_false] at hdone ⊢
      rw [run_bind] at hdone ⊢
      generalize m₁.run (p.mountPartition mnt2) = r at hdone hmount ⊢
      obtain ⟨⟨mounted, p'⟩, m₂⟩ := r
      have hsame : Same (fun _ => True) m m₂ := hwrite.trans hmount
      cases mounted with
      | false => exact Or.inl ⟨rfl, hsame⟩
      | true =>
        right
        have hm₂ := h.same hsame trivial trivial trivial
        have hfinishes := finishPlan_finishes hm₂ { os with partitions := p' :: ps }
        obtain ⟨hresult, hm₃⟩ := (finishImage_follows []).done hfinishes.succeeds
        simp only [Bool.not_true, Bool.false_eq_true, if_false] at hdone ⊢
        rw [run_bind, hresult] at hdone ⊢
        obtain ⟨-, hentry, -⟩ := hdone rfl
        have hentry' : (OSInfo.entry { os with partitions := p' :: ps }) = os.entry :=
          List.singleton_injective hentry
        have hideal := hfinishes.ideal
        rw [hentry', ideal_same hsame trivial trivial trivial trivial] at hideal
        refine ⟨rfl, ?_, ?_⟩
        · show Healthy (m₂.run (finishImage [] _)).2
          rw [hm₃]
          exact hfinishes.healthy
        · show (m₂.run (finishImage [] _)).2.ideal = _
          rw [hm₃]
          exact hideal

/-- An image on devices is written just if it is writable. -/
theorem writeImage_writable (h : Healthy m) (hdev : ∀ p ∈ os.partitions, p.partitionDevice ≠ []) :
    (m.run (writeImage [] os)).1.1 = true ↔ os.Writable = true := by
  have hfollows := @writeImage_follows m os []
  have hplan : m.Succeeds (imagePlan [] os) ↔ os.Writable = true := by
    unfold imagePlan OSInfo.Writable
    cases hps : os.partitions with
    | nil => exact iff_of_false (fun hs => by cases hs.1) (by simp)
    | cons p ps =>
      rw [hps] at hdev
      simp only [succeeds_append, Bool.and_eq_true, List.isEmpty_iff]
      rw [partitionsPlan_succeeds h.ok hdev, mountPlan_succeeds (h.ok.perform _),
        and_iff_left (hdev p List.mem_cons_self)]
      refine and_congr_right fun hall => ?_
      -- the machine behind the partitions is the one the program leaves
      have hsucceeds := (partitionsPlan_succeeds h.ok hdev).2 hall
      have hrun := ((writePartitions_follows (p :: ps)).done hsucceeds).2
      have hsame := run_writes (writePartitions_writes (p :: ps)) m
      rw [hrun] at hsame
      have hm₁ := h.same hsame trivial trivial trivial
      refine and_iff_left_of_imp fun hdir => ?_
      have hmountable := (mountPlan_succeeds hm₁.ok).2 ⟨hdir, hdev p List.mem_cons_self⟩
      have hrun' := (mountPartition_follows.done hmountable).2
      have hsame' := run_writes (mountPartition_writes p) (m.perform (partitionsPlan (p :: ps)))
      rw [hrun'] at hsame'
      exact (finishPlan_finishes (hm₁.same hsame' trivial trivial trivial) os).succeeds
  rw [← hplan]
  constructor
  · intro hok
    exact hfollows.only ⟨hok, (writeImage_sat []).run m, (writeImage_done hok).2.1⟩
  · exact fun hs => (hfollows.done hs).1.1

/-! ### Whole installations -/

theorem checkPartitions_devices {mgr mgr' : InstallManager} {ps ps' : List PartitionInfo}
    (h : checkPartitions I mgr ps = .ok (ps', mgr')) :
    ∀ p ∈ ps', ∃ n, p.partitionDevice = devicePrefix ++ number n := by
  induction ps generalizing mgr mgr' ps' with
  | nil =>
    obtain ⟨rfl, -⟩ := Prod.mk.inj (pure_ok.1 h)
    exact fun p hp => absurd hp List.not_mem_nil
  | cons p ps ih =>
    rw [checkPartitions] at h
    obtain ⟨⟨p', m₁⟩, hfirst, h⟩ := bind_ok.1 h
    obtain ⟨⟨ps'', m₂⟩, hrest, heq⟩ := bind_ok.1 h
    obtain ⟨rfl, -⟩ := Prod.mk.inj (pure_ok.1 heq)
    exact List.forall_mem_cons.2 ⟨checkPartition_device hfirst, ih hrest⟩

/-- Every partition of a prepared operating system is on a device of the card. -/
theorem prepareImage_devices {mgr mgr' : InstallManager} {os' : OSInfo}
    (h : prepareImage I mgr os = .ok (os', mgr')) :
    ∀ p ∈ os'.partitions, ∃ n, p.partitionDevice = devicePrefix ++ number n := by
  obtain ⟨⟨os₁, m₁⟩, hcheck, hspace⟩ := bind_ok.1 h
  obtain ⟨m₂, -, heq⟩ := bind_ok.1 hspace
  obtain ⟨rfl, -⟩ := Prod.mk.inj (pure_ok.1 heq)
  obtain ⟨-, m₃, hps⟩ := checkImage_partitions hcheck
  exact checkPartitions_devices hps

/-- What an installation makes of a healthy machine. -/
theorem run_installOS (h : Healthy m) (os : OSInfo) :
    (m.run (installOS I sys (.new I sys) os)).1 = (m.ideal.install I sys os).1 ∧
      Healthy (m.run (installOS I sys (.new I sys) os)).2 ∧
        (m.run (installOS I sys (.new I sys) os)).2.ideal = (m.ideal.install I sys os).2 := by
  unfold installOS Ideal.install
  cases hprep : prepareImage I (.new I sys) os with
  | error e => exact ⟨rfl, h, rfl⟩
  | ok r =>
    obtain ⟨os', mgr⟩ := r
    simp only
    cases htable : partitionTable sys mgr.partitionMap with
    | error e =>
      obtain ⟨hfailed, hhealthy, hideal⟩ := run_partition_refused h htable
      rw [run_bind, hfailed]
      exact ⟨rfl, hhealthy, hideal⟩
    | ok table =>
      obtain ⟨hdone, hm₁, hideal₁⟩ := run_partition h htable
      rw [run_bind, hdone]
      generalize (m.run (partitionSDCard sys mgr.partitionMap)).2 = m₁ at hm₁ hideal₁
      simp only [Bool.not_true, Bool.false_eq_true, if_false]
      -- the image is written, if it can be
      have hdevices := prepareImage_devices hprep
      have hne : ∀ p ∈ os'.partitions, p.partitionDevice ≠ [] := by
        intro p hp
        obtain ⟨n, hn⟩ := hdevices p hp
        rw [hn]
        exact List.append_ne_nil_of_left_ne_nil (by decide) _
      have hwritable := writeImage_writable hm₁ hne
      have hlist : (m₁.run (writeImage [] os')).1.2.1.vPartitionList = os'.vPartitionList :=
        (writeImage_sat []).run m₁
      have hwritten : Healthy (m₁.run (writeImage [] os')).2 ∧ (m₁.run (writeImage [] os')).2.ideal =
          { m.ideal with table := table, installed := if os'.Writable then [os'.entry] else [] } := by
        rcases writeImage_outcome hm₁ os' with ⟨hfailed, hsame⟩ | ⟨hok, hhealthy, hideal⟩
        · rw [hfailed] at hwritable
          rw [if_neg fun hw => Bool.false_ne_true (hwritable.2 hw),
            ideal_same hsame trivial trivial trivial trivial, hideal₁]
          exact ⟨hm₁.same hsame trivial trivial trivial, rfl⟩
        · rw [if_pos (hwritable.1 hok), hideal, hideal₁]
          exact ⟨hhealthy, rfl⟩
      rw [run_bind]
      generalize m₁.run (writeImage [] os') = r at hlist hwritten ⊢
      obtain ⟨⟨written, os₂, entries⟩, m₂⟩ := r
      obtain ⟨hm₂, hideal₂⟩ := hwritten
      -- the first of its devices becomes the default
      obtain ⟨p, ps, n, hps, hdev⟩ := prepareImage_first hprep
      have hhead : os'.vPartitionList = (devicePrefix ++ number n) :: ps.map PartitionInfo.partitionDevice := by
        unfold OSInfo.vPartitionList
        rw [hps, List.map_cons, hdev]
      have hdefault : os₂.setDefaultBoot = setDefaultBootPartition (devicePrefix ++ number n) := by
        have hlist' : os₂.partitions.map PartitionInfo.partitionDevice =
            (devicePrefix ++ number n) :: ps.map PartitionInfo.partitionDevice := hlist.trans hhead
        obtain ⟨p₂, ps₂, hps₂, hp₂, -⟩ := List.map_eq_cons_iff.1 hlist'
        have hnonempty : devicePrefix ++ number n ≠ [] := List.append_ne_nil_of_left_ne_nil (by decide) _
        unfold OSInfo.setDefaultBoot PartitionInfo.setDefaultBoot
        rw [hps₂]
        simp only [hp₂, List.isEmpty_iff, hnonempty, if_false]
      obtain ⟨hm₃, hideal₃⟩ := run_setDefault hm₂ (devicePrefix ++ number n)
      simp only
      rw [run_bind, hdefault]
      refine ⟨rfl, hm₃, ?_⟩
      show (m₂.run (setDefaultBootPartition (devicePrefix ++ number n))).2.ideal = _
      rw [hideal₃, hideal₂, hhead]
      unfold Ideal.setDefault
      rw [if_pos (List.prefix_append _ _), toAscii_device]
      rfl

theorem newInstallManager_same (m : Machine) : Same (fun _ => True) m (m.run newInstallManager).2 := by
  have hmount : Same (fun _ => True) m (m.act (.mountSystem systemsDir) .empty).2 :=
    act_same ⟨by simp, by simp, by decide, by simp [Step.On]⟩ _
  exact hmount.trans (act_same ⟨by simp, by simp, by simp, by simp [Step.On]⟩ _)

/-- What `POST /os` makes of a healthy machine. -/
theorem run_installOSREST (h : Healthy m) (autoReboot : Bool) (os : OSInfo) :
    ((m.run (installOSREST I sys autoReboot (some os))).1.code = 200 ↔ (m.ideal.install I sys os).1 = true) ∧
      Healthy (m.run (installOSREST I sys autoReboot (some os))).2 ∧
        (m.run (installOSREST I sys autoReboot (some os))).2.ideal = (m.ideal.install I sys os).2 := by
  have hsame := newInstallManager_same m
  obtain ⟨hresult, hhealthy, hideal⟩ :=
    @run_installOS _ I sys (h.same hsame trivial trivial trivial) os
  rw [ideal_same hsame trivial trivial trivial trivial] at hresult hideal
  rw [installOSREST_code, hresult]
  have hrun : (m.run (installOSREST I sys autoReboot (some os))).2 =
      ((m.run newInstallManager).2.run (installOS I sys (.new I sys) os)).2 := by
    unfold installOSREST
    rw [run_bind, run_bind]
    split_ifs <;> rfl
  rw [hrun]
  exact ⟨Iff.rfl, hhealthy, hideal⟩

/-! ## Tasks -/

/-- What a task makes of a healthy machine. -/
theorem uncut_ideal (h : Healthy m) (t : Task) :
    Healthy (m.uncut I t) ∧ (m.uncut I t).ideal = m.ideal.perform I t := by
  cases t with
  | install sys autoReboot osInfo =>
    rw [uncut_install]
    cases osInfo with
    | none =>
      have hrun : m.run (installOSREST I sys autoReboot none) = (badRequest "Unable to install OS\n".toList, m) := rfl
      rw [hrun]
      exact ⟨h, rfl⟩
    | some os =>
      obtain ⟨hcode, hhealthy, hideal⟩ := @run_installOSREST _ I sys h autoReboot os
      unfold Ideal.perform
      simp only [hcode]
      obtain ⟨hbooted, hboot⟩ := run_boot hhealthy
      rw [hideal] at hboot
      cases hdone : (m.ideal.install I sys os).1 with
      | false =>
        simp only [Bool.false_eq_true, false_and, if_false, Bool.false_and]
        exact ⟨hhealthy, hideal⟩
      | true =>
        cases autoReboot with
        | false => exact ⟨hhealthy, hideal⟩
        | true => exact ⟨hbooted, hboot⟩
  | bootPartition request =>
    rw [uncut_bootPartition]
    have hrun : (m.run (setDefaultBootPartitionREST request)).2 =
        (m.run (setDefaultBootPartition (cString request.body))).2 := by
      unfold setDefaultBootPartitionREST
      rw [run_bind]
      split_ifs <;> rfl
    rw [hrun]
    exact run_setDefault h _
  | reboot =>
    rw [uncut_reboot]
    exact run_boot h
  | start args => exact run_start h args

/-- **A healthy device does what it is for**, task by task. -/
theorem device_simulates (I : IntType) :
    Simulates (Machine.uncut I) (Ideal.perform I) Machine.ideal Healthy fun _ t => [t] where
  keeps := fun _ t h => (uncut_ideal h t).1
  matched := fun _ t h => (uncut_ideal h t).2

/-- **A server on a healthy device** has it do what it is for, and keeps it healthy: the
device is the ideal one behind the tasks of the clients that were served. -/
theorem serving_ideal (hm : Healthy m) (I : IntType) (fuel : ℕ) (arrivals : List Arrival) :
    ∃ served, served <+: arrivals ∧ ((start I fuel arrivals m).status = .listening → served = arrivals) ∧
      Healthy (start I fuel arrivals m).machine ∧
        (start I fuel arrivals m).machine.ideal =
          (served.flatMap (Arrival.tasks fuel)).foldl (Ideal.perform I) m.ideal := by
  obtain ⟨served, hprefix, hall, hlabels⟩ := @tasks_served I fuel { machine := m } arrivals
  have hcomp := (serve_simulates I fuel).comp (device_simulates I)
  obtain ⟨⟨-, hhealthy⟩, hideal⟩ := hcomp.run (s := { machine := m }) ⟨trivial, hm⟩ arrivals
  -- an ideal step for each task
  have hsame : (fun s a => runLabels (Machine.uncut I) (fun _ t => [t]) s.machine (Serving.tasks fuel s a)) =
      Serving.tasks fuel := by
    funext s a
    rw [runLabels_flatMap, List.flatMap_singleton']
  rw [hsame, hlabels] at hideal
  exact ⟨served, hprefix, hall, hhealthy, hideal⟩

theorem newDevice_healthy : Healthy newDevice := ⟨fun _ _ => rfl, rfl, by decide, by decide⟩

/-- Somebody asks a new device for a reboot. -/
theorem serving_newDevice : ∃ served,
    served <+: [.failed, .connection rebootSocket smallCard fun _ => .ok none] ∧
      ((start int32 2 [.failed, .connection rebootSocket smallCard fun _ => .ok none] newDevice).status =
        .listening → served = [.failed, .connection rebootSocket smallCard fun _ => .ok none]) ∧
      Healthy (start int32 2 [.failed, .connection rebootSocket smallCard fun _ => .ok none] newDevice).machine ∧
      (start int32 2 [.failed, .connection rebootSocket smallCard fun _ => .ok none] newDevice).machine.ideal =
        (served.flatMap (Arrival.tasks 2)).foldl (Ideal.perform int32) newDevice.ideal :=
  serving_ideal newDevice_healthy int32 2 [.failed, .connection rebootSocket smallCard fun _ => .ok none]

/-! ## Coming up -/

theorem setDefault_reachable {d : Ideal} {device : Text} (h : d.Reachable) (hnames : namesPartition device = true) :
    (d.setDefault device).Reachable := by
  unfold Ideal.setDefault
  split_ifs
  · exact Or.inr ⟨toAscii device, rfl, by rw [toAscii_of_namesPartition hnames, hnames]⟩
  · exact h

theorem boot_reachable {d : Ideal} (h : d.Reachable) : d.boot.Reachable := by
  unfold Ideal.boot
  split
  · exact h
  · exact h

/-- An operating system is only listed behind a device of its own. -/
theorem install_reachable {d : Ideal} (h : d.Reachable) : (d.install I sys os).2.Reachable := by
  unfold Ideal.install
  cases hprep : prepareImage I (.new I sys) os with
  | error e => exact h
  | ok r =>
    obtain ⟨os', mgr⟩ := r
    simp only
    cases partitionTable sys mgr.partitionMap with
    | error e => exact Or.inl rfl
    | ok table =>
      obtain ⟨p, ps, n, hps, hdev⟩ := prepareImage_first hprep
      refine Or.inr ⟨devicePrefix ++ number n, ?_, namesPartition_number n⟩
      show os'.vPartitionList.head? = _
      unfold OSInfo.vPartitionList
      rw [hps, List.map_cons, List.head?_cons, hdev]

theorem arguments_reachable {d : Ideal} {args : List Text} (h : d.Reachable)
    (hwf : ∀ flag value, [flag, value] <:+: args →
      equalsInsensitive flag "-partition".toList = true → namesPartition value = true) :
    (d.arguments args).Reachable := by
  induction args generalizing d with
  | nil => exact h
  | cons arg args ih =>
    have hrest := fun flag value (hin : [flag, value] <:+: args) =>
      hwf flag value (hin.trans (List.suffix_cons _ _).isInfix)
    unfold Ideal.arguments
    split_ifs with hpart
    · cases args with
      | nil => exact ih h hrest
      | cons value args =>
        have hnames := hwf arg value (List.prefix_append [arg, value] args).isInfix hpart
        exact ih (setDefault_reachable h hnames) hrest
    · exact ih h hrest

/-- No task leaves an ideal device with an operating system that cannot be booted. -/
theorem perform_reachable {d : Ideal} {t : Task} (h : d.Reachable) (hwf : t.WellFormed) :
    (d.perform I t).Reachable := by
  cases t with
  | install sys autoReboot osInfo =>
    cases osInfo with
    | none => exact h
    | some os =>
      unfold Ideal.perform
      simp only
      split_ifs
      · exact boot_reachable (install_reachable h)
      · exact install_reachable h
  | bootPartition request => exact setDefault_reachable h hwf
  | reboot => exact boot_reachable h
  | start args =>
    have hargs := arguments_reachable h hwf
    unfold Ideal.perform Ideal.start
    simp only
    split_ifs
    · exact hargs
    · exact hargs
    · exact boot_reachable hargs

/-- On the ideal device, that is all there is to be safe. -/
theorem reachable_iff (m : Machine) : m.ideal.Reachable ↔ Safe m := by
  have hbootable : m.bootable = true ↔ ∃ text, m.ideal.default = some text ∧ namesPartition text = true := by
    unfold Machine.bootable Machine.ideal
    rcases m.world.disk .defaultBootPartition with _ | d
    · simp [Data.contents]
    · cases d <;> simp [Data.contents]
  rw [safe_iff, hbootable, listed_ideal]
  unfold Ideal.Reachable
  exact or_iff_not_imp_left

/-- A plain start boots what is installed. -/
theorem start_plain {d : Ideal} {args : List Text} (hargs : Plain args) (h : d.installed ≠ []) :
    d.start args = d.boot := by
  have hsame : ∀ args, Plain args → d.arguments args = d ∧
      args.any (fun arg => equalsInsensitive arg "-runinstaller".toList) = false := by
    intro args
    induction args with
    | nil => exact fun _ => ⟨rfl, rfl⟩
    | cons arg args ih =>
      intro hargs
      obtain ⟨⟨hrun, hpart⟩, hrest⟩ := List.forall_mem_cons.1 hargs
      obtain ⟨harguments, hany⟩ := ih hrest
      unfold Ideal.arguments
      rw [if_neg (by rw [hpart]; exact Bool.false_ne_true), List.any_cons, hrun, hany]
      exact ⟨harguments, rfl⟩
  obtain ⟨harguments, hany⟩ := hsame args hargs
  unfold Ideal.start
  simp only [harguments, hany, Bool.false_eq_true, if_false, h]

/-- A start that goes to the installer, or tells the firmware to boot the default partition. -/
def ComesUp (I : IntType) (m : Machine) (args : List Text) : Prop :=
  (m.powerOn.run (bootCheck args)).1.1 = false ∨
    ∃ text n, m.ideal.default = some (devicePrefix ++ text) ∧ integer text = some n ∧
      (-2 ^ 31 ≤ n → n < 2 ^ 31 → (m.turn I { task := .start args }).ideal.firmware = some n)

/-- What is listed on a healthy device that is safe can be booted. -/
theorem comesUp_of_reachable {args : List Text} (hm : Healthy m) (hreach : m.ideal.Reachable)
    (hargs : Plain args) : ComesUp I m args := by
  by_cases hnone : m.ideal.installed = []
  · left
    rw [bootCheck_plain hargs, ← Bool.not_eq_true, listed_ideal, not_not]
    exact hnone
  right
  obtain ⟨device, hdefault, hnames⟩ := hreach.resolve_left hnone
  unfold namesPartition at hnames
  rw [Bool.and_eq_true, decide_eq_true_eq, Option.isSome_iff_exists] at hnames
  obtain ⟨⟨text, rfl⟩, n, hn⟩ := hnames
  rw [List.drop_left] at hn
  refine ⟨text, n, hdefault, hn, fun hlow hhigh => ?_⟩
  have hstart : (m.turn I { task := .start args }).ideal = m.ideal.boot := by
    rw [← start_plain hargs hnone]
    exact (device_simulates I).matched m (.start args) hm
  rw [hstart]
  unfold Ideal.boot
  rw [hdefault, Option.bind_some, partitionNumberOf_device hn hlow hhigh]

/-- **A healthy device comes up** behind any tasks: a plain start goes to the installer, or
tells the firmware to boot the default partition. -/
theorem comes_up (hm : Healthy m) (hsafe : Safe m) {ts : List Task} (hwf : ∀ t ∈ ts, t.WellFormed)
    {args : List Text} (hargs : Plain args) :
    let m' := m.turns I (ts.map fun t => { task := t })
    Healthy m' ∧ Safe m' ∧
      ((m'.powerOn.run (bootCheck args)).1.1 = false ∨
        ∃ text n, m'.ideal.default = some (devicePrefix ++ text) ∧ integer text = some n ∧
          (-2 ^ 31 ≤ n → n < 2 ^ 31 → (m'.turn I { task := .start args }).ideal.firmware = some n)) := by
  intro m'
  have hturns : m' = ts.foldl (Machine.uncut I) m := List.foldl_map
  obtain ⟨hhealthy, hideal⟩ := (device_simulates I).run hm ts
  rw [← hturns] at hhealthy hideal
  rw [runLabels_flatMap, List.flatMap_singleton'] at hideal
  have hreach : m'.ideal.Reachable := by
    rw [hideal]
    exact List.foldlRecOn ts (Ideal.perform I) ((reachable_iff m).2 hsafe)
      fun d hd t ht => perform_reachable hd (hwf t ht)
  exact ⟨hhealthy, (reachable_iff m').1 hreach, comesUp_of_reachable hhealthy hreach hargs⟩

/-- A new device on which an operating system is installed boots another partition. -/
theorem newDevice_comes_up :
    let m' := newDevice.turns int32 ([installDemo, bootSeventh].map fun t => { task := t })
    Healthy m' ∧ Safe m' ∧
      ((m'.powerOn.run (bootCheck [])).1.1 = false ∨
        ∃ text n, m'.ideal.default = some (devicePrefix ++ text) ∧ integer text = some n ∧
          (-2 ^ 31 ≤ n → n < 2 ^ 31 → (m'.turn int32 { task := .start [] }).ideal.firmware = some n)) := by
  have hwf : ∀ t ∈ [installDemo, bootSeventh], t.WellFormed := by
    have hnames : namesPartition (cString "/dev/mmcblk0p7".toList) = true := by decide
    exact List.forall_mem_cons.2 ⟨trivial, List.forall_mem_singleton.2 hnames⟩
  exact comes_up newDevice_healthy (safe_iff.2 (by decide)) hwf (by simp [Plain])

end Noobs
