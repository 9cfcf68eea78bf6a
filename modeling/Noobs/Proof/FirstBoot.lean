import Noobs.Proof.Crash
import Noobs.Proof.Restart
import Noobs.Proof.Table

/-!
# The first boot and the installations behind it

`resizePartitions` lays out the card before anything is installed on it. Every
installation then plans behind the settings partition it finds, and writes the whole table
anew. The two planners share the constants of `Utility.h` and no code.

* `resizePartitions_tables`: the only table the first boot writes.
* `checkImages_numbered`: the target's numbers are those of exact integers, where they are
  plain.
* `first_logical`: the first logical partition stands a gap behind the settings partition.
* `partitionTable_keeps`: the table of an installation keeps what the first boot laid out.
* `layouts_agree`: **first boot and installer agree** along every run of installations,
  none of which has a line break in the type of a primary partition.
-/

namespace Noobs

open Prog
open PreSetup (initialLines settingsPartitionSize resizePartitions resizePartitions_sat)

variable {m : InstallManager} {sys : Sysfs} {table : Text} {start size : ℤ} {P : Text → Prop}

/-! ## The first boot -/

/-- The table of the first boot, for a rescue partition there. -/
def firstTable (start size : ℤ) : Text := terminated '\n' (initialLines start size)

/-- Where it has the settings partition. -/
def settingsStart (start size : ℤ) : ℤ := alignUp partitionAlignment (start + size + partitionGap)

/-- The table has the rescue partition, the settings partition and the start of the
extended partition where the first boot has them. -/
structure Keeps (start size : ℤ) (table : Text) : Prop where
  rescue : (lines '\n' table)[0]? = some (number start ++ ',' :: number size ++ ",0E".toList)
  settings : (lines '\n' table)[4]? =
    some (number (settingsStart start size) ++ ',' :: number settingsPartitionSize ++ ",L".toList)
  extended : ∃ (k : ℕ) (sectors : Text), (k = 1 ∨ k = 3) ∧
    (lines '\n' table)[k]? = some (number (start + size) ++ ',' :: sectors ++ ",E".toList)

/-- A table that is written is one of the first boot. -/
def CardCall.First : CardCall → Prop
  | .act (.sfdisk table) => ∃ start size, table = firstTable start size
  | _ => True

/-- **The only table the first boot writes.** -/
theorem resizePartitions_tables : resizePartitions.Sat CardCall.First fun _ => True := by
  refine resizePartitions_sat (fun call hquiet => ?_) trivial fun start size => ⟨start, size, rfl⟩
  cases call with
  | ask q => trivial
  | act s =>
    cases s with
    | sfdisk table => exact hquiet.elim
    | _ => trivial

/-- The settings partition is aligned as `alignUp` has it. -/
theorem initialLines_settings (hstart : 0 ≤ start) (hsize : 0 ≤ size) : (initialLines start size)[4]? =
    some (number (settingsStart start size) ++ ',' :: number settingsPartitionSize ++ ",L".toList) := by
  have hmod : (start + size + partitionGap).tmod partitionAlignment =
      (start + size + partitionGap) % partitionAlignment :=
    Int.tmod_eq_emod_of_nonneg (by unfold partitionGap; omega)
  have hstarts : (if (start + size + partitionGap).tmod partitionAlignment ≠ 0 then
      start + size + partitionGap +
        (partitionAlignment - (start + size + partitionGap).tmod partitionAlignment)
      else start + size + partitionGap) = settingsStart start size := by
    rw [hmod]
    unfold settingsStart alignUp partitionAlignment
    split_ifs <;> omega
  unfold initialLines
  rw [List.getElem?_cons_succ, List.getElem?_cons_succ, List.getElem?_cons_succ, List.getElem?_cons_succ,
    List.getElem?_cons_zero]
  simp only [hstarts]

theorem firstTable_keeps (hstart : 0 ≤ start) (hsize : 0 ≤ size) : Keeps start size (firstTable start size) := by
  have hlines : lines '\n' (firstTable start size) = initialLines start size :=
    lines_terminated (newline_not_mem_initialLines start size)
  refine ⟨?_, ?_, 1, [], Or.inl rfl, ?_⟩
  · rw [hlines]
    rfl
  · rw [hlines]
    exact initialLines_settings hstart hsize
  · rw [hlines]
    simp [initialLines]

/-! ## Installations -/

/-- What is installed at once. -/
inductive Images where
  | one (os : OSInfo)
  | many (oses : List OSInfo)

def Images.oses : Images → List OSInfo
  | one os => [os]
  | many oses => oses

/-- The partitions that are checked for them. -/
def Images.partitions (images : Images) : List PartitionInfo := images.oses.flatMap pinned

/-- What a new manager makes of them. -/
def Images.prepared (sys : Sysfs) : Images → Except String (List OSInfo × InstallManager)
  | one os => (prepareImage int32 (.new int32 sys) os).map fun r => ([r.1], r.2)
  | many oses => prepareImages int32 (.new int32 sys) oses

/-- What it does to install them. -/
def Images.program (sys : Sysfs) : Images → Sys Unit
  | one os => do
    newInstallManager
    let _ ← installOS int32 sys (.new int32 sys) os
    return ()
  | many oses => do
    newInstallManager
    let _ ← installOSes int32 sys (.new int32 sys) oses
    return ()

/-- An installation: the machine it starts on, what `sysfs` says then, and after how many
questions and steps the power is cut, if it is. -/
structure Install where
  before : Machine
  sys : Sysfs
  images : Images
  cut : Option ℕ := none

/-- The machine it leaves. -/
def Install.after (i : Install) : Machine :=
  match i.cut with
  | none => (i.before.run (i.images.program i.sys)).2
  | some k => (i.before.stop k (i.images.program i.sys)).powerCut

/-- The plan of an installation is accepted; it has no fixed offsets, only numbers of
primary and logical partitions, and a logical one among them. -/
structure Install.Accepts (i : Install) (mgr : InstallManager) : Prop where
  prepared : ∃ oses, i.images.prepared i.sys = .ok (oses, mgr)
  /-- The required numbers are `int`s. -/
  int : ∀ p ∈ i.images.partitions, p.requiresPartitionNumber < 2 ^ 31
  free : ∀ p ∈ i.images.partitions, p.offset = 0
  plain : PlainNumbers mgr.partitionMap
  logical : ∃ n ∈ mgr.partitionMap.keys, 6 ≤ n

/-- `sysfs` shows the rescue and the settings partition as the table has them. -/
structure Reflects (table : Text) (sys : Sysfs) : Prop where
  rescue : ∃ rest, (lines '\n' table)[0]? =
    some (number sys.startP1 ++ ',' :: (number sys.sizeP1 ++ ',' :: rest))
  settings : ∃ rest, (lines '\n' table)[4]? =
    some (number sys.startP5 ++ ',' :: (number sys.sizeP5 ++ ',' :: rest))

/-- Installations one after the other, on a card that has this table before the first. In
between anything may happen that leaves the table as it is. -/
def IsRun : Text → List Install → Prop
  | _, [] => True
  | table, i :: is => i.before.world.table = table ∧ Reflects table i.sys ∧ (∃ mgr, i.Accepts mgr) ∧
      IsRun i.after.world.table is

/-- No primary partition has a line break in its type. -/
def Install.Clean (i : Install) : Prop :=
  ∀ p ∈ i.images.partitions, p.requiresPartitionNumber = 2 ∨ p.requiresPartitionNumber = 3 ∨
    p.requiresPartitionNumber = 4 → '\n' ∉ p.partitionType

/-- The installation agrees with the first boot. -/
structure Install.Agrees (start size : ℤ) (i : Install) (mgr : InstallManager) : Prop where
  startSector : (InstallManager.new int32 i.sys).startSector =
    settingsStart start size + settingsPartitionSize
  first : ∃ n p rest, mgr.partitionMap.entries.filter (fun e => 6 ≤ e.1) = (n, p) :: rest ∧
    p.offset = i.sys.startP5 + i.sys.sizeP5 + partitionGap
  table : ∀ table, partitionTable i.sys mgr.partitionMap = .ok table → Keeps start size table
  card : Keeps start size i.after.world.table

/-! ## The tables of an installation -/

/-- Every table that is handed to `sfdisk` is such a one. -/
def Call.Hands (P : Text → Prop) (c : Call) : Prop :=
  ∀ d, c = .act .sfdisk d → ∃ table, d = .text table ∧ P table

theorem hands_of_avoids {α : Type} {p : Sys α} {Q : α → Prop} (h : p.Sat (Call.Avoids (· = .sfdisk)) Q) :
    p.Sat (Call.Hands P) Q :=
  h.mono (fun _ hc d hd => absurd rfl (hc .sfdisk d hd)) fun _ hQ => hQ

theorem setDefaultBoot_hands (os : OSInfo) : os.setDefaultBoot.Sat (Call.Hands P) fun _ => True := by
  refine hands_of_avoids ((setDefaultBoot_avoids os).mono (fun c hc s d hact hs => ?_) fun _ hQ => hQ)
  exact hc s d hact (Or.inr hs)

/-- The table of a plan is such a one. -/
def Tables (P : Text → Prop) (sys : Sysfs) (mgr : InstallManager) : Prop :=
  ∀ table, partitionTable sys mgr.partitionMap = .ok table → P table

theorem writePartitionTable_hands {mgr : InstallManager} (h : Tables P sys mgr) :
    (writePartitionTable sys mgr.partitionMap).Sat (Call.Hands P) fun _ => True := by
  have hact : ∀ {s d}, s ≠ .sfdisk → (act s d).Sat (Call.Hands P) fun _ => True :=
    fun hs => hands_of_avoids (avoids_act hs)
  unfold writePartitionTable
  cases htable : partitionTable sys mgr.partitionMap with
  | error e => exact sat_pure trivial
  | ok table =>
    have hsfdisk : (act .sfdisk (.text table)).Sat (Call.Hands P) fun _ => True := by
      refine sat_issue ?_ fun _ => trivial
      rintro d ⟨⟩
      exact ⟨table, rfl, h table htable⟩
    refine sat_bind (hact (by simp)) fun _ _ => sat_bind (hact (by simp)) fun _ _ => ?_
    refine sat_bind hsfdisk fun _ _ => sat_bind (hact (by simp)) fun _ _ => ?_
    exact sat_bind (hact (by simp)) fun _ _ => sat_bind (hact (by simp)) fun _ _ => sat_pure trivial

theorem partitionSDCard_hands {mgr : InstallManager} (h : Tables P sys mgr) :
    (partitionSDCard sys mgr.partitionMap).Sat (Call.Hands P) fun _ => True := by
  have hzero : (zeroPartitions mgr.partitionMap.values).Sat (Call.Hands P) fun _ => True :=
    hands_of_avoids (sat_avoids (zeroPartitions_sat _) fun _ => eq_sfdisk)
  have hlayOut := sat_guard trivial (writePartitionTable_hands h) hzero
  unfold partitionSDCard
  refine sat_bind (hands_of_avoids avoids_ask) fun present _ => ?_
  cases present with
  | false => exact hlayOut
  | true => exact sat_bind (hands_of_avoids (avoids_act (by simp))) fun _ _ => hlayOut

theorem installOS_hands {mgr mgr' : InstallManager} {os os' : OSInfo} (h : Tables P sys mgr')
    (hprep : prepareImage int32 mgr os = .ok (os', mgr')) :
    (installOS int32 sys mgr os).Sat (Call.Hands P) fun _ => True := by
  simp only [installOS, hprep]
  refine sat_bind (partitionSDCard_hands h) fun partitioned _ => ?_
  cases partitioned with
  | false => exact sat_pure trivial
  | true =>
    refine sat_bind (hands_of_avoids (writeImage_table [] os')) fun ⟨_, written, _⟩ _ => ?_
    exact sat_bind (setDefaultBoot_hands written) fun _ _ => sat_pure trivial

theorem installOSes_hands {mgr mgr' : InstallManager} {oses oses' : List OSInfo} (h : Tables P sys mgr')
    (hprep : prepareImages int32 mgr oses = .ok (oses', mgr')) :
    (installOSes int32 sys mgr oses).Sat (Call.Hands P) fun _ => True := by
  simp only [installOSes, hprep]
  refine sat_bind (partitionSDCard_hands h) fun partitioned _ => ?_
  cases partitioned with
  | false => exact sat_pure trivial
  | true =>
    refine sat_bind (hands_of_avoids (writeImages_table [] oses')) fun ⟨_, written⟩ _ => ?_
    cases written with
    | nil => exact sat_pure trivial
    | cons os rest => exact sat_bind (setDefaultBoot_hands os) fun _ _ => sat_pure trivial

/-- A single operating system is prepared like a list of one. -/
theorem prepared_one {os : OSInfo} {mgr : InstallManager} {oses : List OSInfo}
    (h : (Images.one os).prepared sys = .ok (oses, mgr)) :
    ∃ os', prepareImage int32 (.new int32 sys) os = .ok (os', mgr) ∧ oses = [os'] := by
  simp only [Images.prepared] at h
  cases hone : prepareImage int32 (.new int32 sys) os with
  | error e =>
    rw [hone] at h
    cases h
  | ok r =>
    rw [hone] at h
    obtain ⟨rfl, rfl⟩ := Prod.mk.inj (Except.ok.inj h)
    exact ⟨r.1, rfl, rfl⟩

/-- **The only table an installation writes** is that of its plan. -/
theorem program_hands {images : Images} {mgr : InstallManager} {oses : List OSInfo} (h : Tables P sys mgr)
    (hprep : images.prepared sys = .ok (oses, mgr)) :
    (images.program sys).Sat (Call.Hands P) fun _ => True := by
  have hact : ∀ {s d}, s ≠ .sfdisk → (act s d).Sat (Call.Hands P) fun _ => True :=
    fun hs => hands_of_avoids (avoids_act hs)
  have hnew : newInstallManager.Sat (Call.Hands P) fun _ => True :=
    sat_bind (hact (by simp)) fun _ _ => sat_bind (hact (by simp)) fun _ _ => sat_pure trivial
  cases images with
  | one os =>
    obtain ⟨os', hone, -⟩ := prepared_one hprep
    exact sat_bind hnew fun _ _ => sat_bind (installOS_hands h hone) fun _ _ => sat_pure trivial
  | many oses =>
    exact sat_bind hnew fun _ _ => sat_bind (installOSes_hands h hprep) fun _ _ => sat_pure trivial

/-- The card keeps its table or gets that of the plan, wherever the installation ends. -/
theorem after_table {i : Install} {mgr : InstallManager} (h : i.Accepts mgr) :
    i.after.world.table = i.before.world.table ∨
      partitionTable i.sys mgr.partitionMap = .ok i.after.world.table := by
  obtain ⟨oses, hprep⟩ := h.prepared
  have hthroughout : (i.images.program i.sys).Throughout serve
      (fun x => x.world.table = i.before.world.table ∨
        partitionTable i.sys mgr.partitionMap = .ok x.world.table) i.before := by
    have hhands := program_hands (fun table htable => htable :
      Tables (fun table => partitionTable i.sys mgr.partitionMap = .ok table) i.sys mgr) hprep
    refine hhands.throughout (fun c x hc hx => ?_) (Or.inl rfl)
    cases c with
    | ask q => exact hx
    | act s d =>
      show (x.act s d).2.world.table = _ ∨ _ = Except.ok (x.act s d).2.world.table
      by_cases hs : s = .sfdisk
      -- `sfdisk` either takes the table it gets or leaves the old one
      · subst hs
        obtain ⟨table, rfl, htable⟩ := hc d rfl
        cases hok : (x.act .sfdisk (.text table)).1 with
        | true =>
          rw [act_sfdisk hok]
          exact Or.inr htable
        | false =>
          have hsame : (x.act .sfdisk (.text table)).2.world.table = x.world.table := by
            have hfail : ¬(x.next .sfdisk).ok = true := by
              rw [show (x.next .sfdisk).ok = false from hok]
              simp
            show (if (x.next .sfdisk).ok = true then _ else x.world).table = x.world.table
            rw [if_neg hfail]
          rw [hsame]
          exact hx
      · rw [act_table hs]
        exact hx
  unfold Install.after
  cases i.cut with
  | none => exact hthroughout.run
  | some k => exact hthroughout k

/-! ## The plan of an installation -/

/-- An accepted plan was checked, and then calculated. -/
theorem prepared_ok {images : Images} {mgr : InstallManager} {oses : List OSInfo}
    (h : images.prepared sys = .ok (oses, mgr)) : ∃ m,
      checkImages int32 (.new int32 sys) images.oses = .ok (oses, m) ∧
        calculateSpaceRequirements int32 m = .ok mgr := by
  cases images with
  | one os =>
    obtain ⟨os', hone, rfl⟩ := prepared_one h
    obtain ⟨⟨os₁, m⟩, hcheck, hrest⟩ := bind_ok.1 hone
    obtain ⟨m', hcalc, hr⟩ := bind_ok.1 hrest
    obtain ⟨rfl, rfl⟩ := Prod.mk.inj (pure_ok.1 hr)
    refine ⟨m, ?_, hcalc⟩
    unfold Images.oses checkImages
    rw [hcheck]
    rfl
  | many all =>
    obtain ⟨⟨oses', m⟩, hcheck, hrest⟩ := bind_ok.1 h
    obtain ⟨m', hcalc, hr⟩ := bind_ok.1 hrest
    obtain ⟨rfl, rfl⟩ := Prod.mk.inj (pure_ok.1 hr)
    exact ⟨m, hcheck, hcalc⟩

/-- An automatic number of the target is negative or stands behind the settings. -/
theorem six_le_int32 {k n : ℤ} (hk : k < 2 ^ 31) (hn : n = int32 (max k 5 + 1)) (hpos : 0 ≤ n) : 6 ≤ n := by
  have hlow : 6 ≤ max k 5 + 1 := by omega
  rcases (show max k 5 + 1 < 2 ^ 31 ∨ max k 5 + 1 = 2 ^ 31 by omega) with hlt | heq
  · rw [int32_eq (by omega) hlt] at hn
    omega
  · -- the largest `int` has the smallest behind it
    have hwrap : int32 (2 ^ 31) = -2 ^ 31 := by decide
    rw [heq, hwrap] at hn
    omega

/-- Plain numbers of the target are those of exact integers. -/
def TargetNumbered (m : InstallManager) : Prop :=
  PlainNumbers m.partitionMap → (∀ e ∈ m.partitionMap.entries, e.2.requiresPartitionNumber < 2 ^ 31) →
    Numbered m.partitionMap ∧ ∀ k ∈ m.partitionMap.keys, k < 2 ^ 31

theorem checkPartition_target {m' : InstallManager} {p p' : PartitionInfo} (hm : TargetNumbered m)
    (h : checkPartition int32 m p = .ok (p', m')) : TargetNumbered m' := by
  obtain ⟨hent, -, hm'⟩ := checkPartition_enters h
  set n := partitionNumber int32 m.partitionMap p with hn
  have hmap : m'.partitionMap = m.partitionMap.insert n (p.onDevice n) := by
    rw [hm']
    rfl
  intro hplain hreq
  -- what holds of all partitions holds of those that were there and of the new one
  have hkeys : ∀ k, k ∈ m'.partitionMap.keys ↔ k = n ∨ k ∈ m.partitionMap.keys := by
    intro k
    rw [hmap, ← SortedMap.contains_iff_mem_keys, SortedMap.contains_insert, SortedMap.contains_iff_mem_keys]
  have hold : ∀ e ∈ m.partitionMap.entries, e ∈ m'.partitionMap.entries := by
    intro e he
    have hne : e.1 ≠ n := by
      intro heq
      have hcont : m.partitionMap.contains n = true := heq ▸ SortedMap.contains_iff.2 ⟨e.2, he⟩
      rw [hent.free] at hcont
      cases hcont
    rw [hmap]
    exact SortedMap.mem_insert.2 (Or.inr ⟨hne, he⟩)
  have hnew : (n, p.onDevice n) ∈ m'.partitionMap.entries := by
    rw [hmap]
    exact SortedMap.mem_insert.2 (Or.inl ⟨rfl, rfl⟩)
  obtain ⟨hnumbered, hlt⟩ := hm (fun k hk => hplain k ((hkeys k).2 (Or.inr hk))) fun e he => hreq e (hold e he)
  have hpos : 0 ≤ n := by
    rcases hplain n ((hkeys n).2 (Or.inl rfl)) with h | h | h | h <;> omega
  have hrequired : p.requiresPartitionNumber < 2 ^ 31 := hreq _ hnew
  have hnumber : n = p.requiresPartitionNumber ∧ p.requiresPartitionNumber ≠ 0 ∨ n = 6 ∨
      ∃ k < 2 ^ 31, n = int32 (max k 5 + 1) := by
    rw [hn]
    unfold partitionNumber
    split_ifs with h0
    · exact Or.inl ⟨rfl, h0⟩
    · cases hlast : m.partitionMap.keys.getLast? with
      | none => exact Or.inr (Or.inl rfl)
      | some k => exact Or.inr (Or.inr ⟨k, hlt k (List.mem_of_getLast? hlast), rfl⟩)
  have hauto : p.requiresPartitionNumber = 0 → 6 ≤ n := by
    intro h0
    rcases hnumber with ⟨-, hne⟩ | h6 | ⟨k, hk, hnk⟩
    · exact absurd h0 hne
    · exact h6.ge
    · exact six_le_int32 hk hnk hpos
  have hnlt : n < 2 ^ 31 := by
    rcases hnumber with ⟨heq, -⟩ | h6 | ⟨k, -, hnk⟩
    · omega
    · omega
    · have := Int.bmod_lt (x := max k 5 + 1) (m := 2 ^ 32) (by decide)
      rw [hnk]
      unfold int32
      omega
  refine ⟨checkPartition_numbered_of hnumbered hauto h, fun k hk => ?_⟩
  rcases (hkeys k).1 hk with rfl | hk
  · exact hnlt
  · exact hlt k hk

theorem checkImages_numbered {oses oses' : List OSInfo}
    (h : checkImages int32 (.new int32 sys) oses = .ok (oses', m)) : TargetNumbered m := by
  refine checkImages_inv (fun _ _ hm => hm) (fun _ _ _ _ => checkPartition_target) ?_ h
  intro _ _
  exact ⟨numbered_empty, fun k hk => absurd hk List.not_mem_nil⟩

/-- What an installation checks, before it calculates. -/
structure Install.Checked (i : Install) (m : InstallManager) : Prop where
  numbered : Numbered m.partitionMap
  startSector : m.startSector = (InstallManager.new int32 i.sys).startSector
  given : ∀ e ∈ m.partitionMap.entries, ∃ p ∈ i.images.partitions, e.2 = p.onDevice e.1

theorem accepts_checked {i : Install} {mgr : InstallManager} (h : i.Accepts mgr) :
    ∃ m, i.Checked m ∧ PlainNumbers m.partitionMap ∧ calculateSpaceRequirements int32 m = .ok mgr := by
  obtain ⟨oses, hprep⟩ := h.prepared
  obtain ⟨m, hcheck, hcalc⟩ := prepared_ok hprep
  obtain ⟨-, -, hkeys, -⟩ := calculate_entries hcalc
  obtain ⟨ns, -, hperm⟩ := checkImages_entries hcheck
  have hgiven : ∀ e ∈ m.partitionMap.entries, ∃ p ∈ i.images.partitions, e.2 = p.onDevice e.1 := by
    intro e he
    have hmem := hperm.mem_iff.1 he
    simp only [InstallManager.new, SortedMap.entries_empty, List.append_nil] at hmem
    obtain ⟨⟨n, p⟩, hz, rfl⟩ := List.mem_map.1 hmem
    exact ⟨p, (List.of_mem_zip hz).2, rfl⟩
  have hplain : PlainNumbers m.partitionMap := by
    unfold PlainNumbers
    rw [← hkeys]
    exact h.plain
  have hrequired : ∀ e ∈ m.partitionMap.entries, e.2.requiresPartitionNumber < 2 ^ 31 := by
    intro e he
    obtain ⟨p, hp, heq⟩ := hgiven e he
    rw [heq]
    exact h.int p hp
  have hstart : m.startSector = (InstallManager.new int32 i.sys).startSector := by
    refine checkImages_inv (P := fun m => m.startSector = (InstallManager.new int32 i.sys).startSector)
      (fun _ _ hm => hm) (fun m p p' m' hm hstep => ?_) rfl hcheck
    obtain ⟨-, -, rfl⟩ := checkPartition_enters hstep
    exact hm
  exact ⟨m, ⟨(checkImages_numbered hcheck hplain hrequired).1, hstart, hgiven⟩, hplain, hcalc⟩

/-- Behind a settings partition that ends a gap before an aligned sector, nothing is lost. -/
theorem partitionStart_gap {p : PartitionInfo} {off s : ℤ} (hfree : p.offset = 0) (h0 : 0 ≤ off)
    (hfit : off + partitionGap < 2 ^ 31) (haligned : partitionAlignment ∣ off + partitionGap)
    (h : partitionStart int32 off p = .ok s) : s = off + partitionGap := by
  have hgap : int32 (off + partitionGap) = off + partitionGap :=
    int32_eq (by unfold partitionGap; omega) hfit
  have hmod : (off + partitionGap).tmod partitionAlignment = 0 := Int.dvd_iff_tmod_eq_zero.1 haligned
  unfold partitionStart at h
  simp only [hgap] at h
  rw [if_neg (not_not.2 hfree), if_neg (not_not.2 hmod)] at h
  exact (Except.ok.inj h).symm

/-- **The first logical partition** stands a gap behind the settings partition. -/
theorem first_logical {i : Install} {mgr : InstallManager} {off : ℤ} (h : i.Accepts mgr)
    (hoff : (InstallManager.new int32 i.sys).startSector = off) (h0 : 0 ≤ off)
    (hfit : off + partitionGap < 2 ^ 31) (haligned : partitionAlignment ∣ off + partitionGap) :
    ∃ n p rest, mgr.partitionMap.entries.filter (fun e => 6 ≤ e.1) = (n, p) :: rest ∧
      p.offset = off + partitionGap := by
  obtain ⟨m, hchecked, hplain, hcalc⟩ := accepts_checked h
  obtain ⟨-, -, hkeys, -⟩ := calculate_entries hcalc
  have horder := calculate_order hchecked.numbered hplain hcalc
  rw [hchecked.startSector, hoff] at horder
  -- the row that is placed begins with a logical partition
  obtain ⟨n, hn, h6⟩ := h.logical
  rw [hkeys] at hn
  obtain ⟨e, he, rfl⟩ := List.mem_map.1 hn
  have hmem : e ∈ m.partitionMap.entries.filter fun e => 6 ≤ e.1 :=
    List.mem_filter.2 ⟨he, by simpa using h6⟩
  obtain ⟨⟨k, p⟩, rest, hrow⟩ := List.exists_cons_of_ne_nil (List.ne_nil_of_mem hmem)
  have hfirst : (k, p) ∈ m.partitionMap.entries.filter fun e => 6 ≤ e.1 := by
    rw [hrow]
    exact List.mem_cons_self
  obtain ⟨hkp, hk6⟩ := List.mem_filter.1 hfirst
  have hfree : p.offset = 0 := by
    obtain ⟨q, hq, heq⟩ := hchecked.given _ hkp
    obtain rfl : p = q.onDevice k := heq
    exact h.free q hq
  have hbegins : placementOrder m.partitionMap =
      (k, p) :: (rest ++ m.partitionMap.entries.filter fun e => e.1 < 6) := by
    unfold placementOrder
    rw [hrow]
    rfl
  rw [hbegins] at horder
  obtain ⟨s, tail, hs, -, hplaced⟩ := placePartitions_step horder
  have hgap := partitionStart_gap hfree h0 hfit haligned hs
  -- and so does the row of the new map
  unfold placementOrder at hplaced
  cases hrow' : mgr.partitionMap.entries.filter fun e => 6 ≤ e.1 with
  | nil =>
    rw [hrow', List.nil_append] at hplaced
    have hprimary := List.mem_filter.1 (hplaced ▸ List.mem_cons_self)
    simp only [decide_eq_true_eq] at hprimary hk6
    omega
  | cons e' rest' =>
    rw [hrow', List.cons_append] at hplaced
    obtain ⟨rfl, -⟩ := List.cons.inj hplaced
    exact ⟨_, _, rest', rfl, hgap⟩

/-! ## The table of an installation -/

/-- `sysfs` shows what the first boot laid out, as long as the table keeps it. -/
theorem reflects_keeps (hkeeps : Keeps start size table) (hreflects : Reflects table sys) :
    sys.startP1 = start ∧ sys.sizeP1 = size ∧ sys.startP5 = settingsStart start size ∧
      sys.sizeP5 = settingsPartitionSize := by
  have hread : ∀ {k : ℕ} {a b c d : ℤ} {s t : Text},
      (lines '\n' table)[k]? = some (number a ++ ',' :: (number b ++ ',' :: s)) →
      (lines '\n' table)[k]? = some (number c ++ ',' :: (number d ++ ',' :: t)) → a = c ∧ b = d := by
    intro k a b c d s t ha hc
    rw [ha] at hc
    obtain ⟨hac, hrest⟩ := number_comma (Option.some.inj hc)
    exact ⟨hac, (number_comma hrest).1⟩
  obtain ⟨r1, h1⟩ := hreflects.rescue
  obtain ⟨r5, h5⟩ := hreflects.settings
  have hrescue := hkeeps.rescue
  have hsettings := hkeeps.settings
  simp only [List.append_assoc, List.cons_append] at hrescue hsettings
  obtain ⟨hp1, hs1⟩ := hread h1 hrescue
  obtain ⟨hp5, hs5⟩ := hread h5 hsettings
  exact ⟨hp1, hs1, hp5, hs5⟩

/-- **The table of an installation keeps what the first boot laid out**, if none of its
first five lines has a line break inside. -/
theorem partitionTable_keeps {map : SortedMap ℤ PartitionInfo} (hp1 : sys.startP1 = start)
    (hs1 : sys.sizeP1 = size) (hp5 : sys.startP5 = settingsStart start size)
    (hs5 : sys.sizeP5 = settingsPartitionSize)
    (hclean : ∀ e ∈ map.entries, e.1 < 6 → '\n' ∉ e.2.partitionType)
    (h : partitionTable sys map = .ok table) : Keeps start size table := by
  obtain ⟨-, -, -, -, n, hgreatest, rfl⟩ := partitionTable_ok h
  have h5 : (5 : ℤ) ≤ n := hgreatest.2 (Or.inl rfl)
  -- a line break further behind does not move the lines in front of it
  have hfront : ∀ l ∈ (tableLines (systemMap sys map) n).take 5, '\n' ∉ l := by
    intro l hl
    obtain ⟨k, hk, hget⟩ := List.mem_take_iff_getElem.1 hl
    have hk5 : k < 5 := by omega
    have hline : (tableLines (systemMap sys map) n)[k]? = some (tableLine (systemMap sys map) (k + 1)) := by
      rw [getElem?_tableLines, if_pos (by omega)]
    rw [← hget, (List.getElem?_eq_some_iff.1 hline).2]
    exact newline_not_mem_tableLine fun q hq => hclean _ (SortedMap.find?_eq_some.1 hq) (by simp only; omega)
  have hline : ∀ k : ℕ, k < 5 → (lines '\n' (terminated '\n' (tableLines (systemMap sys map) n)))[k]? =
      some (tableLine (systemMap sys map) (k + 1)) := by
    intro k hk
    have hlen : k < (tableLines (systemMap sys map) n).length := by
      unfold tableLines
      rw [List.length_map, List.length_range]
      omega
    rw [getElem?_lines_terminated hfront hk hlen, getElem?_tableLines, if_pos (by omega)]
  have hx := extendedNumber_mem map
  refine ⟨?_, ?_, (extendedNumber map - 1).toNat, number (lastEnd sys map - (start + size)), ?_, ?_⟩
  · rw [hline 0 (by omega), tableLine, systemMap_find?, if_neg (by omega), if_neg (by omega), if_pos (by omega),
      ← hp1, ← hs1]
    simp [partitionLine, rescuePartition, PartitionInfo.system]
  · rw [hline 4 (by omega), tableLine, systemMap_find?, if_neg (by omega), if_pos (by omega), ← hp5, ← hs5]
    simp [partitionLine, settingsPartition, PartitionInfo.system]
  · omega
  · rw [hline _ (by omega), tableLine, systemMap_find?, if_pos (by omega), ← hp1, ← hs1]
    simp [partitionLine, extendedPartition, PartitionInfo.system]

/-- The primary partitions of an accepted plan have the types that were given. -/
theorem clean_types {i : Install} {mgr : InstallManager} (h : i.Accepts mgr) (hclean : i.Clean) :
    ∀ e ∈ mgr.partitionMap.entries, e.1 < 6 → '\n' ∉ e.2.partitionType := by
  obtain ⟨m, hchecked, hplain, hcalc⟩ := accepts_checked h
  intro e he h6
  obtain ⟨q, hq, heq⟩ := calculate_partner hcalc e he
  obtain ⟨p, hp, hqp⟩ := hchecked.given _ hq
  have hrequired : p.requiresPartitionNumber = e.1 := by
    obtain rfl : q = p.onDevice e.1 := hqp
    rcases hchecked.numbered.own _ _ hq with hown | ⟨-, hlarge⟩
    · exact hown
    · omega
  have hprimary : e.1 = 2 ∨ e.1 = 3 ∨ e.1 = 4 := by
    rcases hplain e.1 (List.mem_map.2 ⟨_, hq, rfl⟩) with h2 | h3 | h4 | hlarge <;> omega
  have htype : e.2.partitionType = p.partitionType := by
    obtain rfl : q = p.onDevice e.1 := hqp
    rw [heq]
    rfl
  rw [htype]
  exact hclean p hp (by omega)

/-! ## Runs -/

/-- One installation on a card that keeps the layout of the first boot. -/
theorem install_agrees {i : Install} {mgr : InstallManager} (hstart : 0 ≤ start) (hsize : 0 ≤ size)
    (hfit : settingsStart start size + settingsPartitionSize + partitionGap < 2 ^ 31)
    (hkeeps : Keeps start size i.before.world.table) (hreflects : Reflects i.before.world.table i.sys)
    (haccepts : i.Accepts mgr) (hclean : i.Clean) : i.Agrees start size mgr := by
  obtain ⟨hp1, hs1, hp5, hs5⟩ := reflects_keeps hkeeps hreflects
  have hgap : (2 : ℤ) = partitionGap := rfl
  have hsettings : (65534 : ℤ) = settingsPartitionSize := rfl
  have hbehind : start + size + partitionGap ≤ settingsStart start size := le_alignUp (by decide) _
  have hsector : (InstallManager.new int32 i.sys).startSector =
      settingsStart start size + settingsPartitionSize := by
    unfold InstallManager.new
    simp only [hp5, hs5]
    exact int32_eq (by omega) (by omega)
  -- the settings partition and the gap behind it fill their 4 MiB
  have haligned : partitionAlignment ∣ settingsStart start size + settingsPartitionSize + partitionGap := by
    have hunits : partitionAlignment ∣ settingsPartitionSize + partitionGap := by decide
    rw [add_assoc]
    exact Int.dvd_add (dvd_alignUp _ _) hunits
  have htable : ∀ table, partitionTable i.sys mgr.partitionMap = .ok table → Keeps start size table :=
    fun table => partitionTable_keeps hp1 hs1 hp5 hs5 (clean_types haccepts hclean)
  refine ⟨hsector, ?_, htable, ?_⟩
  · rw [hp5, hs5]
    exact first_logical haccepts hsector (by omega) hfit haligned
  · rcases after_table haccepts with hsame | hwritten
    · rw [hsame]
      exact hkeeps
    · exact htable _ hwritten

/-- Every installation of a run agrees with the first boot that the card keeps. -/
theorem run_agrees {is : List Install} (hstart : 0 ≤ start) (hsize : 0 ≤ size)
    (hfit : settingsStart start size + settingsPartitionSize + partitionGap < 2 ^ 31)
    (hkeeps : Keeps start size table) (hrun : IsRun table is) (hclean : ∀ i ∈ is, i.Clean) :
    ∀ i ∈ is, ∀ mgr, i.Accepts mgr → i.Agrees start size mgr := by
  induction is generalizing table with
  | nil => exact fun i hi => absurd hi List.not_mem_nil
  | cons i is ih =>
    obtain ⟨rfl, hreflects, ⟨mgr, haccepts⟩, hrest⟩ := hrun
    rw [List.forall_mem_cons] at hclean
    have hagrees : ∀ mgr, i.Accepts mgr → i.Agrees start size mgr := fun _ haccepts =>
      install_agrees hstart hsize hfit hkeeps hreflects haccepts hclean.1
    exact List.forall_mem_cons.2 ⟨hagrees, ih (hagrees mgr haccepts).card hrest hclean.2⟩

/-- **First boot and installer agree.** The first boot puts the settings partition at the
first aligned sector behind the gap. Along every run of installations behind it, if no
primary partition has a line break in its type, each manager computes the same
`_startSector` and places its first logical partition right behind the gap, and each table
keeps the rescue partition, the settings partition and the start of the extended one. -/
theorem layouts_agree (start size : ℤ) (hstart : 0 ≤ start) (hsize : 0 ≤ size)
    (hfit : settingsStart start size + settingsPartitionSize + partitionGap < 2 ^ 31) :
    Keeps start size (firstTable start size) ∧
      IsLeast {s | partitionAlignment ∣ s ∧ start + size + partitionGap ≤ s} (settingsStart start size) ∧
      ∀ is, IsRun (firstTable start size) is → (∀ i ∈ is, i.Clean) →
        ∀ i ∈ is, ∀ mgr, i.Accepts mgr → i.Agrees start size mgr := by
  have hkeeps := firstTable_keeps hstart hsize
  refine ⟨hkeeps, isLeast_alignUp (by decide) _, fun is hrun hclean => ?_⟩
  exact run_agrees hstart hsize hfit hkeeps hrun hclean

/-! ## Example runs -/

/-- The manager of an installation, with its plan. -/
def Install.manager (i : Install) : InstallManager :=
  match i.images.prepared i.sys with
  | .ok r => r.2
  | .error _ => .new int32 i.sys

/-- A device after its first boot, on which nothing fails. -/
def freshDevice : Machine :=
  { world := { table := firstTable 8192 204800 }
    outcome := fun _ _ => { ok := true } }

/-- An operating system that claims primary 2. -/
def primaryOs : OSInfo :=
  { partitions := [{ fsType := "FAT".toList, partitionType := "0c".toList, partitionSizeNominal := 62,
                     requiresPartitionNumber := 2 },
                   { fsType := "ext4".toList, partitionType := "83".toList, partitionSizeNominal := 1000,
                     wantMaximised := true }] }

/-- It moves the extended partition to line 4. -/
def firstInstall : Install := { before := freshDevice, sys := demoCard, images := .one primaryOs }

/-- The next operating system moves it back. -/
def secondInstall : Install := { before := firstInstall.after, sys := demoCard, images := .many [smallOs] }

theorem firstInstall_accepts : firstInstall.Accepts firstInstall.manager :=
  ⟨⟨_, rfl⟩, by decide, by decide, by decide, by decide⟩

theorem secondInstall_accepts : secondInstall.Accepts secondInstall.manager :=
  ⟨⟨_, rfl⟩, by decide, by decide, by decide, by decide⟩

/-- Both installations agree with the first boot. -/
theorem moved_and_back : firstInstall.Agrees 8192 204800 firstInstall.manager ∧
    secondInstall.Agrees 8192 204800 secondInstall.manager := by
  have hfirst : Reflects (firstTable 8192 204800) demoCard :=
    ⟨⟨"0E".toList, by decide⟩, ⟨"L".toList, by decide⟩⟩
  have hsecond : Reflects firstInstall.after.world.table demoCard :=
    ⟨⟨"0E".toList, by decide⟩, ⟨"L".toList, by decide⟩⟩
  have hrun : IsRun (firstTable 8192 204800) [firstInstall, secondInstall] :=
    ⟨rfl, hfirst, ⟨_, firstInstall_accepts⟩, rfl, hsecond, ⟨_, secondInstall_accepts⟩, trivial⟩
  have hclean : ∀ i ∈ [firstInstall, secondInstall], i.Clean := by
    rw [List.forall_mem_cons, List.forall_mem_singleton]
    unfold Install.Clean
    exact ⟨by decide, by decide⟩
  have hagree := (layouts_agree 8192 204800 (by decide) (by decide) (by decide)).2.2 _ hrun hclean
  exact ⟨hagree _ (by simp) _ firstInstall_accepts, hagree _ (by simp) _ secondInstall_accepts⟩

/-- An operating system whose primary partition has a type of two lines. -/
def twoLineOs : OSInfo :=
  { partitions := [{ fsType := "ext4".toList, partitionType := "83\n1,1".toList, partitionSizeNominal := 62,
                     requiresPartitionNumber := 3 },
                   { fsType := "ext4".toList, partitionType := "83".toList, partitionSizeNominal := 1000 }] }

def twoLineInstall : Install := { before := freshDevice, sys := demoCard, images := .one twoLineOs }

/-- The type's second line becomes line 4 of the table, and line 5 is empty: the settings
partition is gone. -/
theorem settings_displaced :
    settingsStart 8192 204800 + settingsPartitionSize + partitionGap < 2 ^ 31 ∧
    IsRun (firstTable 8192 204800) [twoLineInstall] ∧
    (∀ p ∈ twoLineInstall.images.partitions, 1 ≤ p.partitionSizeNominal) ∧
    twoLineInstall.Accepts twoLineInstall.manager ∧
    ¬twoLineInstall.Agrees 8192 204800 twoLineInstall.manager := by
  have haccepts : twoLineInstall.Accepts twoLineInstall.manager :=
    ⟨⟨_, rfl⟩, by decide, by decide, by decide, by decide⟩
  have hreflects : Reflects (firstTable 8192 204800) demoCard :=
    ⟨⟨"0E".toList, by decide⟩, ⟨"L".toList, by decide⟩⟩
  refine ⟨by decide, ⟨rfl, hreflects, ⟨_, haccepts⟩, trivial⟩, by decide, haccepts, fun h => ?_⟩
  have hsettings := h.card.settings
  have hempty : (lines '\n' twoLineInstall.after.world.table)[4]? = some "0,0".toList := by decide
  rw [hempty] at hsettings
  revert hsettings
  decide

end Noobs
