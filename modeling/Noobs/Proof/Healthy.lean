import Noobs.Proof.Scratch
import Noobs.Proof.Stranded
import Noobs.Proof.Listen
import Noobs.Spec.Ideal

/-!
# A device on which nothing fails

A healthy machine is one on which every step succeeds. Whatever a step leaves alone stays as
it was, so that what becomes of the machine can be told file by file.

* `act_same`: what the steps leave alone.
* `run_setDefault`, `run_boot`, `run_start`: what the tasks without an installation make of
  a healthy machine.
-/

namespace Noobs

open Prog

variable {α : Type} {m m' m'' : Machine} {I : IntType} {sys : Sysfs} {s : Step} {d : Data} {os : OSInfo}
  {p : PartitionInfo} {ps : List PartitionInfo} {plan : List Item} {text : Text} {keeps keeps' : Path → Prop}

/-! ## What is left alone -/

/-- The same but for files that are not to be kept. -/
structure Same (keeps : Path → Prop) (m m' : Machine) : Prop where
  outcome : m'.outcome = m.outcome
  mounted : m'.world.settingsMounted = m.world.settingsMounted
  table : m'.world.table = m.world.table
  disk : ∀ q, keeps q → m'.world.disk q = m.world.disk q
  other : ∀ q, keeps q → m'.world.other q = m.world.other q

theorem Same.refl (m : Machine) : Same keeps m m := ⟨rfl, rfl, rfl, fun _ _ => rfl, fun _ _ => rfl⟩

theorem Same.trans (h : Same keeps m m') (h' : Same keeps m' m'') : Same keeps m m'' :=
  ⟨h'.outcome.trans h.outcome, h'.mounted.trans h.mounted, h'.table.trans h.table,
    fun q hq => (h'.disk q hq).trans (h.disk q hq), fun q hq => (h'.other q hq).trans (h.other q hq)⟩

theorem Same.mono (h : Same keeps m m') (hk : ∀ q, keeps' q → keeps q) : Same keeps' m m' :=
  ⟨h.outcome, h.mounted, h.table, fun q hq => h.disk q (hk q hq), fun q hq => h.other q (hk q hq)⟩

theorem Same.file (h : Same keeps m m') {q : Path} (hq : keeps q) : m'.world.file q = m.world.file q := by
  unfold World.file
  rw [h.mounted, h.disk q hq, h.other q hq]

/-- The step works on none of these files, nor on the table, nor on the mount of the
settings. -/
def Step.Spares (keeps : Path → Prop) (s : Step) : Prop :=
  s ≠ .sfdisk ∧ s ≠ .umount settingsDir ∧ s ≠ .mountSystem settingsDir ∧ ∀ q, keeps q → ¬s.On q

theorem other_setFile (w : World) {path q : Path} (f : Option Data) (hq : q ≠ path) :
    (w.setFile path f).other q = w.other q := by
  unfold World.setFile
  split_ifs
  · rfl
  · exact Function.update_of_ne hq _ _

theorem other_act {q : Path} (h : ¬s.On q) : (m.act s d).2.world.other q = m.world.other q := by
  have hne : ∀ {path}, s.On path → q ≠ path := by
    rintro path hpath rfl
    exact h hpath
  show (m.world.apply s d (m.next s)).other q = m.world.other q
  cases s with
  | remove path =>
    show (if _ then _ else m.world : World).other q = _
    split_ifs
    · exact other_setFile _ _ (hne (Or.inl rfl))
    · rfl
  | openFile path =>
    show (if _ then _ else m.world : World).other q = _
    split_ifs
    · exact other_setFile _ _ (hne (Or.inr (Or.inl rfl)))
    · rfl
  | writeFile path => exact other_setFile _ _ (hne (Or.inr (Or.inr rfl)))
  | mountSystem dir =>
    show (if _ then _ else m.world : World).other q = _
    split_ifs <;> rfl
  | umount dir =>
    show (if _ then _ else if _ then _ else m.world : World).other q = _
    split_ifs <;> rfl
  | mount device command =>
    show (if _ then _ else m.world : World).other q = _
    split_ifs <;> rfl
  | sfdisk =>
    cases d with
    | text table =>
      show (if _ then _ else m.world : World).other q = _
      split_ifs <;> rfl
    | _ => rfl
  | _ => rfl

/-- Whether the settings are mounted changes with their own mount and unmount only. -/
theorem mounted_act_settings (hu : s ≠ .umount settingsDir) (hm : s ≠ .mountSystem settingsDir) :
    (m.act s d).2.world.settingsMounted = m.world.settingsMounted := by
  show (m.world.apply s d (m.next s)).settingsMounted = m.world.settingsMounted
  cases s with
  | remove path =>
    show (if _ then _ else m.world : World).settingsMounted = _
    split_ifs
    · exact (setFile_rest _ _ _).1
    · rfl
  | openFile path =>
    show (if _ then _ else m.world : World).settingsMounted = _
    split_ifs
    · exact (setFile_rest _ _ _).1
    · rfl
  | writeFile path => exact (setFile_rest _ _ _).1
  | mountSystem dir =>
    show (if _ then _ else m.world : World).settingsMounted = _
    rw [if_neg fun h => hm (by rw [h.2])]
  | umount dir =>
    show (if _ then _ else if _ then _ else m.world : World).settingsMounted = _
    rw [if_neg fun h => hu (by rw [h.2])]
    split_ifs <;> rfl
  | mount device command =>
    show (if _ then _ else m.world : World).settingsMounted = _
    split_ifs <;> rfl
  | sfdisk =>
    cases d with
    | text table =>
      show (if _ then _ else m.world : World).settingsMounted = _
      split_ifs <;> rfl
    | _ => rfl
  | _ => rfl

theorem act_same (h : s.Spares keeps) (d : Data) : Same keeps m (m.act s d).2 := by
  obtain ⟨hsfdisk, hu, hm, hon⟩ := h
  exact ⟨rfl, mounted_act_settings hu hm, act_table hsfdisk, fun q hq => disk_act (Or.inl (hon q hq)),
    fun q hq => other_act (hon q hq)⟩

/-- A step on a file spares the others. -/
theorem on_spares {path : Path} (hs : s.On path) : s.Spares (· ≠ path) := by
  have hon : ∀ q, s.On q → q = path := by
    intro q hq
    rcases hs with rfl | rfl | rfl <;> simp_all [Step.On]
  refine ⟨?_, ?_, ?_, fun q hq hs' => hq (hon q hs')⟩
  all_goals rcases hs with rfl | rfl | rfl <;> simp

/-- A program all of whose steps spare the files. -/
theorem run_same {q : Sys α} {Q : α → Prop} (h : q.Sat (Call.Avoids fun s => ¬s.Spares keeps) Q)
    (m : Machine) : Same keeps m (m.run q).2 := by
  have hstays : q.Throughout serve (fun x => Same keeps m x) m :=
    throughout_avoids h (fun _ _ d hs hx => hx.trans (act_same (not_not.1 hs) d)) (Same.refl m)
  exact hstays.run

/-- What every step of a plan preserves, the plan does. -/
theorem perform_inv {R : Machine → Prop}
    (h : ∀ needed applies s e, Item.step needed applies s e ∈ plan → ∀ x, R x → R (x.act s (e x.world)).2)
    (hm : R m) : R (m.perform plan) := by
  induction plan generalizing m with
  | nil => exact hm
  | cons item plan ih =>
    have hrest := fun needed applies s e hmem => h needed applies s e (List.mem_cons_of_mem item hmem)
    cases item with
    | check holds => exact ih hrest hm
    | step needed applies s e =>
      simp only [Machine.perform]
      split_ifs
      · exact ih hrest (h needed applies s e List.mem_cons_self m hm)
      · exact ih hrest hm

/-- A plan all of whose steps spare the files. -/
theorem perform_same (h : ∀ needed applies s e, Item.step needed applies s e ∈ plan → s.Spares keeps) :
    Same keeps m (m.perform plan) :=
  perform_inv (fun needed applies s e hmem _ hx => hx.trans (act_same (h needed applies s e hmem) _))
    (Same.refl m)

/-! ## Healthy machines -/

/-- Every step succeeds. -/
def Unfailing (m : Machine) : Prop := ∀ s n, (m.outcome s n).ok = true

theorem outcome_perform (plan : List Item) (m : Machine) : (m.perform plan).outcome = m.outcome :=
  perform_inv (R := fun x => x.outcome = m.outcome) (fun _ _ _ _ _ _ hx => hx) rfl

theorem Unfailing.perform (h : Unfailing m) (plan : List Item) : Unfailing (m.perform plan) := by
  unfold Unfailing
  rw [outcome_perform]
  exact h

/-- Every step succeeds, the settings are there, no setup script is left behind, and there
is a file for the firmware's parameter. -/
structure Healthy (m : Machine) : Prop where
  ok : Unfailing m
  mounted : m.world.settingsMounted = true
  script : m.world.other .partitionSetup = none
  rebootDev : m.world.rebootDev.isSome = true

theorem Healthy.next (h : Healthy m) (s : Step) : (m.next s).ok = true := h.ok s _

theorem Healthy.act (h : Healthy m) (s : Step) (d : Data) : (m.act s d).1 = true := h.ok s _

theorem rebootDev_congr {w w' : World} (h1 : w'.other .rebootPart2709 = w.other .rebootPart2709)
    (h2 : w'.other .rebootPart2708 = w.other .rebootPart2708) : w'.rebootDev = w.rebootDev := by
  have h1' : w'.file .rebootPart2709 = w.file .rebootPart2709 := h1
  have h2' : w'.file .rebootPart2708 = w.file .rebootPart2708 := h2
  unfold World.rebootDev
  rw [h1', h2']

theorem Healthy.same (h : Healthy m) (hs : Same keeps m m') (h0 : keeps .partitionSetup)
    (h1 : keeps .rebootPart2709) (h2 : keeps .rebootPart2708) : Healthy m' where
  ok := by
    unfold Unfailing
    rw [hs.outcome]
    exact h.ok
  mounted := hs.mounted.trans h.mounted
  script := (hs.other _ h0).trans h.script
  rebootDev := by rw [rebootDev_congr (hs.other _ h1) (hs.other _ h2)]; exact h.rebootDev

theorem ideal_same (hs : Same keeps m m') (h1 : keeps .installedOs) (h2 : keeps .defaultBootPartition)
    (h3 : keeps .rebootPart2709) (h4 : keeps .rebootPart2708) : m'.ideal = m.ideal := by
  unfold Machine.ideal World.firmware
  rw [hs.disk _ h1, hs.disk _ h2, hs.table, hs.other _ h3, hs.other _ h4]

theorem Healthy.file (h : Healthy m) {q : Path} (hq : q.onSettings = true) :
    m.world.file q = m.world.disk q := by
  unfold World.file
  rw [hq, h.mounted]
  rfl

/-! ### The default boot partition -/

theorem bootPlan_succeeds (h : Healthy m) (hbegins : devicePrefix <+: text) : m.Succeeds (bootPlan text) := by
  have hput : ∀ x : Machine, Unfailing x → x.world.file .defaultBootPartition = none →
      x.Succeeds (putPlan .defaultBootPartition (toAscii text)) := by
    intro x hok hnone
    have hcheck : (x.world.file .defaultBootPartition).isNone = true := by
      rw [hnone]
      rfl
    exact ⟨hcheck, fun _ => hok _ _, fun _ => hok _ _, trivial⟩
  refine ⟨decide_eq_true hbegins, ?_⟩
  simp only [Machine.Succeeds]
  split_ifs with hfile
  · have hremoved := (file_act_on m .defaultBootPartition .empty).1
    rw [if_pos (h.next _)] at hremoved
    exact ⟨fun _ => h.act _ _, hput _ h.ok hremoved⟩
  · exact hput m h.ok (by simpa using hfile)

/-- What becomes of the default boot partition. -/
theorem run_setDefault (h : Healthy m) (text : Text) :
    Healthy (m.run (setDefaultBootPartition text)).2 ∧
      (m.run (setDefaultBootPartition text)).2.ideal = m.ideal.setDefault text := by
  by_cases hbegins : devicePrefix <+: text
  · have hplan := bootPlan_succeeds h hbegins
    obtain ⟨-, hm⟩ := (setDefaultBootPartition_follows text).done hplan
    have hsame : Same (· ≠ .defaultBootPartition) m (m.perform (bootPlan text)) := by
      refine perform_same fun needed applies s e hmem => on_spares ?_
      simp only [bootPlan, putPlan, savePlan, List.mem_cons, Item.step.injEq, List.not_mem_nil, or_false,
        false_or, reduceCtorEq] at hmem
      rcases hmem with ⟨-, -, rfl, -⟩ | ⟨-, -, rfl, -⟩ | ⟨-, -, rfl, -⟩
      · exact Or.inl rfl
      · exact Or.inr (Or.inl rfl)
      · exact Or.inr (Or.inr rfl)
    have hhealthy : Healthy (m.perform (bootPlan text)) := h.same hsame (by simp) (by simp) (by simp)
    have hfile := (bootPlan_files hplan).1
    rw [hhealthy.file rfl] at hfile
    rw [hm]
    refine ⟨hhealthy, ?_⟩
    unfold Machine.ideal Ideal.setDefault World.firmware
    rw [if_pos hbegins, hfile, hsame.disk _ (by simp), hsame.table, hsame.other _ (by simp),
      hsame.other _ (by simp)]
    rfl
  · rw [run_default_refused hbegins]
    unfold Ideal.setDefault
    rw [if_neg hbegins]
    exact ⟨h, rfl⟩

/-! ### Booting -/

/-- A line with a number reads as the number. -/
theorem integer_line (n : ℤ) : integer (number n ++ ['\n']) = some n := by
  have hnumber := integer_number n
  have hspaces : ∀ c ∈ number n, isSpace c = false := by
    intro c hc
    rcases mem_number hc with hdigit | rfl
    · exact isSpace_of_isDigit hdigit
    · decide
  have hne : number n ≠ [] := by
    intro hnil
    rw [hnil] at hnumber
    cases hnumber
  have hfront : (number n).dropWhile isSpace = number n := by
    refine List.dropWhile_eq_self_iff.2 fun hl => ?_
    rw [hspaces _ (List.getElem_mem hl)]
    exact Bool.false_ne_true
  have hline : (number n ++ ['\n']).dropWhile isSpace = number n ++ ['\n'] := by
    refine List.dropWhile_eq_self_iff.2 fun hl => ?_
    rw [List.getElem_append_left (List.length_pos_of_ne_nil hne), hspaces _ (List.getElem_mem _)]
    exact Bool.false_ne_true
  have hsame : ((number n ++ ['\n']).dropWhile isSpace).rdropWhile isSpace =
      ((number n).dropWhile isSpace).rdropWhile isSpace := by
    rw [hline, hfront, List.rdropWhile_concat_pos _ _ _ (by decide)]
  unfold integer at hnumber ⊢
  rw [hsame]
  exact hnumber

/-- The default device is the text in its file. -/
theorem ideal_default (h : Healthy m) :
    m.ideal.default.bind partitionNumberOf = partitionNumberOf m.world.defaultDevice := by
  have hnil : partitionNumberOf [] = none := by
    unfold partitionNumberOf
    exact if_pos (by decide)
  unfold World.defaultDevice
  rw [h.file rfl]
  show (Data.contents (m.world.disk .defaultBootPartition)).bind partitionNumberOf = _
  rcases m.world.disk .defaultBootPartition with _ | d
  · exact hnil.symm
  · cases d <;> rfl

/-- What a boot writes is what the firmware reads. -/
theorem firmware_written {w : World} {dev : Path} {n : ℤ} (hdev : m.world.rebootDev = some dev)
    (hfile : w.other dev = some (.text (number n ++ ['\n'])))
    (hother : ∀ q, q ≠ dev → w.other q = m.world.other q) : w.firmware = some n := by
  unfold World.rebootDev at hdev
  unfold World.firmware
  split_ifs at hdev with h9 h8
  · obtain rfl := Option.some.inj hdev
    rw [hfile]
    exact integer_line n
  · obtain rfl := Option.some.inj hdev
    have hnone : m.world.other .rebootPart2709 = none := by simpa [World.file, Path.onSettings] using h9
    rw [hother .rebootPart2709 (by simp), hnone, hfile]
    exact integer_line n

theorem onSettings_rebootDev {w : World} {dev : Path} (h : w.rebootDev = some dev) :
    dev = .rebootPart2709 ∨ dev = .rebootPart2708 := by
  unfold World.rebootDev at h
  split_ifs at h
  · exact Or.inl (Option.some.inj h).symm
  · exact Or.inr (Option.some.inj h).symm

theorem handOver_same (m : Machine) (dev : Path) (n : ℤ) :
    Same (· ≠ dev) m ((m.handOver dev n).act .reboot .empty).2 := by
  have hon : ∀ {x : Machine} {s : Step} (d : Data), s.On dev → Same (· ≠ dev) x (x.act s d).2 :=
    fun d hs => act_same (on_spares hs) d
  have hother : ∀ {x : Machine} {s : Step}, (∃ command, s = .execute command) ∨ s = .reboot →
      Same (· ≠ dev) x (x.act s .empty).2 := by
    rintro x s hs
    refine act_same ⟨?_, ?_, ?_, fun q _ => ?_⟩ _
    all_goals rcases hs with ⟨command, rfl⟩ | rfl <;> simp [Step.On]
  unfold Machine.handOver
  simp only
  refine Same.trans (Same.trans (Same.trans ?_ (hother (Or.inl ⟨_, rfl⟩))) (hother (Or.inl ⟨_, rfl⟩)))
    (hother (Or.inr rfl))
  have hopened : Same (· ≠ dev) m (m.act (.openFile dev) .empty).2 := hon _ (Or.inr (Or.inl rfl))
  split_ifs
  · exact hopened.trans (hon _ (Or.inr (Or.inr rfl)))
  · exact hopened

/-- The ideal device behind a boot that gets as far as to a number. -/
def Ideal.tell (d : Ideal) : Option ℤ → Ideal
  | some n => { d with firmware := some n }
  | none => d

/-- What a boot of a device does: it gets as far as to reboot if its number is known. -/
theorem run_bootDevice_ideal (h : Healthy m) (text : Text) :
    (m.run (bootDevice text)).1 = (partitionNumberOf text).isSome ∧ Healthy (m.run (bootDevice text)).2 ∧
      (m.run (bootDevice text)).2.ideal = m.ideal.tell (partitionNumberOf text) := by
  rw [run_bootDevice]
  cases partitionNumberOf text with
  | none => exact ⟨rfl, h, rfl⟩
  | some n =>
    obtain ⟨dev, hdev⟩ := Option.isSome_iff_exists.1 h.rebootDev
    rw [hdev]
    simp only
    have hsame := handOver_same m dev n
    have hother : dev.onSettings = false := by rcases onSettings_rebootDev hdev with rfl | rfl <;> rfl
    have hfile : ((m.handOver dev n).act .reboot .empty).2.world.other dev =
        some (.text (number n ++ ['\n'])) := by
      have hwritten : (m.handOver dev n).world.file dev = some (.text (number n ++ ['\n'])) :=
        file_handOver (h.ok _ _) (h.ok _ _)
      unfold World.file at hwritten
      rw [hother] at hwritten
      exact hwritten
    have hreboots : ((m.handOver dev n).act .reboot .empty).1 = true := by
      have houtcome : (m.handOver dev n).outcome = m.outcome := hsame.outcome
      show ((m.handOver dev n).next .reboot).ok = true
      unfold Machine.next
      rw [houtcome]
      exact h.ok _ _
    rw [hreboots]
    generalize ((m.handOver dev n).act .reboot .empty).2 = m' at hsame hfile ⊢
    have hne : ∀ q, q ≠ dev → m'.world.other q = m.world.other q := hsame.other
    have hspared : Path.installedOs ≠ dev ∧ Path.defaultBootPartition ≠ dev ∧ Path.partitionSetup ≠ dev := by
      rcases onSettings_rebootDev hdev with rfl | rfl <;> simp
    have hthere : m'.world.rebootDev.isSome = true := by
      have hwritten : (m'.world.file dev).isSome = true := by
        unfold World.file
        rw [hother, Bool.false_and, if_neg Bool.false_ne_true, hfile]
        rfl
      unfold World.rebootDev
      split_ifs with h9 h8
      · rfl
      · rfl
      · rcases onSettings_rebootDev hdev with rfl | rfl
        · exact absurd hwritten h9
        · exact absurd hwritten h8
    refine ⟨rfl, ⟨fun s n => by rw [hsame.outcome]; exact h.ok s n, hsame.mounted.trans h.mounted,
      (hne _ hspared.2.2).trans h.script, hthere⟩, ?_⟩
    unfold Machine.ideal
    rw [hsame.disk _ hspared.1, hsame.disk _ hspared.2.1, hsame.table, firmware_written hdev hfile hne]
    rfl

/-- What a boot of the default partition does. -/
theorem run_boot (h : Healthy m) :
    Healthy (m.run (bootIntoPartition [])).2 ∧ (m.run (bootIntoPartition [])).2.ideal = m.ideal.boot := by
  obtain ⟨-, hhealthy, hideal⟩ := run_bootDevice_ideal h m.world.defaultDevice
  rw [run_boot_default]
  refine ⟨hhealthy, hideal.trans ?_⟩
  unfold Ideal.boot
  rw [ideal_default h]
  cases partitionNumberOf m.world.defaultDevice <;> rfl

/-! ### Starting -/

/-- The arguments of a start. -/
theorem run_arguments (h : Healthy m) (flags : BootFlags) (args : List Text) :
    Healthy (m.run (checkArguments flags args)).2 ∧
      (m.run (checkArguments flags args)).2.ideal = m.ideal.arguments args ∧
      (m.run (checkArguments flags args)).1.runinstaller =
        (flags.runinstaller || args.any fun arg => equalsInsensitive arg "-runinstaller".toList) := by
  induction args generalizing m flags with
  | nil => exact ⟨h, rfl, by simp [checkArguments]⟩
  | cons arg args ih =>
    have hapart : ∀ flag flag' : Text, flag.map foldCase ≠ flag'.map foldCase →
        equalsInsensitive arg flag = true → equalsInsensitive arg flag' = false := by
      intro flag flag' hne hflag
      unfold equalsInsensitive at hflag ⊢
      rw [decide_eq_true_eq] at hflag
      rw [hflag, decide_eq_false hne]
    unfold checkArguments Ideal.arguments
    rw [List.any_cons]
    by_cases hrun : equalsInsensitive arg "-runinstaller".toList = true
    · have hpart := hapart _ "-partition".toList (by decide) hrun
      obtain ⟨hhealthy, hideal, hflag⟩ := ih h { flags with runinstaller := true }
      rw [if_pos hrun, hpart, if_neg Bool.false_ne_true, hrun]
      exact ⟨hhealthy, hideal, by rw [hflag]; simp⟩
    rw [if_neg hrun]
    rw [Bool.not_eq_true] at hrun
    rw [hrun, Bool.false_or]
    by_cases hpart : equalsInsensitive arg "-partition".toList = true
    · rw [if_pos hpart, if_pos hpart]
      cases args with
      | nil => exact ih h flags
      | cons value args =>
        obtain ⟨hset, hideal⟩ := run_setDefault h value
        simp only [run_bind]
        rw [← hideal]
        exact ih hset flags
    rw [if_neg hpart, if_neg hpart]
    split_ifs
    · exact ih h { flags with webserver := false }
    · exact ih h flags

theorem hasInstalledOS_same (m : Machine) : (m.run hasInstalledOS).2 = m := by
  unfold hasInstalledOS getInstalledOS loadFromFile fileExists
  rw [run_bind, run_ask_bind]
  split_ifs
  · rw [run_ask_bind]
    split <;> rfl
  · rfl

theorem listed_ideal (m : Machine) : m.listed = true ↔ m.ideal.installed ≠ [] := by
  unfold Machine.listed Machine.ideal
  simp only
  rcases m.world.disk .installedOs with _ | d
  · simp [Data.entries]
  · rcases d with _ | _ | (_ | _) | _ | _ | _ <;> simp [Data.entries]

theorem world_mountSettings (hok : Unfailing m) :
    (m.act (.mountSystem settingsDir) .empty).2.world = { m.world with settingsMounted := true } := by
  show (if (m.next (.mountSystem settingsDir)).ok = true ∧ settingsDir = settingsDir then _ else _ : World) = _
  rw [if_pos ⟨hok _ _, rfl⟩]

/-- A start finds nothing in memory, and mounts the settings. -/
theorem started (h : Healthy m) : Healthy (m.powerCut.act (.mountSystem settingsDir) .empty).2 ∧
    (m.powerCut.act (.mountSystem settingsDir) .empty).2.ideal = m.ideal := by
  have hworld := world_mountSettings (m := m.powerCut) h.ok
  refine ⟨⟨h.ok, by rw [hworld], by rw [hworld]; rfl, ?_⟩, ?_⟩
  · rw [hworld]
    have hboot := h.rebootDev
    rwa [← @rebootDev_congr m.world { m.powerCut.world with settingsMounted := true } rfl rfl] at hboot
  · unfold Machine.ideal
    rw [hworld]
    rfl

/-- What a start decides. -/
theorem run_bootCheck (h : Healthy m) (args : List Text) :
    Healthy (m.run (bootCheck args)).2 ∧ (m.run (bootCheck args)).2.ideal = m.ideal.arguments args ∧
      (m.run (bootCheck args)).1.1 =
        (!(args.any fun arg => equalsInsensitive arg "-runinstaller".toList) &&
          decide ((m.ideal.arguments args).installed ≠ [])) := by
  obtain ⟨hargs, hideal, hflag⟩ := run_arguments h {} args
  rw [Bool.false_or] at hflag
  unfold bootCheck
  rw [run_bind, hflag]
  generalize args.any (fun arg => equalsInsensitive arg "-runinstaller".toList) = runinstaller
  cases runinstaller with
  | true => exact ⟨hargs, hideal, rfl⟩
  | false =>
    have hlisted : ((m.run (checkArguments {} args)).2.run hasInstalledOS).1 =
        decide ((m.ideal.arguments args).installed ≠ []) := by
      rw [run_hasInstalledOS hargs.mounted, ← hideal, Bool.eq_iff_iff, decide_eq_true_iff]
      exact listed_ideal _
    simp only [Bool.false_eq_true, if_false]
    rw [run_bind, hasInstalledOS_same, hlisted]
    exact ⟨hargs, hideal, rfl⟩

/-- What a start does. -/
theorem run_start (h : Healthy m) (args : List Text) :
    Healthy (m.uncut I (.start args)) ∧ (m.uncut I (.start args)).ideal = m.ideal.start args := by
  obtain ⟨hstarted, hsame⟩ := started h
  have hrun : m.uncut I (.start args) =
      ((m.powerCut.act (.mountSystem settingsDir) .empty).2.run (bootCheck args >>= fun r =>
        if r.1 then (bootIntoPartition [] >>= fun _ => pure ()) else pure ())).2 := rfl
  generalize (m.powerCut.act (.mountSystem settingsDir) .empty).2 = x at hstarted hsame hrun
  obtain ⟨hchecked, hideal, hboots⟩ := run_bootCheck hstarted args
  obtain ⟨hbooted, hboot⟩ := run_boot hchecked
  rw [hsame] at hideal hboots
  rw [hideal] at hboot
  rw [hrun, run_bind, hboots]
  unfold Ideal.start
  simp only
  generalize args.any (fun arg => equalsInsensitive arg "-runinstaller".toList) = runinstaller
  cases runinstaller with
  | true => exact ⟨hchecked, hideal⟩
  | false =>
    by_cases hnothing : (m.ideal.arguments args).installed = []
    · simp only [hnothing, ne_eq, not_true_eq_false, decide_false, Bool.and_false, Bool.false_eq_true, if_false,
        if_true]
      exact ⟨hchecked, hideal⟩
    · simp only [hnothing, ne_eq, not_false_eq_true, decide_true, Bool.not_false, Bool.and_self,
        Bool.false_eq_true, if_false, if_true]
      rw [run_bind]
      exact ⟨hbooted, hboot⟩

end Noobs
