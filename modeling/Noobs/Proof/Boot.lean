import Noobs.Proof.Report

/-!
# Booting what was stored

`setDefaultBootPartition` stores any text behind `/dev/mmcblk0p`; `bootIntoPartition`
reads the file at the next boot and needs an integer there.

* `run_bootDevice`: **what a boot does**, by the device it is given.
* `stored_boots_iff`: **what is stored can be booted** iff an `int` stands behind the
  prefix.
* `default_all_or_nothing_iff`: **the default boot partition is changed or kept** iff the
  text is refused or no step behind the removal of the old file can fail.
-/

namespace Noobs

variable {m : Machine} {s : Step} {d : Data} {text : Text} {n : ℤ} {dev : Path}

/-! ## The steps of a boot -/

/-- The file that takes the number of the partition to boot, if one is there. -/
def World.rebootDev (w : World) : Option Path :=
  if (w.file .rebootPart2709).isSome then some .rebootPart2709
  else if (w.file .rebootPart2708).isSome then some .rebootPart2708
  else none

theorem run_rebootDev : m.run rebootDev = (m.world.rebootDev, m) := by
  unfold rebootDev World.rebootDev fileExists
  rw [run_ask_bind]
  have h1 : m.answer (.fileExists .rebootPart2709) = (m.world.file .rebootPart2709).isSome := rfl
  have h2 : m.answer (.fileExists .rebootPart2708) = (m.world.file .rebootPart2708).isSome := rfl
  rw [h1]
  split_ifs with h9 h8
  · rfl
  · rw [run_ask_bind, h2, if_pos h8]
    rfl
  · rw [run_ask_bind, h2, if_neg h8]
    rfl

/-- A step is taken as often as it stands in the log. -/
theorem next_act {s' : Step} (h : s' ≠ s) : (m.act s d).2.next s' = m.next s' := by
  have htaken : (m.act s d).2.taken s' = m.taken s' := by
    show ((m.log ++ [(⟨s, (m.next s).ok, m.world.settingsMounted⟩ : Entry)]).map Entry.step).count s' = m.taken s'
    rw [List.map_append, List.count_append]
    simp [Machine.taken, Ne.symm h]
  show m.outcome s' ((m.act s d).2.taken s') = m.outcome s' (m.taken s')
  rw [htaken]

/-- The machine that is to reboot, with the number written to `dev` if that opens. -/
def Machine.handOver (m : Machine) (dev : Path) (n : ℤ) : Machine :=
  let opened := m.act (.openFile dev) .empty
  let written := if opened.1 then (opened.2.act (.writeFile dev) (.text (number n ++ ['\n']))).2 else opened.2
  ((written.act (.execute "ifdown -a".toList) .empty).2.act (.execute "umount -ar".toList) .empty).2

/-- **What a boot does**: nothing without a number or a file to write it to. -/
theorem run_bootDevice (text : Text) : m.run (bootDevice text) =
    match partitionNumberOf text, m.world.rebootDev with
    | some n, some dev => (m.handOver dev n).act .reboot .empty
    | _, _ => (false, m) := by
  unfold bootDevice
  cases partitionNumberOf text with
  | none => rfl
  | some n =>
    show m.run (rebootDev >>= _) = _
    rw [run_bind, run_rebootDev]
    cases m.world.rebootDev with
    | none => rfl
    | some dev =>
      unfold Machine.handOver
      show m.run (act (.openFile dev) >>= _) = _
      rw [run_act_bind]
      cases hopen : (m.act (.openFile dev) .empty).1 with
      | true =>
        simp only [hopen, if_true]
        rfl
      | false =>
        simp only [hopen, Bool.false_eq_true, if_false]
        rfl

/-- The device the default boot file names. -/
def World.defaultDevice (w : World) : Text :=
  match w.file .defaultBootPartition with
  | some (.text t) => t
  | _ => []

theorem run_boot_default : m.run (bootIntoPartition []) = m.run (bootDevice m.world.defaultDevice) := by
  have hcontents : m.run (getFileContents .defaultBootPartition) = (m.world.defaultDevice, m) := by
    unfold getFileContents World.defaultDevice
    have hread : m.answer (.readFile .defaultBootPartition) = m.world.file .defaultBootPartition := rfl
    rw [run_ask_bind, hread]
    cases m.world.file .defaultBootPartition with
    | none => rfl
    | some d => cases d <;> rfl
  show m.run (getFileContents .defaultBootPartition >>= _) = _
  rw [run_bind, hcontents]

/-! ## What is stored -/

/-- `bootIntoPartition()` writes `n` to `reboot_part`, if this is there and can be written. -/
def Boots (m : Machine) (n : ℤ) : Prop :=
  ∀ dev, m.world.rebootDev = some dev →
    (m.act (.openFile dev) .empty).1 = true →
    ((m.act (.openFile dev) .empty).2.act (.writeFile dev) (.text (number n ++ ['\n']))).1 = true →
    (m.run (bootIntoPartition [])).2.world.file dev = some (.text (number n ++ ['\n']))

/-- What is stored names a partition, and any later boot that finds it unchanged goes there. -/
def Bootable (s : Text) (stored : Option Data) : Prop :=
  ∃ t n, s = devicePrefix ++ t ∧ integer t = some n ∧
    ∀ m : Machine, m.world.file .defaultBootPartition = stored → Boots m n

theorem file_handOver (hopen : (m.act (.openFile dev) .empty).1 = true)
    (hwrite : ((m.act (.openFile dev) .empty).2.act (.writeFile dev) (.text (number n ++ ['\n']))).1 = true) :
    (m.handOver dev n).world.file dev = some (.text (number n ++ ['\n'])) := by
  unfold Machine.handOver
  simp only [hopen, if_true]
  show ((m.act (.openFile dev) .empty).2.act (.writeFile dev) (.text (number n ++ ['\n']))).2.world.file dev = _
  rw [act_writeFile hwrite, file_setFile, if_pos rfl]

/-- The reboot itself writes nothing. -/
theorem world_reboot (m : Machine) : (m.act .reboot .empty).2.world = m.world := rfl

/-- A machine on which everything succeeds, with a text stored as default. -/
def storing (s : Text) : Machine :=
  { world :=
      { disk := fun p => if p = .defaultBootPartition then some (.text s) else none
        other := fun p => if p = .rebootPart2709 then some (.text []) else none }
    outcome := fun _ _ => { ok := true } }

/-- **What is stored can be booted** iff an `int` stands behind the prefix. -/
theorem stored_boots_iff {s : Text} (h : (m.run (setDefaultBootPartition s)).1 = true) :
    Bootable s ((m.run (setDefaultBootPartition s)).2.world.file .defaultBootPartition) ↔
      (toInt (s.drop devicePrefix.length)).isSome = true := by
  have hplan := (setDefaultBootPartition_follows s).only h
  have hm := (setDefaultBootPartition_follows s).run_eq h
  rw [hm, (bootPlan_files hplan).1]
  constructor
  · rintro ⟨t, n, rfl, ht, hboots⟩
    rw [toAscii_integer ht] at hboots
    rw [List.drop_left]
    by_contra hnone
    rw [Bool.not_eq_true, Option.isSome_eq_false_iff, Option.isNone_iff_eq_none] at hnone
    have hfile := hboots (storing (devicePrefix ++ t)) rfl .rebootPart2709 rfl rfl rfl
    rw [run_boot_default, run_bootDevice] at hfile
    have hnumber : partitionNumberOf (storing (devicePrefix ++ t)).world.defaultDevice = none :=
      (partitionNumberOf_integer ht).trans hnone
    rw [hnumber] at hfile
    -- the file is still empty
    have hempty : (storing (devicePrefix ++ t)).world.file .rebootPart2709 = some (.text []) := rfl
    have htext := Data.text.inj (Option.some.inj (hempty.symm.trans hfile))
    exact List.append_ne_nil_of_right_ne_nil _ (List.cons_ne_nil _ _) htext.symm
  · intro hsome
    obtain ⟨hbegins, -⟩ := hplan
    obtain ⟨t, rfl⟩ := of_decide_eq_true hbegins
    rw [List.drop_left] at hsome
    obtain ⟨n, hn⟩ := Option.isSome_iff_exists.1 hsome
    have ht : integer t = some n := (Option.filter_eq_some_iff.1 hn).1
    refine ⟨t, n, rfl, ht, fun m' hfile dev hdev hopen hwrite => ?_⟩
    rw [toAscii_integer ht] at hfile
    have hdevice : m'.world.defaultDevice = devicePrefix ++ t := by
      unfold World.defaultDevice
      rw [hfile]
    rw [run_boot_default, run_bootDevice, hdevice, partitionNumberOf_integer ht, hn, hdev]
    show ((m'.handOver dev n).act .reboot .empty).2.world.file dev = _
    rw [world_reboot]
    exact file_handOver hopen hwrite

/-- The device of partition 6 is booted. -/
theorem sixth_bootable : Bootable "/dev/mmcblk0p6".toList
    (((storing []).run (setDefaultBootPartition "/dev/mmcblk0p6".toList)).2.world.file
      .defaultBootPartition) :=
  (stored_boots_iff rfl).2 (by decide)

/-- A text that names no partition is stored, too. -/
theorem unbootable_stored :
    ((storing []).run (setDefaultBootPartition "/dev/mmcblk0px".toList)).1 = true ∧
      ¬Bootable "/dev/mmcblk0px".toList
        (((storing []).run (setDefaultBootPartition "/dev/mmcblk0px".toList)).2.world.file
          .defaultBootPartition) := by
  refine ⟨rfl, ?_⟩
  rintro ⟨t, n, hs, ht, -⟩
  change devicePrefix ++ ['x'] = devicePrefix ++ t at hs
  obtain rfl : ['x'] = t := List.append_cancel_left hs
  cases ht

/-! ## All or nothing -/

/-- The default boot file is as it was if the change is reported to have failed, and holds
the given text if not. -/
structure AllOrNothing (m : Machine) (s : Text) : Prop where
  kept : (m.run (setDefaultBootPartition s)).1 = false →
    (m.run (setDefaultBootPartition s)).2.world.file .defaultBootPartition =
      m.world.file .defaultBootPartition
  set : (m.run (setDefaultBootPartition s)).1 = true →
    (m.run (setDefaultBootPartition s)).2.world.file .defaultBootPartition = some (.text s)

/-- Nothing that can be lost is lost: the old file cannot be removed, or the new one can be
opened and written; where there is no old file, the new one cannot be opened, or it can be
written, too. What is written is the text, if this is Latin-1. -/
def NothingLost (m : Machine) (s : Text) : Prop :=
  match m.world.file .defaultBootPartition with
  | none => (m.next (.openFile .defaultBootPartition)).ok = true →
      (m.next (.writeFile .defaultBootPartition)).ok = true ∧ toAscii s = s
  | some old => (m.next (.remove .defaultBootPartition)).ok = true →
      (m.next (.openFile .defaultBootPartition)).ok = true ∧
        if (m.next (.writeFile .defaultBootPartition)).ok = true then toAscii s = s
        else old = .text ((toAscii s).take (m.next (.writeFile .defaultBootPartition)).written)

/-- **What `putFileContents` does** where there is no file yet. -/
theorem run_putFileContents {path : Path} (hnone : m.world.file path = none) (data : Text) :
    (m.run (putFileContents path data)).1 =
        ((m.next (.openFile path)).ok && (m.next (.writeFile path)).ok) ∧
      (m.run (putFileContents path data)).2.world.file path =
        if (m.next (.openFile path)).ok then
          some (.text (if (m.next (.writeFile path)).ok then data
            else data.take (m.next (.writeFile path)).written))
        else none := by
  have habsent : m.answer (.fileExists path) = false := by
    show (m.world.file path).isSome = false
    rw [hnone]
    rfl
  have hrun : m.run (putFileContents path data) =
      if (m.next (.openFile path)).ok then
        (m.act (.openFile path) .empty).2.act (.writeFile path) (.text data)
      else (false, (m.act (.openFile path) .empty).2) := by
    unfold putFileContents fileExists
    rw [run_ask_bind, habsent, if_neg Bool.false_ne_true, run_act_bind]
    show Machine.run _ (if (!(m.next (.openFile path)).ok) = true then _ else _) = _
    cases (m.next (.openFile path)).ok <;> rfl
  -- opening the file says nothing about the write
  have hnext := @next_act m (.openFile path) .empty (.writeFile path) (by simp)
  rw [hrun]
  cases hopen : (m.next (.openFile path)).ok with
  | false =>
    refine ⟨rfl, ?_⟩
    simp only [Bool.false_eq_true, if_false]
    rw [(file_act_on m path .empty).2.1, hopen, if_neg Bool.false_ne_true, hnone]
  | true =>
    simp only [if_true]
    refine ⟨congrArg Outcome.ok hnext, ?_⟩
    rw [(file_act_on _ path _).2.2, hnext]
    split_ifs <;> rfl

/-- A refused text changes nothing. -/
theorem run_default_refused (h : ¬devicePrefix <+: text) :
    m.run (setDefaultBootPartition text) = (false, m) := by
  unfold setDefaultBootPartition
  rw [if_pos h]
  rfl

/-- Without an old file, the new one is written. -/
theorem run_default_absent (h : devicePrefix <+: text) (hnone : m.world.file .defaultBootPartition = none) :
    m.run (setDefaultBootPartition text) = m.run (putFileContents .defaultBootPartition (toAscii text)) := by
  have habsent : m.answer (.fileExists .defaultBootPartition) = false := by
    show (m.world.file _).isSome = false
    rw [hnone]
    rfl
  unfold setDefaultBootPartition fileExists
  rw [if_neg (not_not.2 h), run_ask_bind, habsent]
  rfl

/-- An old file is removed first. -/
theorem run_default_present {old : Data} (h : devicePrefix <+: text)
    (hold : m.world.file .defaultBootPartition = some old) :
    m.run (setDefaultBootPartition text) =
      (m.act (.remove .defaultBootPartition) .empty).2.run
        (putFileContents .defaultBootPartition (toAscii text)) := by
  have hpresent : m.answer (.fileExists .defaultBootPartition) = true := by
    show (m.world.file _).isSome = true
    rw [hold]
    rfl
  unfold setDefaultBootPartition fileExists
  rw [if_neg (not_not.2 h), run_ask_bind, hpresent]
  rfl

theorem allOrNothing_iff {ok : Bool} {file : Option Data}
    (hok : (m.run (setDefaultBootPartition text)).1 = ok)
    (hfile : (m.run (setDefaultBootPartition text)).2.world.file .defaultBootPartition = file) :
    AllOrNothing m text ↔
      file = if ok = true then some (.text text) else m.world.file .defaultBootPartition := by
  subst hok hfile
  cases hok : (m.run (setDefaultBootPartition text)).1 with
  | false => exact ⟨fun h => h.kept hok, fun h => ⟨fun _ => h, fun h' => Bool.noConfusion (hok.symm.trans h')⟩⟩
  | true => exact ⟨fun h => h.set hok, fun h => ⟨fun h' => Bool.noConfusion (hok.symm.trans h'), fun _ => h⟩⟩

/-- **Changing the default boot partition is all or nothing** just if the text is refused,
or nothing is lost. -/
theorem default_all_or_nothing_iff (m : Machine) (s : Text) :
    AllOrNothing m s ↔ ¬devicePrefix <+: s ∨ NothingLost m s := by
  by_cases hbegins : devicePrefix <+: s
  · rw [or_iff_right (not_not.2 hbegins)]
    have htext : ∀ t t' : Text, some (Data.text t) = some (Data.text t') ↔ t = t' := fun t t' => by simp
    unfold NothingLost
    cases hfile : m.world.file .defaultBootPartition with
    | none =>
      obtain ⟨hok, hafter⟩ := run_putFileContents hfile (toAscii s)
      rw [← run_default_absent hbegins hfile] at hok hafter
      rw [allOrNothing_iff hok hafter, hfile]
      cases (m.next (.openFile .defaultBootPartition)).ok with
      | false => simp
      | true =>
        cases (m.next (.writeFile .defaultBootPartition)).ok with
        | false => simp
        | true => simp
    | some old =>
      have hremove := (file_act_on m .defaultBootPartition .empty).1
      have hnext := fun step h => @next_act m (.remove .defaultBootPartition) .empty step h
      have hrun := run_default_present hbegins hfile
      cases hremoved : (m.next (.remove .defaultBootPartition)).ok with
      | false =>
        -- the old file is still there, so it is not overwritten
        rw [hremoved, if_neg Bool.false_ne_true, hfile] at hremove
        rw [putFileContents_present _ (by rw [hremove]; rfl)] at hrun
        have hkept : (m.run (setDefaultBootPartition s)).2.world.file .defaultBootPartition = some old := by
          rw [hrun, hremove]
        rw [allOrNothing_iff (congrArg Prod.fst hrun) hkept, hfile]
        simp
      | true =>
        rw [hremoved, if_pos rfl] at hremove
        obtain ⟨hok, hafter⟩ := run_putFileContents hremove (toAscii s)
        rw [← hrun, hnext _ (by simp), hnext _ (by simp)] at hok hafter
        rw [allOrNothing_iff hok hafter, hfile]
        cases (m.next (.openFile .defaultBootPartition)).ok with
        | false => simp
        | true =>
          cases (m.next (.writeFile .defaultBootPartition)).ok with
          | false => simp [eq_comm]
          | true => simp
  · refine iff_of_true ⟨fun _ => ?_, fun h => ?_⟩ (Or.inl hbegins)
    · rw [run_default_refused hbegins]
    · rw [run_default_refused hbegins] at h
      cases h

/-- A device on which the default boot partition is 6 and the file cannot be opened again. -/
def unopenable : Machine :=
  { storing "/dev/mmcblk0p6".toList with outcome := fun s _ =>
      { ok := decide (s ≠ .openFile .defaultBootPartition) } }

/-- The old partition is lost and the new one is not there. -/
theorem default_lost : ¬AllOrNothing unopenable "/dev/mmcblk0p7".toList := by
  intro h
  have hlost : none = some (Data.text "/dev/mmcblk0p6".toList) := h.kept rfl
  cases hlost

end Noobs
