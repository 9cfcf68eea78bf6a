import Noobs.Proof.Ideal
import Noobs.Proof.Menu
import Noobs.Spec.Session

/-!
# A device at its console

The menu reads its selections from the console, whatever becomes of the device. So a session
on a healthy machine is the session its owner has with the ideal device.

* `menu_session`: **a session at the menu** ends as the ideal one does, and leaves the device
  that this one leaves.
* `device_uses`: tasks and sessions, one after the other, do so as well.
* `used_comes_up`: **nothing that is typed strands the device**, if it names partitions where
  it should.
-/

namespace Noobs

open Prog Simulation

variable {m : Machine} {menu : Menu} {I : IntType} {d : Ideal} {console : Console} {selection : ℤ}
  {fuel : ℕ}

/-! ## Sessions -/

/-- A run ends as the ideal session does, and leaves a healthy machine that amounts to its
device. -/
structure EndsAs (r : Option MenuEnd × Machine) (s : Option MenuEnd × Ideal) : Prop where
  ends : r.1 = s.1
  healthy : Healthy r.2
  ideal : r.2.ideal = s.2

theorem EndsAs.of_eq (h : Healthy m) (e : Option MenuEnd) : EndsAs (e, m) (e, m.ideal) := ⟨rfl, h, rfl⟩

/-- What a boot makes of a healthy machine. -/
theorem run_bootIntoPartition_ideal (h : Healthy m) (device : Text) :
    (m.run (bootIntoPartition device)).1 = (m.ideal.target device).isSome ∧
      Healthy (m.run (bootIntoPartition device)).2 ∧
        (m.run (bootIntoPartition device)).2.ideal = m.ideal.tell (m.ideal.target device) := by
  unfold Ideal.target
  cases device with
  | nil =>
    have hdefault := run_bootDevice_ideal h m.world.defaultDevice
    rw [← ideal_default h, ← run_boot_default] at hdefault
    exact hdefault
  | cons c device => exact run_bootDevice_ideal h (c :: device)

/-- A boot ends the session, or what follows it goes on with the same device. -/
theorem boot_endsAs (h : Healthy m) (device : Text) {rest : Sys (Option MenuEnd)}
    {s : Ideal → Option MenuEnd × Ideal} (hrest : ∀ m', Healthy m' → EndsAs (m'.run rest) (s m'.ideal)) :
    EndsAs (m.run (bootIntoPartition device >>= fun rebooted =>
        if rebooted = true then pure (some .rebooted) else rest))
      (match m.ideal.target device with
        | some n => (some .rebooted, { m.ideal with firmware := some n })
        | none => s m.ideal) := by
  obtain ⟨hboots, hhealthy, hideal⟩ := run_bootIntoPartition_ideal h device
  rw [run_bind, hboots]
  cases htarget : m.ideal.target device with
  | some n =>
    rw [htarget] at hideal
    exact ⟨rfl, hhealthy, hideal⟩
  | none =>
    rw [htarget] at hideal
    have hgoes := hrest _ hhealthy
    rw [hideal] at hgoes
    exact hgoes

/-- The selection that installs. -/
theorem installRaspbian_endsAs (h : Healthy m) :
    EndsAs (m.run menu.installRaspbian) (m.ideal.installRaspbian menu) := by
  have hsame := newInstallManager_same m
  have hmade := h.same hsame trivial trivial trivial
  have hideal := ideal_same hsame trivial trivial trivial trivial
  unfold Menu.installRaspbian Ideal.installRaspbian
  rw [run_bind]
  cases menu.raspbian with
  | done os =>
    obtain ⟨-, hhealthy, hinstalled⟩ := @run_installOS _ menu.I menu.sys hmade os
    rw [hideal] at hinstalled
    dsimp only
    rw [run_bind]
    exact ⟨rfl, hhealthy, hinstalled⟩
  | invalid => exact ⟨rfl, hmade, hideal⟩
  | crashed f => exact ⟨rfl, hmade, hideal⟩
  | unanswered => exact ⟨rfl, hmade, hideal⟩

/-- A session on a healthy machine, selection by selection. -/
theorem run_endsAs (h : Healthy m) (menu : Menu) (fuel : ℕ) (console : Console) (selection : ℤ) :
    EndsAs (m.run (menu.run fuel console selection)) (menu.session fuel console selection m.ideal) := by
  induction fuel generalizing m console selection with
  | zero => exact EndsAs.of_eq h none
  | succ fuel ih =>
    unfold Menu.session Menu.choose
    rw [Menu.run]
    generalize menu.select console selection = selected
    obtain ⟨n, c⟩ := selected
    simp only
    by_cases h1 : n = 1
    · rw [if_pos h1, if_pos h1]
      exact boot_endsAs h [] fun m' hm' => ih hm' c n
    rw [if_neg h1, if_neg h1]
    by_cases h2 : n = 2
    · rw [if_pos h2, if_pos h2]
      exact boot_endsAs h _ fun m' hm' => ih hm' _ n
    rw [if_neg h2, if_neg h2]
    by_cases h3 : n = 3
    · rw [if_pos h3, if_pos h3, run_bind]
      obtain ⟨hset, hideal⟩ := run_setDefault h (menu.reader.read c).1
      have hgoes := ih hset (menu.reader.read c).2 n
      rw [hideal] at hgoes
      exact hgoes
    rw [if_neg h3, if_neg h3]
    by_cases h4 : n = 4
    · rw [if_pos h4, if_pos h4]
      exact installRaspbian_endsAs h
    rw [if_neg h4, if_neg h4]
    by_cases h5 : n = 5
    · rw [if_pos h5, if_pos h5]
      exact EndsAs.of_eq h (some .left)
    · rw [if_neg h5, if_neg h5]
      exact ih h c n

/-- **A session at the menu** of a healthy device ends as the ideal one does, and leaves the
device that this one leaves. -/
theorem menu_session (hm : Healthy m) (menu : Menu) (fuel : ℕ) (console : Console) (selection : ℤ) :
    let r := m.run (menu.run fuel console selection)
    let s := menu.session fuel console selection m.ideal
    r.1 = s.1 ∧ Healthy r.2 ∧ r.2.ideal = s.2 := by
  have h := run_endsAs hm menu fuel console selection
  exact ⟨h.ends, h.healthy, h.ideal⟩

/-- A new device is made to boot its seventh partition, and is left. -/
theorem newDevice_session :
    let r := newDevice.run (Menu.lineMenu.run 2 ⟨"3/dev/mmcblk0p7\n1\n".toList, false⟩ 0)
    let s := Menu.lineMenu.session 2 ⟨"3/dev/mmcblk0p7\n1\n".toList, false⟩ 0 newDevice.ideal
    r.1 = s.1 ∧ Healthy r.2 ∧ r.2.ideal = s.2 :=
  menu_session newDevice_healthy Menu.lineMenu 2 ⟨"3/dev/mmcblk0p7\n1\n".toList, false⟩ 0

/-! ## Uses -/

/-- **A healthy device does what it is for**, use by use. -/
theorem device_uses (I : IntType) :
    Simulates (Machine.use I) (Ideal.use I) Machine.ideal Healthy fun _ u => [u] where
  keeps := by
    intro m u h
    cases u with
    | task t => exact (uncut_ideal h t).1
    | session menu fuel console selection => exact (run_endsAs h menu fuel console selection).healthy
  matched := by
    intro m u h
    cases u with
    | task t => exact (uncut_ideal h t).2
    | session menu fuel console selection => exact (run_endsAs h menu fuel console selection).ideal

theorem installRaspbian_reachable (h : d.Reachable) : (d.installRaspbian menu).2.Reachable := by
  unfold Ideal.installRaspbian
  cases menu.raspbian with
  | done os => exact install_reachable h
  | invalid => exact h
  | crashed f => exact h
  | unanswered => exact h

/-- No session leaves an ideal device with an operating system that cannot be booted: what
becomes the default names a partition. -/
theorem session_reachable (h : d.Reachable)
    (hnames : ∀ device ∈ menu.defaults fuel console selection,
      devicePrefix <+: device → namesPartition device = true) :
    (menu.session fuel console selection d).2.Reachable := by
  induction fuel generalizing d console selection with
  | zero => exact h
  | succ fuel ih =>
    unfold Menu.defaults at hnames
    unfold Menu.session
    generalize menu.choose console selection = chosen at hnames ⊢
    obtain ⟨choice, n, c⟩ := chosen
    cases choice with
    | boot device =>
      simp only
      cases d.target device with
      | some target => exact h
      | none => exact ih h hnames
    | setDefault device =>
      obtain ⟨hdevice, hrest⟩ := List.forall_mem_cons.1 hnames
      refine ih ?_ hrest
      by_cases hprefix : devicePrefix <+: device
      · exact setDefault_reachable h (hdevice hprefix)
      · unfold Ideal.setDefault
        rw [if_neg hprefix]
        exact h
    | install => exact installRaspbian_reachable h
    | leave => exact h
    | nothing => exact ih h hnames

theorem use_reachable {u : Use} (h : d.Reachable) (hwf : u.WellFormed) : (d.use I u).Reachable := by
  cases u with
  | task t => exact perform_reachable h hwf
  | session menu fuel console selection => exact session_reachable h hwf

/-- **A healthy device comes up** behind any uses: requests and starts in any order, and
sessions at its menu. -/
theorem used_comes_up (hm : Healthy m) (hsafe : Safe m) {uses : List Use} (hwf : ∀ u ∈ uses, u.WellFormed)
    {args : List Text} (hargs : Plain args) :
    let m' := uses.foldl (Machine.use I) m
    Healthy m' ∧ Safe m' ∧ ComesUp I m' args := by
  intro m'
  obtain ⟨hhealthy, hideal⟩ := (device_uses I).run hm uses
  rw [runLabels_flatMap, List.flatMap_singleton'] at hideal
  have hreach : m'.ideal.Reachable := by
    rw [hideal]
    exact List.foldlRecOn uses (Ideal.use I) ((reachable_iff m).2 hsafe)
      fun d hd u hu => use_reachable hd (hwf u hu)
  exact ⟨hhealthy, (reachable_iff m').1 hreach, comesUp_of_reachable hhealthy hreach hargs⟩

/-- An operating system is installed over the network, and another partition is made the
default at the console. -/
theorem newDevice_used :
    let uses : List Use := [.task installDemo,
      .session Menu.lineMenu 2 ⟨"3/dev/mmcblk0p7\n1\n".toList, false⟩ 0]
    let m' := uses.foldl (Machine.use int32) newDevice
    Healthy m' ∧ Safe m' ∧ ComesUp int32 m' [] := by
  refine used_comes_up newDevice_healthy (safe_iff.2 (by decide)) ?_ (by simp [Plain])
  intro u hu
  rcases List.mem_pair.1 hu with rfl | rfl
  · trivial
  · unfold Use.WellFormed
    decide

end Noobs
