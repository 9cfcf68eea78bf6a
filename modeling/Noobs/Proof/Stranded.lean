import Noobs.Proof.Calls
import Noobs.Proof.Steps

/-!
# Devices that cannot be reached

A device that lists an installed operating system starts no REST server; if its default
boot file names no partition either, it is stranded. `setDefaultBootPartition` removes
the file before it writes it again, and `installOS` writes it after it has listed the
operating system: a power cut or a failed write in between strands the device.

* `serve_tracked`: what one step does to the two files, by what is logged of it.
* `turn_bootable`: a harmless turn strands no device.
* `never_stranded`: **no run strands a device** whose turns all end after the default
  boot file was written again.
-/

namespace Noobs

variable {m m' : Machine} {I : IntType} {t : Turn}

/-! ## The two files -/

/-- `installed_os.json` lists an operating system. -/
def Machine.listed (m : Machine) : Bool :=
  match m.world.disk .installedOs with
  | some (.installedOs (_ :: _)) => true
  | _ => false

/-- The default boot file names a partition. -/
def Machine.bootable (m : Machine) : Bool :=
  match m.world.disk .defaultBootPartition with
  | some (.text text) => namesPartition text
  | _ => false

/-- Arguments that neither ask for the installer nor set the default boot partition. -/
def Plain (args : List Text) : Prop :=
  ∀ arg ∈ args, equalsInsensitive arg "-runinstaller".toList = false ∧
    equalsInsensitive arg "-partition".toList = false

/-- A plain start from this state ends in the REST server, or the default boot file is
`/dev/mmcblk0p` followed by an integer, and `bootIntoPartition` finds its number. -/
def Safe (m : Machine) : Prop :=
  ∀ args, Plain args → (m.powerOn.run (bootCheck args)).1.1 = true →
    ∃ t n, m.world.disk .defaultBootPartition = some (.text (devicePrefix ++ t)) ∧ integer t = some n ∧
      (-2 ^ 31 ≤ n → n < 2 ^ 31 → partitionNumberOf (devicePrefix ++ t) = some n)

/-! ## What the log says -/

/-- The default boot file was removed, emptied, or left half written. -/
def Entry.breaks (e : Entry) : Bool :=
  e.settingsMounted && (match e.step with
    | .remove .defaultBootPartition => e.ok
    | .openFile .defaultBootPartition => e.ok
    | .writeFile .defaultBootPartition => !e.ok
    | _ => false)

/-- The default boot file was completely written. -/
def Entry.mends (e : Entry) : Bool :=
  e.settingsMounted && decide (e.step = .writeFile .defaultBootPartition) && e.ok

/-- `installed_os.json` was completely written. -/
def Entry.saves (e : Entry) : Bool :=
  e.settingsMounted && decide (e.step = .writeFile .installedOs) && e.ok

/-- Whether an operating system is listed after a step. -/
def Entry.lists (listed : Bool) (e : Entry) : Bool :=
  if e.settingsMounted then
    match e.step with
    | .remove .installedOs => listed && !e.ok
    | .openFile .installedOs => listed && !e.ok
    | .writeFile .installedOs => e.ok
    | _ => listed
  else listed

/-- The default boot file was broken, or an operating system was listed while there was
no default to boot (`bare`), and the file was not written after that. -/
def exposed (bare : Bool) : List Entry → Bool
  | [] => false
  | e :: rest => ((e.breaks || bare && e.saves) && !rest.any Entry.mends) || exposed bare rest

/-- Either the turn leaves no operating system listed, or it wrote the default boot file
after it broke it, or after it listed an operating system without a default to boot. -/
def Harmless (I : IntType) (m : Machine) (t : Turn) : Prop :=
  let done := (m.turn I t).log.drop m.log.length
  done.foldl Entry.lists m.listed = true → exposed (!m.bootable) done = false

/-- Every turn of a run is harmless. -/
def HarmlessRun (I : IntType) : Machine → List Turn → Prop
  | _, [] => True
  | m, t :: ts => Harmless I m t ∧ HarmlessRun I (m.turn I t) ts

/-- A step after which the default boot file was not written. -/
theorem exposed_of_mem {bare : Bool} {pre post : List Entry} {e : Entry}
    (h : (e.breaks || bare && e.saves) = true) (hpost : ∀ e' ∈ post, e'.mends = false) :
    exposed bare (pre ++ e :: post) = true := by
  induction pre with
  | nil =>
    have hany : post.any Entry.mends = false := List.any_eq_false.2 fun e' he' => by rw [hpost e' he']; simp
    rw [List.nil_append, exposed, h, hany]
    rfl
  | cons e' pre ih =>
    rw [List.cons_append, exposed, ih, Bool.or_true]

/-! ## One step -/

/-- Where the two files stand on `x`, by what is logged since `m`. -/
structure Tracked (m x : Machine) (new : List Entry) : Prop where
  log : x.log = m.log ++ new
  listed : x.listed = true → new.foldl Entry.lists m.listed = true
  default : x.bootable = true ∨
    (∃ pre e post, new = pre ++ e :: post ∧ e.breaks = true ∧ ∀ e' ∈ post, e'.mends = false) ∨
    (x.bootable = m.bootable ∧ ∀ e ∈ new, e.mends = false)

theorem tracked_refl (m : Machine) : Tracked m m [] :=
  ⟨by simp, id, Or.inr (Or.inr ⟨rfl, by simp⟩)⟩

theorem lists_mono {a b : Bool} (h : a = true → b = true) {e : Entry} (ha : e.lists a = true) :
    e.lists b = true := by
  cases a with
  | true => rwa [h rfl]
  | false =>
    unfold Entry.lists at ha ⊢
    split_ifs at ha ⊢
    split at ha
    · simp at ha
    · simp at ha
    · exact ha
    · cases ha

/-- A step that leaves the default boot file alone, breaks it, or mends it. -/
theorem Tracked.append {x x' : Machine} {new : List Entry} {e : Entry} (h : Tracked m x new)
    (hlog : x'.log = x.log ++ [e]) (hlisted : x'.listed = true → e.lists x.listed = true)
    (hdefault : e.mends = false ∧ x'.bootable = x.bootable ∨ e.breaks = true ∨ x'.bootable = true) :
    Tracked m x' (new ++ [e]) := by
  refine ⟨by rw [hlog, h.log, List.append_assoc], ?_, ?_⟩
  · intro hx
    rw [List.foldl_append]
    exact lists_mono h.listed (hlisted hx)
  · rcases hdefault with ⟨hmends, hsame⟩ | hbreaks | hboot
    · rcases h.default with hb | ⟨pre, e', post, rfl, hbreaks, hpost⟩ | ⟨hb, hnew⟩
      · exact Or.inl (hsame.trans hb)
      · refine Or.inr (Or.inl ⟨pre, e', post ++ [e], by simp, hbreaks, ?_⟩)
        exact List.forall_mem_append.2 ⟨hpost, List.forall_mem_singleton.2 hmends⟩
      · refine Or.inr (Or.inr ⟨hsame.trans hb, ?_⟩)
        exact List.forall_mem_append.2 ⟨hnew, List.forall_mem_singleton.2 hmends⟩
    · exact Or.inr (Or.inl ⟨new, e, [], rfl, hbreaks, by simp⟩)
    · exact Or.inl hboot

theorem listed_congr {x x' : Machine} (h : x'.world.disk .installedOs = x.world.disk .installedOs) :
    x'.listed = x.listed := by
  unfold Machine.listed
  rw [h]

theorem bootable_congr {x x' : Machine}
    (h : x'.world.disk .defaultBootPartition = x.world.disk .defaultBootPartition) :
    x'.bootable = x.bootable := by
  unfold Machine.bootable
  rw [h]

/-- What a machine logs of a step. -/
def Machine.entry (x : Machine) (s : Step) : Entry := ⟨s, (x.next s).ok, x.world.settingsMounted⟩

theorem entry_breaks (x : Machine) (s : Step) (hmounted : x.world.settingsMounted = true) :
    (x.entry s).breaks = match s with
      | .remove .defaultBootPartition => (x.next s).ok
      | .openFile .defaultBootPartition => (x.next s).ok
      | .writeFile .defaultBootPartition => !(x.next s).ok
      | _ => false := by
  unfold Entry.breaks Machine.entry
  rw [hmounted]
  rfl

theorem cutTo_ne_installedOs (d : Data) (k : ℕ) (entries : List InstalledOs) :
    d.cutTo k ≠ .installedOs entries := by
  intro h
  cases d <;> cases h

/-- A step leaves no operating system listed unless its entry says so. -/
theorem act_listed {x : Machine} {s : Step} {d : Data} (hl : (x.act s d).2.listed = true) :
    (x.entry s).lists x.listed = true := by
  by_cases hon : s.On .installedOs ∧ x.world.settingsMounted = true
  · obtain ⟨hon, hmounted⟩ := hon
    obtain ⟨hremove, hopen, hwrite⟩ := @disk_act_on x .installedOs d rfl hmounted
    -- removed or emptied, the file lists nothing
    have hlost : ∀ f, f = none ∨ f = some (.text []) →
        (x.act s d).2.world.disk .installedOs =
          (if (x.next s).ok then f else x.world.disk .installedOs) →
        (x.listed && !(x.next s).ok) = true := by
      intro f hf hdisk
      cases hok : (x.next s).ok with
      | true =>
        rw [hok, if_pos rfl] at hdisk
        unfold Machine.listed at hl
        rcases hf with rfl | rfl <;> rw [hdisk] at hl <;> cases hl
      | false =>
        rw [hok, if_neg Bool.false_ne_true] at hdisk
        rw [← listed_congr hdisk, hl]
        rfl
    unfold Entry.lists Machine.entry
    rw [if_pos hmounted]
    rcases hon with rfl | rfl | rfl
    · exact hlost none (Or.inl rfl) hremove
    · exact hlost _ (Or.inr rfl) hopen
    · -- half written, the file does not parse
      show (x.next _).ok = true
      by_contra hok
      rw [if_neg hok] at hwrite
      unfold Machine.listed at hl
      rw [hwrite] at hl
      split at hl
      · rename_i h
        exact cutTo_ne_installedOs _ _ _ (Option.some.inj h)
      · cases hl
  · have hsame : (x.act s d).2.listed = x.listed :=
      listed_congr (disk_act (by rw [not_and_or, Bool.not_eq_true] at hon; exact hon))
    rw [hsame] at hl
    unfold Entry.lists Machine.entry
    split_ifs with hmounted
    · have hne : ¬s.On .installedOs := fun h => hon ⟨h, hmounted⟩
      split
      · rename_i hs
        exact (hne (Or.inl hs)).elim
      · rename_i hs
        exact (hne (Or.inr (Or.inl hs))).elim
      · rename_i hs
        exact (hne (Or.inr (Or.inr hs))).elim
      · exact hl
    · exact hl

/-- A step breaks the default boot file, or writes it, or leaves it alone. -/
theorem act_bootable {x : Machine} {s : Step} {d : Data} (hc : (Call.act s d).Sound) :
    (x.entry s).mends = false ∧ (x.act s d).2.bootable = x.bootable ∨
      (x.entry s).breaks = true ∨ (x.act s d).2.bootable = true := by
  by_cases hon : s.On .defaultBootPartition ∧ x.world.settingsMounted = true
  · obtain ⟨hon, hmounted⟩ := hon
    obtain ⟨hremove, hopen, hwrite⟩ := @disk_act_on x .defaultBootPartition d rfl hmounted
    cases hok : (x.next s).ok with
    | true =>
      rcases hon with rfl | rfl | rfl
      · exact Or.inr (Or.inl ((entry_breaks x _ hmounted).trans hok))
      · exact Or.inr (Or.inl ((entry_breaks x _ hmounted).trans hok))
      · obtain ⟨text, rfl, hnames⟩ := hc
        have hboot : (x.act (.writeFile .defaultBootPartition) (.text text)).2.bootable = true := by
          unfold Machine.bootable
          rw [hwrite, hok]
          exact hnames
        exact Or.inr (Or.inr hboot)
    | false =>
      -- a removal or an open that fails changes nothing, a failed write leaves half a file
      have hmends : (x.entry s).mends = false := by
        unfold Entry.mends Machine.entry
        rw [hok, Bool.and_false]
      rcases hon with rfl | rfl | rfl
      · rw [hok] at hremove
        exact Or.inl ⟨hmends, bootable_congr hremove⟩
      · rw [hok] at hopen
        exact Or.inl ⟨hmends, bootable_congr hopen⟩
      · have hbreaks : (!(x.next (.writeFile .defaultBootPartition)).ok) = true := by
          rw [hok]
          rfl
        exact Or.inr (Or.inl ((entry_breaks x _ hmounted).trans hbreaks))
  · have hsame : (x.act s d).2.bootable = x.bootable :=
      bootable_congr (disk_act (by rw [not_and_or, Bool.not_eq_true] at hon; exact hon))
    have hmends : (x.entry s).mends = false := by
      rw [Bool.eq_false_iff]
      intro h
      unfold Entry.mends Machine.entry at h
      rw [Bool.and_eq_true, Bool.and_eq_true, decide_eq_true_eq] at h
      exact hon ⟨Or.inr (Or.inr h.1.2), h.1.1⟩
    exact Or.inl ⟨hmends, hsame⟩

/-- Every question and every step of a sound program keeps track of the files. -/
theorem serve_tracked (c : Call) (x : Machine) (hc : c.Sound) (h : ∃ new, Tracked m x new) :
    ∃ new, Tracked m (serve c x).2 new := by
  obtain ⟨new, h⟩ := h
  cases c with
  | ask q => exact ⟨new, h⟩
  | act s d => exact ⟨new ++ [x.entry s], h.append rfl act_listed (act_bootable hc)⟩

/-! ## One turn -/

theorem powerCut_tracked {x : Machine} {new : List Entry} (h : Tracked m x new) :
    Tracked m x.powerCut new :=
  ⟨h.log, h.listed, h.default⟩

theorem before_tracked (m : Machine) (task : Task) : Tracked m (task.before m) [] := by
  cases task with
  | start args => exact powerCut_tracked (tracked_refl m)
  | _ => exact tracked_refl m

/-- What a turn does to the two files, wherever the power is cut. -/
theorem turn_tracked (hwf : t.task.WellFormed) : ∃ new, Tracked m (m.turn I t) new := by
  have hsound := program_sound (I := I) hwf
  have hbefore : ∃ new, Tracked m (t.task.before m) new := ⟨[], before_tracked m t.task⟩
  unfold Machine.turn
  cases t.cut with
  | none => exact Prog.run_inv serve_tracked hsound hbefore
  | some k =>
    obtain ⟨new, h⟩ := Prog.stop_inv serve_tracked hsound k hbefore
    exact ⟨new, powerCut_tracked h⟩

/-- Whoever listed an operating system did so by writing `installed_os.json`. -/
theorem lists_of_saves {listed : Bool} {new : List Entry} (h : new.foldl Entry.lists listed = true) :
    listed = true ∨ ∃ e ∈ new, e.saves = true := by
  induction new generalizing listed with
  | nil => exact Or.inl h
  | cons e new ih =>
    rcases ih h with he | ⟨e', he', hsaves⟩
    · unfold Entry.lists at he
      split_ifs at he with hmounted
      · split at he
        · rw [Bool.and_eq_true] at he
          exact Or.inl he.1
        · rw [Bool.and_eq_true] at he
          exact Or.inl he.1
        · rename_i hstep
          have hsaves : e.saves = true := by
            unfold Entry.saves
            rw [hmounted, he, hstep]
            rfl
          exact Or.inr ⟨e, List.mem_cons_self, hsaves⟩
        · exact Or.inl he
      · exact Or.inl he
    · exact Or.inr ⟨e', List.mem_cons_of_mem e he', hsaves⟩

/-- **A harmless turn strands no device.** -/
theorem turn_bootable (hm : m.listed = true → m.bootable = true) (hwf : t.task.WellFormed)
    (h : Harmless I m t) (hl : (m.turn I t).listed = true) : (m.turn I t).bootable = true := by
  obtain ⟨new, htracked⟩ := @turn_tracked m I t hwf
  have hdone : (m.turn I t).log.drop m.log.length = new := by rw [htracked.log, List.drop_left]
  have hlists := htracked.listed hl
  have hexposed : exposed (!m.bootable) new = false := by
    unfold Harmless at h
    rw [hdone] at h
    exact h hlists
  rcases htracked.default with hboot | ⟨pre, e, post, rfl, hbreaks, hpost⟩ | ⟨hsame, hmends⟩
  · exact hboot
  · rw [exposed_of_mem (by rw [hbreaks]; rfl) hpost] at hexposed
    cases hexposed
  · rw [hsame]
    by_contra hbare
    rcases lists_of_saves hlists with hlisted | ⟨e, he, hsaves⟩
    · exact hbare (hm hlisted)
    · obtain ⟨pre, post, rfl⟩ := List.append_of_mem he
      have hbroken : (e.breaks || !m.bootable && e.saves) = true := by
        rw [Bool.not_eq_true] at hbare
        rw [hbare, hsaves, Bool.or_eq_true]
        exact Or.inr rfl
      have hpost : ∀ e' ∈ post, e'.mends = false := fun e' he' =>
        hmends e' (List.mem_append_right _ (List.mem_cons_of_mem e he'))
      rw [exposed_of_mem hbroken hpost] at hexposed
      cases hexposed

/-! ## Whole runs -/

theorem checkArguments_plain {args : List Text} (hargs : Plain args) (flags : BootFlags) (x : Machine) :
    (x.run (checkArguments flags args)).1.runinstaller = flags.runinstaller ∧
      (x.run (checkArguments flags args)).2 = x := by
  induction args generalizing flags with
  | nil => exact ⟨rfl, rfl⟩
  | cons arg args ih =>
    obtain ⟨⟨h1, h2⟩, hrest⟩ := List.forall_mem_cons.1 hargs
    unfold checkArguments
    rw [if_neg (by rw [h1]; exact Bool.false_ne_true), if_neg (by rw [h2]; exact Bool.false_ne_true)]
    split_ifs
    · exact ih hrest _
    · exact ih hrest _

theorem run_hasInstalledOS {x : Machine} (hmounted : x.world.settingsMounted = true) :
    (x.run hasInstalledOS).1 = x.listed := by
  have hfile : x.world.file .installedOs = x.world.disk .installedOs := by
    unfold World.file
    rw [hmounted]
    rfl
  unfold hasInstalledOS getInstalledOS loadFromFile fileExists Machine.listed
  rw [← hfile, run_bind, run_ask_bind]
  cases hcontents : x.world.file .installedOs with
  | none =>
    have hexists : x.answer (.fileExists .installedOs) = false := by
      show (x.world.file .installedOs).isSome = false
      rw [hcontents]
      rfl
    rw [hexists, if_neg Bool.false_ne_true]
    rfl
  | some contents =>
    have hexists : x.answer (.fileExists .installedOs) = true := by
      show (x.world.file .installedOs).isSome = true
      rw [hcontents]
      rfl
    have hread : x.answer (.readFile .installedOs) = some contents := hcontents
    rw [hexists, if_pos rfl, run_ask_bind, hread]
    cases contents with
    | installedOs entries => cases entries <;> rfl
    | _ => rfl

/-- A plain start boots into a partition iff an operating system is listed. -/
theorem bootCheck_plain {args : List Text} (hargs : Plain args) :
    (m.powerOn.run (bootCheck args)).1.1 = m.listed := by
  obtain ⟨hflags, hsame⟩ := checkArguments_plain hargs {} m.powerOn
  have hinstalled : (m.powerOn.run hasInstalledOS).1 = m.listed := run_hasInstalledOS rfl
  unfold bootCheck
  rw [run_bind, hflags, if_neg Bool.false_ne_true, hsame, run_bind]
  exact hinstalled

theorem safe_iff : Safe m ↔ (m.listed = true → m.bootable = true) := by
  constructor
  · intro h hl
    obtain ⟨t, n, hfile, hn, -⟩ := h [] (by simp [Plain]) (by rw [bootCheck_plain (by simp [Plain]), hl])
    unfold Machine.bootable
    rw [hfile]
    show namesPartition (devicePrefix ++ t) = true
    unfold namesPartition
    rw [List.drop_left, hn, decide_eq_true (List.prefix_append _ _)]
    rfl
  · intro h args hargs hcheck
    rw [bootCheck_plain hargs] at hcheck
    have hboot := h hcheck
    unfold Machine.bootable at hboot
    split at hboot
    · rename_i text hfile
      unfold namesPartition at hboot
      rw [Bool.and_eq_true, decide_eq_true_eq, Option.isSome_iff_exists] at hboot
      obtain ⟨⟨t, rfl⟩, n, hn⟩ := hboot
      rw [List.drop_left] at hn
      exact ⟨t, n, hfile, hn, partitionNumberOf_device hn⟩
    · cases hboot

/-- **No run strands a device** whose turns all end after the default boot file was
written again. -/
theorem never_stranded {ts : List Turn} (hm : Safe m) (hwf : ∀ t ∈ ts, t.task.WellFormed)
    (h : HarmlessRun I m ts) {ts₁ : List Turn} (hp : ts₁ <+: ts) : Safe (m.turns I ts₁) := by
  induction ts₁ generalizing m ts with
  | nil => exact hm
  | cons t ts₁ ih =>
    obtain ⟨ts₂, rfl⟩ := hp
    obtain ⟨hwf, hwfs⟩ := List.forall_mem_cons.1 hwf
    have hnext : Safe (m.turn I t) := safe_iff.2 (turn_bootable (safe_iff.1 hm) hwf h.1)
    exact ih hnext hwfs h.2 (List.prefix_append _ _)

/-- A new device on which nothing fails. -/
def newDevice : Machine :=
  { world := { other := fun p => if p = .rebootPart2709 then some (.text []) else none }
    outcome := fun _ _ => { ok := true } }

/-- `POST /os` with an operating system of one partition. -/
def installDemo : Task :=
  .install { startP1 := 8192, sizeP1 := 204800, startP5 := 221184, sizeP5 := 65534, totalSectors := 7744512 }
    false (some { name := "Raspbian".toList
                  partitions := [{ fsType := "ext4".toList, partitionSizeNominal := 62,
                                   tarball := "http://downloads/root.tar.xz".toList }] })

/-- `POST /bootPartition` with the seventh partition. -/
def bootSeventh : Task := .bootPartition { body := "/dev/mmcblk0p7".toList }

/-- A power cut before anything is listed, an installation, another default. -/
def demoTurns : List Turn := [⟨installDemo, some 20⟩, ⟨installDemo, none⟩, ⟨bootSeventh, none⟩]

theorem demo_not_stranded : Safe (newDevice.turns int32 demoTurns) := by
  have hsafe : Safe newDevice := safe_iff.2 (by decide)
  have hwf : ∀ t ∈ demoTurns, t.task.WellFormed := by
    have hnames : namesPartition (cString "/dev/mmcblk0p7".toList) = true := by decide
    exact List.forall_mem_cons.2 ⟨trivial, List.forall_mem_cons.2 ⟨trivial, List.forall_mem_singleton.2 hnames⟩⟩
  have hrun : HarmlessRun int32 newDevice demoTurns := by
    refine ⟨?_, ?_, ?_, trivial⟩
    · show _ = true → _ = false
      decide
    · show _ = true → _ = false
      decide
    · show _ = true → _ = false
      decide
  exact never_stranded hsafe hwf hrun (List.prefix_refl demoTurns)

/-- The power is cut after the old default boot file was removed: the device lists its
operating system and has no default to boot. -/
theorem cut_strands : Safe newDevice ∧ bootSeventh.WellFormed ∧
    ¬Safe (newDevice.turns int32 [⟨installDemo, none⟩, ⟨bootSeventh, some 2⟩]) := by
  refine ⟨safe_iff.2 (by decide), (by decide : namesPartition _ = true), fun h => ?_⟩
  obtain ⟨t, n, hfile, -⟩ := h [] (by simp [Plain]) (by decide)
  have hnone : (newDevice.turns int32 [⟨installDemo, none⟩, ⟨bootSeventh, some 2⟩]).world.disk
      .defaultBootPartition = none := by decide
  rw [hnone] at hfile
  cases hfile

end Noobs
