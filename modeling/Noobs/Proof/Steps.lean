import Noobs.Spec.System

/-!
# What a step does

One lemma for what a step changes and one for what it leaves alone, so that no proof
about programs looks into `World.apply`.
-/

namespace Noobs

variable {α β : Type} {m : Machine} {path q : Path} {d : Data}

/-! ## Runs of programs -/

theorem run_bind (p : Sys α) (f : α → Sys β) : m.run (p >>= f) = (m.run p).2.run (f (m.run p).1) :=
  Prog.run_bind serve p f m

theorem run_act_bind (s : Step) (d : Data) (f : Bool → Sys α) :
    m.run (act s d >>= f) = (m.act s d).2.run (f (m.act s d).1) := rfl

theorem run_ask_bind (q : Query) (f : q.Reply → Sys α) : m.run (ask q >>= f) = m.run (f (m.answer q)) :=
  rfl

/-! ## Files -/

theorem file_setFile (w : World) (path q : Path) (f : Option Data) :
    (w.setFile path f).file q = if q = path then f else w.file q := by
  unfold World.setFile World.file
  by_cases hq : q = path
  · subst hq
    rw [if_pos rfl]
    split_ifs <;> exact Function.update_self _ _ _
  · rw [if_neg hq]
    split_ifs <;> first | rfl | exact Function.update_of_ne hq _ _

/-- Writing a file leaves everything but files as it is. -/
theorem setFile_rest (w : World) (path : Path) (f : Option Data) :
    (w.setFile path f).settingsMounted = w.settingsMounted ∧ (w.setFile path f).conf = w.conf := by
  unfold World.setFile
  split_ifs <;> exact ⟨rfl, rfl⟩

/-- A successful write. -/
theorem act_writeFile (h : (m.act (.writeFile path) d).1 = true) :
    (m.act (.writeFile path) d).2.world = m.world.setFile path (some d) := by
  have hok : (m.next (.writeFile path)).ok = true := h
  show m.world.setFile path (some (if (m.next (.writeFile path)).ok = true then d else _)) = _
  rw [if_pos hok]

/-- A file that cannot be removed stays. -/
theorem act_remove_failed (h : (m.act (.remove path) d).1 = false) :
    (m.act (.remove path) d).2.world = m.world :=
  if_neg (by rw [Bool.not_eq_true]; exact h)

/-- The steps on a file. -/
def Step.On (path : Path) (s : Step) : Prop :=
  s = .remove path ∨ s = .openFile path ∨ s = .writeFile path

theorem file_act_of_ne {s : Step} (hs : s.On path) (hq : q ≠ path) :
    (m.act s d).2.world.file q = m.world.file q := by
  have hset : ∀ f, (m.world.setFile path f).file q = m.world.file q := fun f => by
    rw [file_setFile, if_neg hq]
  show (m.world.apply s d (m.next s)).file q = m.world.file q
  rcases hs with rfl | rfl | rfl
  · unfold World.apply
    split_ifs
    · exact hset _
    · rfl
  · unfold World.apply
    split_ifs
    · exact hset _
    · rfl
  · exact hset _

/-- What the steps on a file do to it. -/
theorem file_act_on (m : Machine) (path : Path) (d : Data) :
    (m.act (.remove path) d).2.world.file path =
        (if (m.next (.remove path)).ok then none else m.world.file path) ∧
      (m.act (.openFile path) d).2.world.file path =
        (if (m.next (.openFile path)).ok then some (.text []) else m.world.file path) ∧
      (m.act (.writeFile path) d).2.world.file path =
        some (if (m.next (.writeFile path)).ok then d else d.cutTo (m.next (.writeFile path)).written) := by
  have hset : ∀ f, (m.world.setFile path f).file path = f := fun f => by rw [file_setFile, if_pos rfl]
  refine ⟨?_, ?_, hset _⟩
  · show (m.world.apply _ d _).file path = _
    unfold World.apply
    split_ifs
    · exact hset _
    · rfl
  · show (m.world.apply _ d _).file path = _
    unfold World.apply
    split_ifs
    · exact hset _
    · rfl

theorem disk_setFile (w : World) (path q : Path) (f : Option Data) : (w.setFile path f).disk q =
    if path.onSettings && w.settingsMounted && decide (q = path) then f else w.disk q := by
  unfold World.setFile
  by_cases hq : q = path
  · subst hq
    split_ifs with h1 h2 h2
    · exact Function.update_self _ _ _
    · exact absurd (by simp [h1]) h2
    · simp only [decide_true, Bool.and_true] at h2
      exact absurd h2 h1
    · rfl
  · rw [decide_eq_false hq, Bool.and_false, if_neg Bool.false_ne_true]
    split_ifs
    · exact Function.update_of_ne hq _ _
    · rfl

/-- A file on the settings partition is changed by steps on it alone, and only while the
partition is mounted. -/
theorem disk_act {s : Step} (h : ¬s.On path ∨ m.world.settingsMounted = false) :
    (m.act s d).2.world.disk path = m.world.disk path := by
  have hset : ∀ q f, (s = .remove q ∨ s = .openFile q ∨ s = .writeFile q) →
      (m.world.setFile q f).disk path = m.world.disk path := by
    intro q f hq
    rw [disk_setFile, if_neg]
    rintro hc
    simp only [Bool.and_eq_true, decide_eq_true_eq] at hc
    obtain ⟨⟨-, hmounted⟩, rfl⟩ := hc
    rcases h with h | h
    · exact h hq
    · rw [h] at hmounted
      cases hmounted
  show (m.world.apply s d (m.next s)).disk path = m.world.disk path
  unfold World.apply
  split
  · split_ifs
    · exact hset _ _ (Or.inl rfl)
    · rfl
  · split_ifs
    · exact hset _ _ (Or.inr (Or.inl rfl))
    · rfl
  · exact hset _ _ (Or.inr (Or.inr rfl))
  · split_ifs <;> rfl
  · split_ifs <;> rfl
  · split_ifs <;> rfl
  · split
    · split_ifs <;> rfl
    · rfl
  · rfl

/-- What the steps on a file of the mounted settings partition do to it. -/
theorem disk_act_on (hp : path.onSettings = true) (hm : m.world.settingsMounted = true) :
    (m.act (.remove path) d).2.world.disk path =
        (if (m.next (.remove path)).ok then none else m.world.disk path) ∧
      (m.act (.openFile path) d).2.world.disk path =
        (if (m.next (.openFile path)).ok then some (.text []) else m.world.disk path) ∧
      (m.act (.writeFile path) d).2.world.disk path =
        some (if (m.next (.writeFile path)).ok then d else d.cutTo (m.next (.writeFile path)).written) := by
  have hset : ∀ f, (m.world.setFile path f).disk path = f := by
    intro f
    rw [disk_setFile, hp, hm, decide_eq_true rfl]
    rfl
  refine ⟨?_, ?_, hset _⟩
  · show (m.world.apply _ d _).disk path = _
    unfold World.apply
    split_ifs
    · exact hset _
    · rfl
  · show (m.world.apply _ d _).disk path = _
    unfold World.apply
    split_ifs
    · exact hset _
    · rfl

/-- No step changes `noobs.conf`. -/
theorem act_conf (s : Step) : (m.act s d).2.world.conf = m.world.conf := by
  show (m.world.apply s d (m.next s)).conf = m.world.conf
  unfold World.apply
  repeat' split
  all_goals first | rfl | exact (setFile_rest _ _ _).2

/-! ## Mounts -/

/-- What is mounted on `/mnt2` after a step, the uppermost first. -/
def Entry.mountedAfter (mounted : List Text) (e : Entry) : List Text :=
  match e.step with
  | .mount device _ => if e.ok then device :: mounted else mounted
  | .umount dir => if e.ok ∧ dir = mnt2 then mounted.tail else mounted
  | _ => mounted

theorem mounted_setFile (w : World) (path : Path) (f : Option Data) :
    (w.setFile path f).mounted = w.mounted := by
  unfold World.setFile
  split_ifs <;> rfl

/-- The log says what is mounted. -/
theorem mounted_act (s : Step) (d : Data) : (m.act s d).2.world.mounted =
    Entry.mountedAfter m.world.mounted ⟨s, (m.next s).ok, m.world.settingsMounted⟩ := by
  show (m.world.apply s d (m.next s)).mounted = _
  cases s with
  | remove path =>
    unfold World.apply
    split_ifs
    · exact mounted_setFile _ _ _
    · rfl
  | openFile path =>
    unfold World.apply
    split_ifs
    · exact mounted_setFile _ _ _
    · rfl
  | writeFile path => exact mounted_setFile _ _ _
  | mountSystem dir =>
    show (if _ then _ else m.world : World).mounted = _
    split_ifs <;> rfl
  | umount dir =>
    show (if _ then _ else if _ then _ else m.world : World).mounted = if _ then _ else _
    split_ifs with h1 h2 h3
    · exact absurd (h1.2.symm.trans h2.2) (by decide)
    · rfl
    · rfl
    · rfl
  | mount device command =>
    show (if _ then _ else m.world : World).mounted = if _ then _ else _
    split_ifs <;> rfl
  | sfdisk =>
    cases d with
    | text table =>
      show (if _ then _ else m.world : World).mounted = _
      split_ifs <;> rfl
    | _ => rfl
  | _ => rfl

end Noobs
