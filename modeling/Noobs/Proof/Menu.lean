import Noobs.Proof.Boot
import Noobs.Spec.Menu

/-!
# The menu ends

The menu is left by the selections 4 and 5 alone, so it needs one of them: a console that
is at its end keeps the loop going.

* `run_step`: **what one iteration does**, if it neither reboots nor leaves.
* `failed_runs`: in the fail state the menu goes on for ever.
* `menu_ends_iff`: **the menu ends** iff a 4 or a 5 is read before an extraction fails, and
  the downloads of the 4 are answered.
-/

namespace Noobs

namespace Menu

variable {menu : Menu} {m : Machine} {c : Console} {selection n : ℤ} {input : Text}

/-! ## Selections -/

/-- The console behind an iteration, by the selection and the console it was read from. -/
def after (menu : Menu) (selection : ℤ) (c : Console) : Console :=
  if selection = 2 ∨ selection = 3 then (menu.reader.read c).2 else c

/-- The numbers that are read before an extraction fails, or the first `k` of them. -/
def selectionsIn (reader : LineReader) : (k : ℕ) → Text → List ℤ
  | 0, _ => []
  | k + 1, input =>
    match stoi input with
    | .error _ => []
    | .ok n =>
      let rest := behindNumber input
      n :: selectionsIn reader k (if n = 2 ∨ n = 3 then (reader.readLine rest).2 else rest)

/-- The numbers that are read before an extraction fails. A number is no empty text. -/
def selections (reader : LineReader) (input : Text) : List ℤ := selectionsIn reader input.length input

/-- What leaves the menu. -/
def Leaves (n : ℤ) : Prop := n = 4 ∨ n = 5

instance (n : ℤ) : Decidable (Leaves n) := by unfold Leaves; infer_instance

/-- A number takes up at least a digit. -/
theorem length_behindNumber (h : stoi input = .ok n) : (behindNumber input).length < input.length := by
  have hblank := (List.dropWhile_suffix (l := input) isSpace).length_le
  unfold stoi at h
  unfold behindNumber
  generalize input.dropWhile isSpace = text at h hblank ⊢
  have hsign : (if text.head? = some '-' ∨ text.head? = some '+' then text.tail else text).length ≤
      text.length := by
    split_ifs
    · exact (List.tail_suffix text).length_le
    · exact le_rfl
  simp only at h ⊢
  generalize (if text.head? = some '-' ∨ text.head? = some '+' then text.tail else text) = digits
    at h hsign ⊢
  have hne : digits.takeWhile Char.isDigit ≠ [] := by
    intro hnil
    rw [if_pos hnil] at h
    cases h
  have hlen := congrArg List.length (List.takeWhile_append_dropWhile (p := Char.isDigit) (l := digits))
  rw [List.length_append] at hlen
  have hpos := List.length_pos_iff.2 hne
  omega

/-! ## One iteration -/

theorem select_ok (h : stoi input = .ok n) :
    menu.select ⟨input, false⟩ selection = (n, ⟨behindNumber input, false⟩) := by
  unfold select Console.extract
  simp only [Bool.false_eq_true, if_false, h]

theorem select_error {f : Fault} (h : stoi input = .error f) :
    menu.select ⟨input, false⟩ selection =
      (menu.onFail ⟨input, false⟩ selection, ⟨behindNumber input, true⟩) := by
  unfold select Console.extract
  simp only [Bool.false_eq_true, if_false, h]

/-- In the fail state nothing is read. -/
theorem select_failed (h : c.failed = true) :
    menu.select c selection = (menu.onFail c selection, c) := by
  unfold select Console.extract
  simp only [h, if_true]

/-- No selected boot reboots. -/
def NeverReboots (menu : Menu) (m : Machine) (c : Console) (selection : ℤ) : Prop :=
  ∀ fuel, (m.run (menu.run fuel c selection)).1 ≠ some .rebooted

/-- The loop ends after so many iterations, in one way or another. -/
def Terminates (menu : Menu) (m : Machine) (c : Console) (selection : ℤ) : Prop :=
  ∃ fuel e, (m.run (menu.run fuel c selection)).1 = some e

/-- A boot that returns is followed by the rest of the loop. -/
theorem run_boot {line : Text} {rest : ℕ → Sys (Option MenuEnd)}
    (h : (m.run (bootIntoPartition line >>= fun rebooted =>
      if rebooted = true then pure (some MenuEnd.rebooted) else rest 0)).1 ≠ some .rebooted) :
    ∃ m' : Machine, ∀ fuel, (m.run (bootIntoPartition line >>= fun rebooted =>
      if rebooted = true then pure (some MenuEnd.rebooted) else rest fuel)).1 = (m'.run (rest fuel)).1 := by
  refine ⟨(m.run (bootIntoPartition line)).2, fun fuel => ?_⟩
  rw [run_bind] at h ⊢
  cases hboot : (m.run (bootIntoPartition line)).1 with
  | true =>
    rw [hboot] at h
    exact absurd rfl h
  | false => rfl

/-- **What one iteration does**, if it neither reboots nor leaves. -/
theorem run_step (hnot : menu.NeverReboots m c selection) (hstay : ¬Leaves (menu.select c selection).1) :
    ∃ m' : Machine, ∀ fuel, (m.run (menu.run (fuel + 1) c selection)).1 =
      (m'.run (menu.run fuel (menu.after (menu.select c selection).1 (menu.select c selection).2)
        (menu.select c selection).1)).1 := by
  have hboot := hnot 1
  simp only [run] at hboot ⊢
  generalize menu.select c selection = selected at hstay hboot ⊢
  obtain ⟨n, c'⟩ := selected
  obtain ⟨h4, h5⟩ := not_or.1 hstay
  unfold after
  simp only at h4 h5 hboot ⊢
  by_cases h1 : n = 1
  · subst h1
    exact @run_boot m _ (fun fuel => menu.run fuel c' 1) hboot
  by_cases h2 : n = 2
  · subst h2
    exact @run_boot m _ (fun fuel => menu.run fuel (menu.reader.read c').2 2) hboot
  by_cases h3 : n = 3
  · subst h3
    exact ⟨_, fun fuel => congrArg Prod.fst (run_bind _ _)⟩
  · simp only [h1, h2, h3, h4, h5, if_false, or_self]
    exact ⟨m, fun fuel => rfl⟩

/-! ## The loop -/

theorem NeverReboots.step {m' : Machine} {c' : Console} (hnot : menu.NeverReboots m c selection)
    (hstep : ∀ fuel, (m.run (menu.run (fuel + 1) c selection)).1 = (m'.run (menu.run fuel c' n)).1) :
    menu.NeverReboots m' c' n := by
  intro fuel h
  exact hnot (fuel + 1) ((hstep fuel).trans h)

theorem terminates_step {m' : Machine} {c' : Console}
    (hstep : ∀ fuel, (m.run (menu.run (fuel + 1) c selection)).1 = (m'.run (menu.run fuel c' n)).1) :
    menu.Terminates m c selection ↔ menu.Terminates m' c' n := by
  constructor
  · rintro ⟨fuel, e, h⟩
    cases fuel with
    | zero => cases h
    | succ fuel => exact ⟨fuel, e, (hstep fuel).symm.trans h⟩
  · rintro ⟨fuel, e, h⟩
    exact ⟨fuel + 1, e, (hstep fuel).trans h⟩

theorem failed_after (h : c.failed = true) : (menu.after n c).failed = true := by
  unfold after
  split_ifs
  · exact h
  · exact h

/-- What a failed extraction leaves does not leave the menu. -/
theorem stays_onFail (hfail : ∀ c n, menu.onFail c n = 0 ∨ menu.onFail c n = n)
    (hsel : ¬Leaves selection) (c : Console) : ¬Leaves (menu.onFail c selection) := by
  rcases hfail c selection with h | h
  · rw [h]
    decide
  · rw [h]
    exact hsel

/-- **In the fail state** the menu goes on for ever. -/
theorem failed_runs (hfail : ∀ c n, menu.onFail c n = 0 ∨ menu.onFail c n = n) :
    ∀ (fuel : ℕ) (m : Machine) (c : Console) (selection : ℤ), c.failed = true → ¬Leaves selection →
      menu.NeverReboots m c selection → (m.run (menu.run fuel c selection)).1 = none := by
  intro fuel
  induction fuel with
  | zero => exact fun _ _ _ _ _ _ => rfl
  | succ fuel ih =>
    intro m c selection hc hsel hnot
    have hselect : menu.select c selection = (menu.onFail c selection, c) := select_failed hc
    have hstay : ¬Leaves (menu.select c selection).1 := by
      rw [hselect]
      exact stays_onFail hfail hsel c
    obtain ⟨m', hstep⟩ := run_step hnot hstay
    rw [hselect] at hstay hstep
    rw [hstep fuel]
    exact ih m' _ _ (failed_after hc) hstay (hnot.step hstep)

/-- The selection 4 comes to an end unless its downloads are never answered. -/
theorem run_installRaspbian :
    (∃ e, (m.run menu.installRaspbian).1 = some e) ↔ menu.raspbian ≠ .unanswered := by
  unfold installRaspbian
  rw [run_bind]
  cases menu.raspbian with
  | done os => exact iff_of_true ⟨.left, congrArg Prod.fst (run_bind _ _)⟩ (by simp)
  | invalid => exact iff_of_true ⟨.left, rfl⟩ (by simp)
  | crashed f => exact iff_of_true ⟨.crashed f, rfl⟩ (by simp)
  | unanswered => exact iff_of_false (fun ⟨e, h⟩ => Option.some_ne_none e h.symm) (by simp)

/-- The loop ends in the iteration that selects a 4 or a 5. -/
theorem terminates_leaves (hleave : Leaves (menu.select c selection).1) :
    menu.Terminates m c selection ↔
      ((menu.select c selection).1 = 4 → menu.raspbian ≠ .unanswered) := by
  have hrun : ∀ fuel, menu.run (fuel + 1) c selection =
      if (menu.select c selection).1 = 4 then menu.installRaspbian else pure (some .left) := by
    intro fuel
    simp only [run]
    rcases hleave with h | h
    · simp [h]
    · simp [h]
  have hfuel : menu.Terminates m c selection ↔
      ∃ e, (m.run (if (menu.select c selection).1 = 4 then menu.installRaspbian else pure (some .left))).1 =
        some e := by
    constructor
    · rintro ⟨fuel, e, h⟩
      cases fuel with
      | zero => cases h
      | succ fuel => exact ⟨e, hrun fuel ▸ h⟩
    · rintro ⟨e, h⟩
      exact ⟨1, e, (hrun 0).symm ▸ h⟩
  rw [hfuel]
  -- a 4 comes to an end with its installation, a 5 at once
  split_ifs with h4
  · rw [run_installRaspbian]
    exact (imp_iff_right h4).symm
  · exact iff_of_true ⟨.left, rfl⟩ fun h => absurd h h4

/-- The first of these numbers that leaves the menu does so. -/
def LeftBy (menu : Menu) (ns : List ℤ) : Prop :=
  ∃ n, ns.find? (fun n => decide (Leaves n)) = some n ∧ (n = 4 → menu.raspbian ≠ .unanswered)

theorem leftBy_cons_of_leaves {ns : List ℤ} (h : Leaves n) :
    menu.LeftBy (n :: ns) ↔ (n = 4 → menu.raspbian ≠ .unanswered) := by
  unfold LeftBy
  simp [h]

theorem leftBy_cons_of_not {ns : List ℤ} (h : ¬Leaves n) :
    menu.LeftBy (n :: ns) ↔ menu.LeftBy ns := by
  unfold LeftBy
  simp [h]

/-- An extraction that fails leaves the fail state behind. -/
theorem not_terminates_error {f : Fault} (hfail : ∀ c n, menu.onFail c n = 0 ∨ menu.onFail c n = n)
    (hstoi : stoi input = .error f) (hsel : ¬Leaves selection)
    (hnot : menu.NeverReboots m ⟨input, false⟩ selection) :
    ¬menu.Terminates m ⟨input, false⟩ selection := by
  have hselect : menu.select ⟨input, false⟩ selection =
      (menu.onFail ⟨input, false⟩ selection, ⟨behindNumber input, true⟩) := select_error hstoi
  have hstay : ¬Leaves (menu.select ⟨input, false⟩ selection).1 := by
    rw [hselect]
    exact stays_onFail hfail hsel _
  obtain ⟨m', hstep⟩ := run_step hnot hstay
  rw [terminates_step hstep]
  rintro ⟨fuel, e, h⟩
  rw [failed_runs hfail fuel m' _ _ (failed_after (by rw [hselect])) hstay (hnot.step hstep)] at h
  cases h

theorem after_running (n : ℤ) (rest : Text) : menu.after n ⟨rest, false⟩ =
    ⟨if n = 2 ∨ n = 3 then (menu.reader.readLine rest).2 else rest, false⟩ := by
  unfold after LineReader.read
  split_ifs <;> rfl

theorem terminates_selectionsIn (hfail : ∀ c n, menu.onFail c n = 0 ∨ menu.onFail c n = n) :
    ∀ (k : ℕ) (m : Machine) (input : Text) (selection : ℤ), input.length ≤ k → ¬Leaves selection →
      menu.NeverReboots m ⟨input, false⟩ selection →
      (menu.Terminates m ⟨input, false⟩ selection ↔ menu.LeftBy (selectionsIn menu.reader k input)) := by
  intro k
  induction k with
  | zero =>
    intro m input selection hk hsel hnot
    obtain rfl := List.length_eq_zero_iff.1 (Nat.le_zero.1 hk)
    -- there is nothing to read: the extraction fails at the end of the input
    refine iff_of_false (not_terminates_error (f := .invalidArgument) hfail rfl hsel hnot) ?_
    rintro ⟨n, h, -⟩
    cases h
  | succ k ih =>
    intro m input selection hk hsel hnot
    cases hstoi : stoi input with
    | error f =>
      refine iff_of_false (not_terminates_error hfail hstoi hsel hnot) ?_
      rintro ⟨n, h, -⟩
      rw [selectionsIn, hstoi] at h
      cases h
    | ok n =>
      have hselect : menu.select ⟨input, false⟩ selection = (n, ⟨behindNumber input, false⟩) :=
        select_ok hstoi
      rw [selectionsIn, hstoi]
      simp only
      by_cases hleave : Leaves n
      · rw [leftBy_cons_of_leaves hleave, terminates_leaves (by rw [hselect]; exact hleave), hselect]
      · have hstay : ¬Leaves (menu.select ⟨input, false⟩ selection).1 := by
          rw [hselect]
          -- a number takes some of the input away, so the induction on its length goes on
          exact hleave
        obtain ⟨m', hstep⟩ := run_step hnot hstay
        rw [hselect] at hstep
        simp only [after_running] at hstep
        have hlen := length_behindNumber hstoi
        have hrest : (if n = 2 ∨ n = 3 then (menu.reader.readLine (behindNumber input)).2
            else behindNumber input).length ≤ k := by
          have hline := (menu.reader.suffix (behindNumber input)).length_le
          split_ifs <;> omega
        rw [leftBy_cons_of_not hleave, terminates_step hstep]
        exact ih m' _ n hrest hleave (hnot.step hstep)

/-- **The menu ends** iff a 4 or a 5 is read before an extraction fails, and the downloads
of the 4 are answered. -/
theorem menu_ends_iff (menu : Menu) (hfail : ∀ c n, menu.onFail c n = 0 ∨ menu.onFail c n = n)
    (m : Machine) (input : Text) (hnot : menu.NeverReboots m ⟨input, false⟩ 0) :
    menu.Terminates m ⟨input, false⟩ 0 ↔
      ∃ n, (selections menu.reader input).find? (fun n => decide (Leaves n)) = some n ∧
        (n = 4 → menu.raspbian ≠ .unanswered) :=
  terminates_selectionsIn hfail _ m input 0 le_rfl (by decide) hnot

/-- A console on which a line ends with a line feed, and no downloads. -/
def lineMenu : Menu where
  I := unbounded
  sys := { startP1 := 8192, sizeP1 := 204800, startP5 := 221184, sizeP5 := 65534, totalSectors := 7744512 }
  reader :=
    { readLine := fun input => (input.takeWhile (· ≠ '\n'), (input.dropWhile (· ≠ '\n')).tail)
      suffix := fun _ => (List.tail_suffix _).trans (List.dropWhile_suffix _) }
  onFail := fun _ _ => 0
  raspbian := .invalid

/-- A machine without any file. -/
def bareMachine : Machine := { outcome := fun _ _ => { ok := true } }

theorem exit_ends : lineMenu.Terminates bareMachine ⟨"5\n".toList, false⟩ 0 ↔
    ∃ n, (selections lineMenu.reader "5\n".toList).find? (fun n => decide (Leaves n)) = some n ∧
      (n = 4 → lineMenu.raspbian ≠ .unanswered) := by
  refine menu_ends_iff lineMenu (fun _ _ => Or.inl rfl) bareMachine "5\n".toList fun fuel => ?_
  cases fuel with
  | zero => exact (Option.some_ne_none _).symm
  | succ fuel =>
    intro h
    cases h

theorem end_of_file_runs : (∀ c n, lineMenu.onFail c n = 0 ∨ lineMenu.onFail c n = n) ∧
    lineMenu.NeverReboots bareMachine ⟨[], false⟩ 0 ∧ ¬lineMenu.Terminates bareMachine ⟨[], false⟩ 0 := by
  have hrun : ∀ fuel failed, (bareMachine.run (lineMenu.run fuel ⟨[], failed⟩ 0)).1 = none := by
    intro fuel
    induction fuel with
    | zero => exact fun failed => rfl
    | succ fuel ih => exact fun failed => by cases failed <;> exact ih true
  have hnot : lineMenu.NeverReboots bareMachine ⟨[], false⟩ 0 := by
    intro fuel h
    rw [hrun] at h
    cases h
  exact ⟨fun _ _ => Or.inl rfl, hnot,
    not_terminates_error (f := .invalidArgument) (fun _ _ => Or.inl rfl) rfl (by decide) hnot⟩

end Menu

end Noobs
