import Noobs.Proof.Number
import Noobs.Spec.CmdLine

/-!
# Clearing the command line

`clearCMDline` removes the text `runinstaller` in one pass, wherever it stands; what is to
go is the word.

* `removeAll_cut`: at a character that is not in what is removed, a text can be cut.
* `words_removeAll`: so the text is removed from each word by itself.
* `clears_flag_iff`: **the word is gone, and it alone,** if and only if the text stands in no
  other word. A word around it can be joined to it: `runruninstallerinstaller` becomes the
  word itself.
-/

namespace Noobs

variable {needle t : Text}

/-! ## Removing a text -/

theorem removeFrom_cut {c : Char} (h : c ∉ needle) (hne : needle ≠ []) (r : Text) :
    ∀ (l : Text) (skip : ℕ), skip ≤ l.length →
      removeFrom needle skip (l ++ c :: r) = removeFrom needle skip l ++ c :: removeFrom needle 0 r := by
  have hpos : 0 < needle.length := List.length_pos_iff.2 hne
  intro l
  induction l with
  | nil =>
    intro skip hskip
    obtain rfl := Nat.le_zero.1 hskip
    have hp : ¬needle <+: [] ++ c :: r := fun hp =>
      hne (List.prefix_nil.1 ((prefix_append_cons_iff h).1 hp))
    exact if_neg hp
  | cons x l ih =>
    intro skip hskip
    -- what is still to be skipped ends in front of the character
    cases skip with
    | succ skip => exact ih skip (Nat.le_of_succ_le_succ hskip)
    | zero =>
      have hp := prefix_append_cons_iff (l := x :: l) (r := r) h
      rw [List.cons_append] at hp ⊢
      simp only [removeFrom]
      by_cases hx : needle <+: x :: l
      -- whether the text stands here does not depend on what is behind the character
      · have hlen := hx.length_le
        rw [List.length_cons] at hlen
        rw [if_pos (hp.2 hx), if_pos hx]
        exact ih _ (by omega)
      · rw [if_neg fun hx' => hx (hp.1 hx'), if_neg hx, ih 0 (Nat.zero_le _)]
        rfl

/-- **At a character that is not in what is removed**, a text can be cut. -/
theorem removeAll_cut {c : Char} (h : c ∉ needle) (hne : needle ≠ []) (l r : Text) :
    removeAll needle (l ++ c :: r) = removeAll needle l ++ c :: removeAll needle r :=
  removeFrom_cut h hne r l 0 (Nat.zero_le _)

theorem removeFrom_sublist (needle : Text) :
    ∀ (t : Text) (skip : ℕ), (removeFrom needle skip t).Sublist t := by
  intro t
  induction t with
  | nil =>
    intro skip
    cases skip <;> exact List.Sublist.refl []
  | cons c t ih =>
    intro skip
    cases skip with
    | succ skip => exact (ih skip).cons c
    | zero =>
      rw [removeFrom]
      split_ifs
      · exact (ih _).cons c
      · exact (ih 0).cons_cons c

theorem removeAll_absent (h : ¬needle <:+: t) : removeAll needle t = t := by
  unfold removeAll
  induction t with
  | nil => rfl
  | cons c t ih =>
    rw [List.infix_cons_iff, not_or] at h
    rw [removeFrom, if_neg h.1, ih h.2]

theorem removeAll_self (hne : needle ≠ []) : removeAll needle needle = [] := by
  obtain ⟨c, rest, rfl⟩ := List.exists_cons_of_ne_nil hne
  unfold removeAll
  rw [removeFrom, if_pos (List.prefix_refl _)]
  have h := removeFrom_append (c :: rest) rest []
  rw [List.append_nil] at h
  exact h

/-- **The text is removed from each word** by itself. -/
theorem words_removeAll (hsolid : Solid isSpace needle) (hne : needle ≠ []) (t : Text) :
    words isSpace (removeAll needle t) =
      ((words isSpace t).map (removeAll needle)).filter fun w => !w.isEmpty := by
  refine words_wordwise (fun w c r _ hc => ?_) (fun w hw x hx => ?_) rfl t
  · refine removeAll_cut (fun hmem => ?_) hne w r
    rw [hsolid c hmem] at hc
    exact Bool.noConfusion hc
  · exact hw x ((removeFrom_sublist needle w 0).subset hx)

/-- Where it stands in no other word, it is what is removed. -/
theorem words_removeAll_eq (hsolid : Solid isSpace needle) (hne : needle ≠ [])
    (h : ∀ w ∈ words isSpace t, needle <:+: w → w = needle) :
    words isSpace (removeAll needle t) = (words isSpace t).filter fun w => decide (w ≠ needle) := by
  have hword : ∀ ws : List Text, (∀ w ∈ ws, w ≠ [] ∧ (needle <:+: w → w = needle)) →
      (ws.map (removeAll needle)).filter (fun w => !w.isEmpty) =
        ws.filter fun w => decide (w ≠ needle) := by
    intro ws hws
    induction ws with
    | nil => rfl
    | cons w ws ih =>
      obtain ⟨⟨hw, himp⟩, hrest⟩ := List.forall_mem_cons.1 hws
      rw [List.map_cons, List.filter_cons, List.filter_cons, ih hrest]
      by_cases hwn : w = needle
      · subst hwn
        simp [removeAll_self hne]
      · rw [removeAll_absent fun hin => hwn (himp hin)]
        simp [hw, hwn]
  rw [words_removeAll hsolid hne t]
  exact hword _ fun w hw => ⟨(mem_words hw).1, h w hw⟩

/-! ## The flag -/

namespace PreSetup

variable {b : BootFiles}

theorem runinstaller_solid : Solid isSpace runinstaller := by decide

theorem runinstaller_ne_nil : runinstaller ≠ [] := by decide

/-- What `clearCMDline` writes for a file with that text. -/
def clearedLine (text : Text) : Text := trimmed (removeAll runinstaller (trimmed text))

theorem words_clearedLine (h : ∀ w ∈ words isSpace t, runinstaller <:+: w → w = runinstaller) :
    words isSpace (clearedLine t) = (words isSpace t).filter fun w => decide (w ≠ runinstaller) := by
  have htrim : words isSpace (trimmed t) = words isSpace t := words_trim t
  unfold clearedLine
  rw [show words isSpace (trimmed (removeAll runinstaller (trimmed t))) =
    words isSpace (removeAll runinstaller (trimmed t)) from words_trim _,
    words_removeAll_eq runinstaller_solid runinstaller_ne_nil (htrim.symm ▸ h), htrim]

/-- What clearing the flag in a text is to leave: nothing the init script finds, and the
other words in their order. -/
structure Cleared (text new : Text) : Prop where
  silent : ¬asksForInstaller new
  others : words isSpace new = (words isSpace text).filter fun w => decide (w ≠ runinstaller)

/-- The flag stands in a text as a word only. -/
def FlagIsWord (text : Text) : Prop := ∀ w ∈ words isSpace text, asksForInstaller w → w = runinstaller

/-- What holds the other words only does not ask for the installer. -/
theorem cleared_of_others {new : Text} (h : FlagIsWord t)
    (hw : words isSpace new = (words isSpace t).filter fun w => decide (w ≠ runinstaller)) :
    Cleared t new := by
  refine ⟨fun hin => ?_, hw⟩
  obtain ⟨w, hmem, hinw⟩ := (infix_iff_word runinstaller_solid runinstaller_ne_nil new).1 hin
  rw [hw, List.mem_filter] at hmem
  exact of_decide_eq_true hmem.2 (h w hmem.1 hinw)

/-- Another word with the flag inside it would be kept, and would ask for the installer. -/
theorem Cleared.flagIsWord {new : Text} (h : Cleared t new) : FlagIsWord t := by
  intro w hw hin
  by_contra hne
  have hmem : w ∈ words isSpace new := by
    rw [h.others]
    exact List.mem_filter.2 ⟨hw, decide_eq_true hne⟩
  exact h.silent ((infix_iff_word runinstaller_solid runinstaller_ne_nil new).2 ⟨w, hmem, hin⟩)

/-- What `clearCMDline` has written where it returns true. -/
theorem clearCMDline_ok (hread : b.read = some t) (hok : (clearCMDline b).1 = true) :
    (clearCMDline b).2 = Function.update b.files b.cmdline (some (b.stored (clearedLine t))) ∧
      (if b.readableAgain then b.stored (clearedLine t) else []) = clearedLine t := by
  unfold clearCMDline at hok ⊢
  rw [hread] at hok ⊢
  cases hw : b.writable with
  | false =>
    rw [hw] at hok
    exact Bool.noConfusion hok
  | true =>
    rw [hw] at hok
    exact ⟨rfl, of_decide_eq_true hok⟩

/-- The file holds what is to be left, and the other file is as before. -/
structure ClearsFlag (b : BootFiles) (text : Text) : Prop where
  file : ∃ new, (clearCMDline b).2 b.cmdline = some new ∧ Cleared text new
  other : ∀ f ≠ b.cmdline, (clearCMDline b).2 f = b.files f

/-- **The word is gone, and it alone,** if and only if the text stands in no other word.
What cannot be opened to be read back must not hold a word if nothing was to be written. -/
theorem clears_flag_iff (b : BootFiles) {text : Text} (hread : b.read = some text)
    (hok : (clearCMDline b).1 = true) :
    ClearsFlag b text ↔
      FlagIsWord text ∧ (b.readableAgain = true ∨ words isSpace (b.stored []) = []) := by
  obtain ⟨hfiles, hback⟩ := clearCMDline_ok hread hok
  have hnew : (clearCMDline b).2 b.cmdline = some (b.stored (clearedLine text)) := by
    rw [hfiles, Function.update_self]
  have hother : ∀ f ≠ b.cmdline, (clearCMDline b).2 f = b.files f := by
    intro f hf
    rw [hfiles, Function.update_of_ne hf]
  constructor
  · rintro ⟨⟨new, hfile, hcleared⟩, -⟩
    obtain rfl : b.stored (clearedLine text) = new := Option.some.inj (hnew.symm.trans hfile)
    have hflag := hcleared.flagIsWord
    refine ⟨hflag, ?_⟩
    cases hagain : b.readableAgain with
    | true => exact Or.inl rfl
    | false =>
      right
      -- it reads back as nothing, so nothing was to be written
      have hline : clearedLine text = [] := by
        rw [hagain] at hback
        exact hback.symm
      have hothers := hcleared.others
      rw [← words_clearedLine hflag, hline, words_nil] at hothers
      exact hothers
  · rintro ⟨hflag, hagain⟩
    refine ⟨⟨_, hnew, cleared_of_others hflag ?_⟩, hother⟩
    rw [← words_clearedLine hflag]
    cases ha : b.readableAgain with
    | true =>
      rw [ha] at hback
      exact congrArg (words isSpace) hback
    | false =>
      rw [ha] at hback hagain
      rw [← hback]
      rcases hagain with h | h
      · exact absurd h Bool.false_ne_true
      · exact h

/-- A file with the flag between two words. -/
def flaggedFiles : BootFiles where
  files
    | .recoveryCmdline => some "quiet runinstaller silentinstall\n".toList
    | .cmdlineTxt => none

theorem clears_flag_once : ClearsFlag flaggedFiles "quiet runinstaller silentinstall\n".toList ↔
    FlagIsWord "quiet runinstaller silentinstall\n".toList ∧
      (flaggedFiles.readableAgain = true ∨ words isSpace (flaggedFiles.stored []) = []) :=
  clears_flag_iff flaggedFiles rfl (by decide)

/-- A file with the flag around the flag. -/
def joinedFiles : BootFiles where
  files
    | .recoveryCmdline => some "runruninstallerinstaller".toList
    | .cmdlineTxt => none

theorem joined_flag_remains : (clearCMDline joinedFiles).1 = true ∧
    (clearCMDline joinedFiles).2 .recoveryCmdline = some runinstaller ∧
    ¬ClearsFlag joinedFiles "runruninstallerinstaller".toList := by
  refine ⟨by decide, by decide, fun h => ?_⟩
  obtain ⟨new, hfile, hcleared⟩ := h.file
  have hnew : (clearCMDline joinedFiles).2 joinedFiles.cmdline = some runinstaller := by decide
  obtain rfl : runinstaller = new := Option.some.inj (hnew.symm.trans hfile)
  exact hcleared.silent (List.infix_refl runinstaller)

end PreSetup

end Noobs
