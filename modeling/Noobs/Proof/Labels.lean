import Noobs.Proof.Format

/-!
# The labels of file systems

`writeImage` clears a label that is too long, and puts a digit behind one that is taken.
Both happen to the copy that `label()` returns, so `mkfs` is passed the label that the
partition came with.

* `mkfsCommand_label`: the command tells which label it was.
* `formats_logged`: where in the log the formatting of a partition is found.
* `labels_good_iff`: **every label is short and unique** just where those that the
  partitions come with are, each when its partition is formatted.
-/

namespace Noobs

open Prog

variable {m x : Machine} {p : PartitionInfo} {ps before after : List PartitionInfo} {os : OSInfo}

/-! ## The label of a command -/

/-- A type whose program is known is neither copied nor left alone. -/
theorem mkfsProgram_formats {fstype : Text} (h : (mkfsProgram fstype).isSome = true) :
    fstype ≠ "raw".toList ∧ ¬"partclone".toList <+: fstype ∧ fstype ≠ "unformatted".toList := by
  unfold mkfsProgram at h
  split_ifs at h with hfat hext4 hntfs
  · rcases hfat with rfl | rfl <;> decide
  · subst hext4
    decide
  · subst hntfs
    decide
  · cases h

/-- What stands between two equal ends of a command. -/
theorem labelPart_injective {flag label label' : Text} (hflag : flag ≠ [])
    (h : (if label = [] then [] else flag ++ label ++ [' ']) =
      if label' = [] then [] else flag ++ label' ++ [' ']) : label = label' := by
  split_ifs at h with h1 h2 h2
  · rw [h1, h2]
  · exact absurd (List.append_eq_nil_iff.1 (List.append_eq_nil_iff.1 h.symm).1).1 hflag
  · exact absurd (List.append_eq_nil_iff.1 (List.append_eq_nil_iff.1 h).1).1 hflag
  · exact List.append_cancel_left (List.append_cancel_right h)

/-- **A command tells its label**, if the type has a program that is given one. -/
theorem mkfsCommand_label {device fstype label label' mkfsopt : Text}
    (hknown : (mkfsProgram fstype).isSome = true)
    (h : mkfsCommand device fstype label mkfsopt = mkfsCommand device fstype label' mkfsopt) :
    label = label' := by
  obtain ⟨program, hprogram⟩ := Option.isSome_iff_exists.1 hknown
  obtain ⟨text, flag, -, -, hflag, hhead, -, -⟩ := commandHead_known hprogram
  rw [mkfsCommand_eq, mkfsCommand_eq, hhead, hhead] at h
  have hpart := List.append_cancel_right (List.append_cancel_right h)
  exact labelPart_injective hflag (List.append_cancel_left hpart)

/-! ## Where a partition is formatted -/

/-- The log grows along a program. -/
theorem log_bind {α β : Type} (q : Sys α) (f : α → Sys β) (m : Machine) :
    (m.run q).2.log <+: (m.run (q >>= f)).2.log := by
  rw [run_bind]
  exact (throughout_log _ _).run

/-- The partitions behind those that are written are written then. -/
theorem writePartitions_append (h : (m.run (writePartitions before)).1.1 = true) (ps : List PartitionInfo) :
    (m.run (writePartitions (before ++ ps))).2 =
      ((m.run (writePartitions before)).2.run (writePartitions ps)).2 := by
  induction before generalizing m with
  | nil => rfl
  | cons p before ih =>
    rw [List.cons_append, writePartitions, run_bind]
    rw [writePartitions, run_bind] at h ⊢
    generalize m.run (writePartition p) = r at h ⊢
    obtain ⟨⟨written, p'⟩, m₁⟩ := r
    cases written with
    | false => cases h
    | true =>
      change (m₁.run (writePartitions before >>= fun r => pure (r.1, p' :: r.2))).1.1 = true at h
      show (m₁.run (writePartitions (before ++ ps) >>= fun r => pure (r.1, p' :: r.2))).2 =
        ((m₁.run (writePartitions before >>= fun r => pure (r.1, p' :: r.2))).2.run (writePartitions ps)).2
      rw [run_bind] at h ⊢
      rw [run_bind]
      exact ih h

/-- On `m`, `writeImage` comes to the partition, and the machine is `x` then. -/
def ComesTo (m : Machine) (os : OSInfo) (p : PartitionInfo) (x : Machine) : Prop :=
  ∃ before after, os.partitions = before ++ p :: after ∧
    (m.run (writePartitions before)).1.1 = true ∧ (m.run (writePartitions before)).2 = x

/-- **A partition that is formatted is passed its own label**, when `writeImage` comes to it. -/
theorem formats_logged (hx : ComesTo m os p x) (hknown : (mkfsProgram p.fsType).isSome = true)
    (installedOs : List InstalledOs) :
    ((m.run (writeImage installedOs os)).2.log[x.log.length]?).map Entry.step =
      some (.mkfs p.partitionDevice (mkfsCommand p.partitionDevice p.fsType p.label p.mkfsOptions)) := by
  obtain ⟨before, after, hps, hwritten, rfl⟩ := hx
  obtain ⟨hraw, hclone, hunformatted⟩ := mkfsProgram_formats hknown
  generalize hx : (m.run (writePartitions before)).2 = x
  -- the first step of the partition is its `mkfs`
  have hmkfs : (x.run (mkfs p.partitionDevice p.fsType p.label p.mkfsOptions)).2.log <+:
      (x.run (writePartition p)).2.log := by
    unfold writePartition
    rw [run_bind, run_checkLabel, if_neg hraw, if_neg hclone, if_pos hunformatted]
    exact log_bind _ _ x
  have hpartitions : (x.run (writePartition p)).2.log <+: (m.run (writePartitions os.partitions)).2.log := by
    rw [hps, writePartitions_append hwritten, hx, writePartitions]
    exact log_bind _ _ x
  have himage : (m.run (writePartitions os.partitions)).2.log <+: (m.run (writeImage installedOs os)).2.log :=
    log_bind _ _ m
  obtain ⟨rest, hrest⟩ := hmkfs.trans (hpartitions.trans himage)
  rw [← hrest]
  show ((x.log ++ [_] ++ rest)[x.log.length]?).map Entry.step = _
  rw [List.append_assoc, List.getElem?_append_right (Nat.le_refl _), Nat.sub_self]
  rfl

/-! ## Good labels -/

/-- No attached file system has this label. -/
def FreeLabel (fs : List (Text × Text)) (label : Text) : Prop := ∀ f ∈ fs, f.2 ≠ label

/-- A label and what it becomes with a digit behind it. -/
def variants (label : Text) : List Text := label :: (List.range 10).map fun i : ℕ => label ++ number i

/-- No other file system has the label, unless all variants of the partition's are taken. -/
def UniqueLabel (fs : List (Text × Text)) (p : PartitionInfo) (label : Text) : Prop :=
  (∃ v ∈ variants p.label, FreeLabel fs v) → ∀ f ∈ fs, f.2 = label → f.1 = p.partitionDevice

/-- The label is empty, or the partition's own of at most 15 bytes, perhaps with a digit,
and unique. -/
def GoodLabel (fs : List (Text × Text)) (p : PartitionInfo) (label : Text) : Prop :=
  label = [] ∨ p.label.length ≤ 15 ∧ label ∈ variants p.label ∧ UniqueLabel fs p label

/-- Every label that `writeImage` passes to the program of a type is good, at the moment it
does; `fs` says what is attached after so many steps. -/
def LabelsGood (fs : ℕ → List (Text × Text)) (m : Machine) (installedOs : List InstalledOs) (os : OSInfo) : Prop :=
  ∀ p x label, ComesTo m os p x → (mkfsProgram p.fsType).isSome = true →
    ((m.run (writeImage installedOs os)).2.log[x.log.length]?).map Entry.step =
      some (.mkfs p.partitionDevice (mkfsCommand p.partitionDevice p.fsType label p.mkfsOptions)) →
    GoodLabel (fs x.log.length) p label

/-- **Every label is short and unique** just where those that the partitions come with
are, each when it comes to its partition. -/
theorem labels_good_iff (fs : ℕ → List (Text × Text)) (m : Machine) (installedOs : List InstalledOs)
    (os : OSInfo) :
    LabelsGood fs (m.withFileSystems fs) installedOs os ↔
      ∀ p x, ComesTo (m.withFileSystems fs) os p x → (mkfsProgram p.fsType).isSome = true →
        p.label = [] ∨ p.label.length ≤ 15 ∧ UniqueLabel (fs x.log.length) p p.label := by
  constructor
  · intro h p x hx hknown
    rcases h p x p.label hx hknown (formats_logged hx hknown installedOs) with hempty | ⟨hshort, -, hunique⟩
    · exact Or.inl hempty
    · exact Or.inr ⟨hshort, hunique⟩
  · intro h p x label hx hknown hlogged
    rw [formats_logged hx hknown] at hlogged
    obtain rfl : p.label = label := mkfsCommand_label hknown (Step.mkfs.inj (Option.some.inj hlogged)).2
    rcases h p x hx hknown with hempty | ⟨hshort, hunique⟩
    · exact Or.inl hempty
    · exact Or.inr ⟨hshort, List.mem_cons_self, hunique⟩

/-- Two partitions with one label. -/
def twinPartition (n : ℤ) : PartitionInfo :=
  { fsType := "ext4".toList, label := "root".toList, partitionDevice := devicePrefix ++ number n, emptyFS := true }

/-- The file systems that formatting them one after the other makes. -/
def twinFileSystems (steps : ℕ) : List (Text × Text) :=
  [((twinPartition 6).partitionDevice, "root".toList), ((twinPartition 7).partitionDevice, "root".toList)].take steps

/-- The second one is given the label of the first, though `root0` is free. -/
theorem twin_labels : ¬LabelsGood twinFileSystems (listingDevice.withFileSystems twinFileSystems) []
    { partitions := [twinPartition 6, twinPartition 7] } := by
  intro h
  have hx : ComesTo (listingDevice.withFileSystems twinFileSystems)
      { partitions := [twinPartition 6, twinPartition 7] } (twinPartition 7)
      ((listingDevice.withFileSystems twinFileSystems).run (writePartitions [twinPartition 6])).2 :=
    ⟨[twinPartition 6], [], rfl, by decide, rfl⟩
  rcases h _ _ "root".toList hx rfl (by decide) with hempty | ⟨-, -, hunique⟩
  · cases hempty
  · refine absurd (hunique ⟨"root0".toList, by decide, ?_⟩ _ List.mem_cons_self rfl) (by decide)
    intro f hf
    obtain rfl := List.mem_singleton.1 hf
    decide

end Noobs
