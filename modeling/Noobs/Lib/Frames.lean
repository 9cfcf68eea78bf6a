import Mathlib.Data.List.Forall2
import Noobs.Lib.Lines

/-!
# Frames back to back

A reader takes a frame off the front of a stream and leaves the rest.

* `takeBlock_terminated`: lines are taken up to the first blank one, whatever follows.
* `readFrames_flatten`: **frames that were written back to back are read as they were**, if
  each of them is taken off whatever follows it.
-/

variable {α β : Type*}

/-! ## Blocks of lines -/

section

variable [DecidableEq α] {sep : α} {blank : List α → Bool} {l rest : List α} {ls : List (List α)}

/-- The first line, if it is ended, and what follows it. -/
def takeLine (sep : α) (stream : List α) : Option (List α × List α) :=
  if sep ∈ stream then
    some (stream.takeWhile (· ≠ sep), (stream.dropWhile (· ≠ sep)).tail)
  else none

/-- The lines up to the first blank one, and what follows that. -/
def takeBlock (sep : α) (blank : List α → Bool) : (fuel : ℕ) → List α → Option (List (List α) × List α)
  | 0, _ => none
  | fuel + 1, stream => do
    let (line, rest) ← takeLine sep stream
    if blank line then return ([], rest)
    else
      let (block, rest) ← takeBlock sep blank fuel rest
      return (line :: block, rest)

theorem takeLine_append (h : sep ∉ l) (rest : List α) : takeLine sep (l ++ sep :: rest) = some (l, rest) := by
  have hline : ∀ c ∈ l, decide (c ≠ sep) = true := by
    intro c hc
    refine decide_eq_true ?_
    rintro rfl
    exact h hc
  unfold takeLine
  rw [if_pos (by simp), List.takeWhile_append_of_pos hline, List.dropWhile_append_of_pos hline]
  simp

omit [DecidableEq α] in
/-- There are at least as many separators. -/
theorem length_terminated_le (sep : α) (ls : List (List α)) : ls.length ≤ (terminated sep ls).length := by
  induction ls with
  | nil => exact Nat.le_refl 0
  | cons l ls ih =>
    rw [terminated_cons, List.length_append, List.length_cons, List.length_cons]
    omega

/-- **A block ends at its blank line.** -/
theorem takeBlock_terminated (h : ∀ l ∈ ls, sep ∉ l ∧ blank l = false) (hl : sep ∉ l) (hblank : blank l = true)
    {fuel : ℕ} (hfuel : ls.length < fuel) (rest : List α) :
    takeBlock sep blank fuel (terminated sep (ls ++ [l]) ++ rest) = some (ls, rest) := by
  induction ls generalizing fuel with
  | nil =>
    obtain ⟨fuel, rfl⟩ := Nat.exists_eq_add_of_lt hfuel
    have hstream : terminated sep ([] ++ [l]) ++ rest = l ++ sep :: rest := by simp
    rw [hstream, takeBlock, takeLine_append hl]
    simp [hblank]
  | cons l' ls ih =>
    obtain ⟨fuel, rfl⟩ : ∃ k, fuel = k + 1 := ⟨fuel - 1, by omega⟩
    obtain ⟨hfirst, hothers⟩ := List.forall_mem_cons.1 h
    have hstream : terminated sep (l' :: ls ++ [l]) ++ rest = l' ++ sep :: (terminated sep (ls ++ [l]) ++ rest) := by
      simp
    have hlater := @ih hothers fuel (by rw [List.length_cons] at hfuel; omega)
    rw [hstream, takeBlock, takeLine_append hfirst.1]
    simp [hfirst.2, hlater]

end

/-! ## Streams of frames -/

variable {read : List α → Option (β × List α)}

/-- Takes off one frame after the other, until nothing is left. -/
def readFrames (read : List α → Option (β × List α)) : (fuel : ℕ) → List α → Option (List β)
  | _, [] => some []
  | 0, _ :: _ => none
  | fuel + 1, c :: stream =>
    (read (c :: stream)).bind fun r => (readFrames read fuel r.2).map (r.1 :: ·)

/-- What was written is taken off as this frame, whatever follows it. -/
structure ReadsAs (read : List α → Option (β × List α)) (written : List α) (frame : β) : Prop where
  nonempty : written ≠ []
  front : ∀ rest, read (written ++ rest) = some (frame, rest)

/-- **Frames back to back are read one by one.** -/
theorem readFrames_flatten {ws : List (List α)} {frames : List β} (h : List.Forall₂ (ReadsAs read) ws frames)
    {fuel : ℕ} (hfuel : ws.flatten.length ≤ fuel) : readFrames read fuel ws.flatten = some frames := by
  induction h generalizing fuel with
  | nil => cases fuel <;> rfl
  | @cons w frame ws frames hw _ ih =>
    obtain ⟨c, w, rfl⟩ := List.exists_cons_of_ne_nil hw.nonempty
    rw [List.flatten_cons, List.length_append, List.length_cons] at hfuel
    obtain ⟨fuel, rfl⟩ : ∃ k, fuel = k + 1 := ⟨fuel - 1, by omega⟩
    have hlater := @ih fuel (by omega)
    have hfirst := hw.front ws.flatten
    rw [List.cons_append] at hfirst
    rw [List.flatten_cons, List.cons_append, readFrames, hfirst, Option.bind_some, hlater]
    rfl
