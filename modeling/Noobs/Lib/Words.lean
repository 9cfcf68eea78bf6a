import Mathlib.Data.List.DropRight
import Mathlib.Data.List.Infix

/-!
# Words

`words p l` are the longest nonempty pieces of `l` without a separator, which is what `p`
holds of.

* `word_induction`: a text is a word, or a word in front of a separator and a text.
* `words_append_cons`: at a separator a text can be cut.
* `words_trim`: separators around a text do not matter.
* `words_wordwise`: what is done to each word by itself can be done to the list of words.
* `infix_iff_word`: what has no separator stands in a text only inside a word.
-/

variable {α : Type*} {p : α → Bool} {c : α} {l r w needle : List α}

def words (p : α → Bool) (l : List α) : List (List α) := (l.splitOnP p).filter fun w => !w.isEmpty

/-- What has no separator. -/
def Solid (p : α → Bool) (w : List α) : Prop := ∀ x ∈ w, p x = false

instance (p : α → Bool) (w : List α) : Decidable (Solid p w) := by unfold Solid; infer_instance

theorem words_solid (h : Solid p w) : words p w = [w].filter fun w => !w.isEmpty := by
  unfold words
  rw [List.splitOnP_eq_singleton h]

@[simp] theorem words_nil : words p [] = [] := by simp [words]

theorem words_append_cons (hc : p c = true) : words p (l ++ c :: r) = words p l ++ words p r := by
  unfold words
  rw [List.splitOnP_append_cons l r hc, List.filter_append]

/-- A text is a word, or a word in front of a separator and a text. -/
theorem word_induction {motive : List α → Prop} (solid : ∀ w, Solid p w → motive w)
    (cut : ∀ w c r, Solid p w → p c = true → motive r → motive (w ++ c :: r)) (l : List α) :
    motive l := by
  induction hn : l.length using Nat.strong_induction_on generalizing l with
  | _ n ih =>
    subst hn
    have hsolid : Solid p (l.takeWhile fun x => !p x) := fun x hx => by
      simpa using List.mem_takeWhile_imp hx
    have hl := List.takeWhile_append_dropWhile (p := fun x => !p x) (l := l)
    cases hr : l.dropWhile (fun x => !p x) with
    | nil =>
      rw [hr, List.append_nil] at hl
      exact hl ▸ solid _ hsolid
    | cons c r =>
      have hc : p c = true := by
        have hhead := List.head_dropWhile_not (fun x => !p x) (l := l) (by rw [hr]; exact List.cons_ne_nil c r)
        simpa [hr] using hhead
      rw [hr] at hl
      have hlen : r.length < l.length := by
        rw [← hl, List.length_append, List.length_cons]
        omega
      exact hl ▸ cut _ c r hsolid hc (ih r.length hlen r rfl)

theorem mem_words (h : w ∈ words p l) : w ≠ [] ∧ Solid p w := by
  induction l using word_induction (p := p) with
  | solid v hv =>
    rw [words_solid hv] at h
    obtain ⟨hmem, hne⟩ := List.mem_filter.1 h
    obtain rfl := List.mem_singleton.1 hmem
    exact ⟨by simpa using hne, hv⟩
  | cut v c r hv hc ih =>
    rw [words_append_cons hc, List.mem_append, words_solid hv] at h
    rcases h with h | h
    · obtain ⟨hmem, hne⟩ := List.mem_filter.1 h
      obtain rfl := List.mem_singleton.1 hmem
      exact ⟨by simpa using hne, hv⟩
    · exact ih h

/-! ## Trimming -/

theorem words_dropWhile (l : List α) : words p (l.dropWhile p) = words p l := by
  induction l with
  | nil => rfl
  | cons c l ih =>
    by_cases hc : p c = true
    · rw [List.dropWhile_cons_of_pos hc, ih]
      exact (words_append_cons (l := []) hc).symm
    · rw [List.dropWhile_cons_of_neg hc]

theorem words_rdropWhile (l : List α) : words p (l.rdropWhile p) = words p l := by
  induction l using List.reverseRecOn with
  | nil => rfl
  | append_singleton l c ih =>
    by_cases hc : p c = true
    · rw [List.rdropWhile_concat_pos p l c hc, ih, words_append_cons hc, words_nil, List.append_nil]
    · rw [List.rdropWhile_concat_neg p l c hc]

/-- **Separators around a text do not matter.** -/
theorem words_trim (l : List α) : words p ((l.dropWhile p).rdropWhile p) = words p l := by
  rw [words_rdropWhile, words_dropWhile]

/-! ## Word by word -/

/-- **What is done to each word by itself** can be done to the list of words. -/
theorem words_wordwise {g : List α → List α}
    (hcut : ∀ w c r, Solid p w → p c = true → g (w ++ c :: r) = g w ++ c :: g r)
    (hsolid : ∀ w, Solid p w → Solid p (g w)) (hnil : g [] = []) (l : List α) :
    words p (g l) = ((words p l).map g).filter fun w => !w.isEmpty := by
  have hword : ∀ w, Solid p w →
      words p (g w) = ((words p w).map g).filter fun w => !w.isEmpty := by
    intro w hw
    rw [words_solid hw, words_solid (hsolid w hw)]
    cases w with
    | nil => rw [hnil]; rfl
    | cons x w => rfl
  induction l using word_induction (p := p) with
  | solid w hw => exact hword w hw
  | cut w c r hw hc ih =>
    rw [hcut w c r hw hc, words_append_cons hc, words_append_cons hc, List.map_append,
      List.filter_append, hword w hw, ih]

/-- In front of what it does not have, a text begins as before. -/
theorem prefix_append_cons_iff (h : c ∉ needle) : needle <+: l ++ c :: r ↔ needle <+: l := by
  constructor
  · intro hp
    rcases Nat.lt_or_ge l.length needle.length with hlt | hle
    · have hlc : l ++ [c] <+: needle := by
        refine List.prefix_of_prefix_length_le ⟨r, by simp⟩ hp ?_
        rw [List.length_append, List.length_singleton]
        exact hlt
      exact absurd (hlc.subset (by simp)) h
    · exact List.prefix_of_prefix_length_le hp (List.prefix_append l _) hle
  · intro hp
    exact hp.trans (List.prefix_append l _)

theorem infix_append_cons_iff (h : c ∉ needle) (hne : needle ≠ []) :
    needle <:+: l ++ c :: r ↔ needle <:+: l ∨ needle <:+: r := by
  induction l with
  | nil =>
    have hp : ¬needle <+: c :: r := fun hp =>
      hne (List.prefix_nil.1 ((prefix_append_cons_iff (l := []) h).1 hp))
    rw [List.nil_append, List.infix_cons_iff, List.infix_nil]
    simp [hp, hne]
  | cons x l ih =>
    have hp := prefix_append_cons_iff (l := x :: l) (r := r) h
    rw [List.cons_append] at hp ⊢
    rw [List.infix_cons_iff, hp, ih, List.infix_cons_iff, or_assoc]

/-- **What has no separator stands inside a word.** -/
theorem infix_iff_word (h : Solid p needle) (hne : needle ≠ []) (l : List α) :
    needle <:+: l ↔ ∃ w ∈ words p l, needle <:+: w := by
  have hword : ∀ w, Solid p w → (needle <:+: w ↔ ∃ v ∈ words p w, needle <:+: v) := by
    intro w hw
    rw [words_solid hw]
    cases w with
    | nil => simp [hne]
    | cons x w => simp
  induction l using word_induction (p := p) with
  | solid w hw => exact hword w hw
  | cut w c r hw hc ih =>
    have hmem : c ∉ needle := fun hmem => by
      rw [h c hmem] at hc
      exact Bool.noConfusion hc
    have hrest : needle <:+: r ↔ ∃ v ∈ words p r, needle <:+: v := ih
    rw [infix_append_cons_iff hmem hne, words_append_cons hc, hword w hw, hrest]
    simp only [List.mem_append, or_and_right, exists_or]
