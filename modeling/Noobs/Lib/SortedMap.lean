import Mathlib.Data.List.Basic
import Mathlib.Data.List.Pairwise
import Mathlib.Order.Lattice
import Mathlib.Data.List.Perm.Basic

/-!
# Maps kept in key order

An association list whose keys increase strictly, so that walking it yields the
entries by ascending key and each key at most once. Every operation is specified
by membership of `(key, value)` pairs: `mem_insert` says what an insertion
changes, `find?_eq_some` and `contains_iff` read the map back.
-/

/-- A map as the list of its entries, by strictly ascending key. -/
structure SortedMap (κ : Type*) (β : Type*) [LinearOrder κ] where
  entries : List (κ × β)
  sorted : entries.Pairwise (fun a b => a.1 < b.1)

namespace SortedMap

variable {κ β : Type*} [LinearOrder κ]

/-- The map without entries. -/
def empty : SortedMap κ β := ⟨[], List.Pairwise.nil⟩

def isEmpty (m : SortedMap κ β) : Bool := m.entries.isEmpty

def keys (m : SortedMap κ β) : List κ := m.entries.map Prod.fst

def values (m : SortedMap κ β) : List β := m.entries.map Prod.snd

def contains (m : SortedMap κ β) (k : κ) : Bool := m.entries.any fun e => e.1 = k

def find? (m : SortedMap κ β) (k : κ) : Option β := (m.entries.find? fun e => e.1 = k).map Prod.snd

/-- Puts `(k, v)` in its place, replacing an entry under `k`. -/
def insertEntry (k : κ) (v : β) : List (κ × β) → List (κ × β)
  | [] => [(k, v)]
  | e :: es =>
    if k < e.1 then (k, v) :: e :: es
    else if k = e.1 then (k, v) :: es
    else e :: insertEntry k v es

theorem mem_of_mem_insertEntry {k : κ} {v : β} {e : κ × β} :
    ∀ {l : List (κ × β)}, e ∈ insertEntry k v l → e = (k, v) ∨ e ∈ l := by
  intro l
  induction l with
  | nil => intro h; simpa [insertEntry] using h
  | cons d es ih =>
    intro h
    unfold insertEntry at h
    split_ifs at h with h1 h2
    · simpa using h
    · rcases List.mem_cons.1 h with h | h
      · exact Or.inl h
      · exact Or.inr (List.mem_cons_of_mem _ h)
    · rcases List.mem_cons.1 h with h | h
      · exact Or.inr (h ▸ List.mem_cons_self)
      · rcases ih h with h | h
        · exact Or.inl h
        · exact Or.inr (List.mem_cons_of_mem _ h)

theorem insertEntry_sorted (k : κ) (v : β) :
    ∀ {l : List (κ × β)}, l.Pairwise (fun a b => a.1 < b.1) →
      (insertEntry k v l).Pairwise (fun a b => a.1 < b.1) := by
  intro l
  induction l with
  | nil => intro _; simp [insertEntry]
  | cons d es ih =>
    intro h
    obtain ⟨hd, hes⟩ := List.pairwise_cons.1 h
    unfold insertEntry
    split_ifs with h1 h2
    · refine List.pairwise_cons.2 ⟨fun a ha => ?_, h⟩
      rcases List.mem_cons.1 ha with rfl | ha
      · exact h1
      · exact lt_trans h1 (hd a ha)
    · refine List.pairwise_cons.2 ⟨fun a ha => ?_, hes⟩
      rw [h2]; exact hd a ha
    · refine List.pairwise_cons.2 ⟨fun a ha => ?_, ih hes⟩
      rcases mem_of_mem_insertEntry ha with rfl | ha
      · exact lt_of_le_of_ne (not_lt.1 h1) (Ne.symm h2)
      · exact hd a ha

/-- Stores `v` under `k`. -/
def insert (m : SortedMap κ β) (k : κ) (v : β) : SortedMap κ β :=
  ⟨insertEntry k v m.entries, insertEntry_sorted k v m.sorted⟩

/-- Stores several entries, one after the other. -/
def insertAll (m : SortedMap κ β) (es : List (κ × β)) : SortedMap κ β :=
  es.foldl (fun m e => m.insert e.1 e.2) m

variable {m : SortedMap κ β} {k k' : κ} {v v' : β}

@[simp] theorem entries_empty : (empty : SortedMap κ β).entries = [] := rfl

/-- Each key has one value. -/
theorem value_unique (h : (k, v) ∈ m.entries) (h' : (k, v') ∈ m.entries) : v = v' := by
  have key : ∀ {l : List (κ × β)}, l.Pairwise (fun a b => a.1 < b.1) → (k, v) ∈ l →
      (k, v') ∈ l → v = v' := by
    intro l hl h h'
    induction l with
    | nil => simp at h
    | cons d es ih =>
      obtain ⟨hd, hes⟩ := List.pairwise_cons.1 hl
      rcases List.mem_cons.1 h with rfl | h1 <;> rcases List.mem_cons.1 h' with h2 | h2
      · exact (Prod.ext_iff.1 h2).2.symm
      · exact absurd (hd (k, v') h2) (lt_irrefl k)
      · subst h2; exact absurd (hd (k, v) h1) (lt_irrefl k)
      · exact ih hes h1 h2
  exact key m.sorted h h'

theorem contains_iff : m.contains k = true ↔ ∃ v, (k, v) ∈ m.entries := by
  unfold contains
  simp only [List.any_eq_true, decide_eq_true_eq, Prod.exists]
  constructor
  · rintro ⟨a, v, h, rfl⟩; exact ⟨v, h⟩
  · rintro ⟨v, h⟩; exact ⟨k, v, h, rfl⟩

theorem contains_eq_false_iff : m.contains k = false ↔ ∀ v, (k, v) ∉ m.entries := by
  rw [← Bool.not_eq_true, contains_iff]; push Not; rfl

theorem contains_iff_mem_keys : m.contains k = true ↔ k ∈ m.keys := by
  rw [contains_iff]; simp [keys]

theorem find?_eq_some : m.find? k = some v ↔ (k, v) ∈ m.entries := by
  unfold find?
  constructor
  · intro h
    obtain ⟨e, he, rfl⟩ := Option.map_eq_some_iff.1 h
    have hk := List.find?_some he
    simp only [decide_eq_true_eq] at hk
    subst hk
    exact List.mem_of_find?_eq_some he
  · intro h
    cases hf : m.entries.find? fun e => e.1 = k with
    | none =>
      have := List.find?_eq_none.1 hf _ h
      simp at this
    | some e =>
      have hk := List.find?_some hf
      simp only [decide_eq_true_eq] at hk
      subst hk
      rw [Option.map_some, value_unique (List.mem_of_find?_eq_some hf) h]

theorem find?_eq_none : m.find? k = none ↔ m.contains k = false := by
  rw [contains_eq_false_iff]
  constructor
  · intro h v hv; rw [find?_eq_some.2 hv] at h; cases h
  · intro h
    cases hf : m.find? k with
    | none => rfl
    | some v => exact absurd (find?_eq_some.1 hf) (h v)

theorem insertEntry_perm : ∀ {l : List (κ × β)}, (∀ e ∈ l, e.1 ≠ k) →
    (insertEntry k v l).Perm ((k, v) :: l) := by
  intro l
  induction l with
  | nil => intro _; exact List.Perm.refl _
  | cons d es ih =>
    intro h
    unfold insertEntry
    split_ifs with h1 h2
    · exact List.Perm.refl _
    · exact absurd h2.symm (h d List.mem_cons_self)
    · exact ((ih fun e he => h e (List.mem_cons_of_mem _ he)).cons d).trans (List.Perm.swap _ _ _)

/-- **An insertion under a new key** adds one entry. -/
theorem insert_perm (h : m.contains k = false) : (m.insert k v).entries.Perm ((k, v) :: m.entries) :=
  insertEntry_perm fun e he hk => contains_eq_false_iff.1 h e.2 (hk ▸ he)

theorem mem_insertEntry_self : ∀ (l : List (κ × β)), (k, v) ∈ insertEntry k v l := by
  intro l
  induction l with
  | nil => simp [insertEntry]
  | cons d es ih => unfold insertEntry; split_ifs <;> simp [ih]

theorem mem_insertEntry_ne (hk : k' ≠ k) : ∀ {l : List (κ × β)}, (k', v') ∈ l →
    (k', v') ∈ insertEntry k v l := by
  intro l
  induction l with
  | nil => intro h; simp at h
  | cons d es ih =>
    intro h
    unfold insertEntry
    split_ifs with h1 h2
    · exact List.mem_cons_of_mem _ h
    · rcases List.mem_cons.1 h with rfl | h
      · exact absurd h2.symm hk
      · exact List.mem_cons_of_mem _ h
    · rcases List.mem_cons.1 h with rfl | h
      · exact List.mem_cons_self
      · exact List.mem_cons_of_mem _ (ih h)

/-- **What an insertion changes**: the entry of its key. -/
theorem mem_insert : (k', v') ∈ (m.insert k v).entries ↔
    (k' = k ∧ v' = v) ∨ (k' ≠ k ∧ (k', v') ∈ m.entries) := by
  constructor
  · intro h
    by_cases hk : k' = k
    · subst hk
      exact Or.inl ⟨rfl, value_unique h (mem_insertEntry_self _)⟩
    · rcases mem_of_mem_insertEntry h with h | h
      · exact absurd (Prod.ext_iff.1 h).1 hk
      · exact Or.inr ⟨hk, h⟩
  · rintro (⟨rfl, rfl⟩ | ⟨hk, h⟩)
    · exact mem_insertEntry_self _
    · exact mem_insertEntry_ne hk h

theorem contains_insert : (m.insert k v).contains k' = true ↔ k' = k ∨ m.contains k' = true := by
  simp only [contains_iff, mem_insert]
  by_cases hk : k' = k <;> simp [hk]

theorem find?_insert : (m.insert k v).find? k' = if k' = k then some v else m.find? k' := by
  by_cases hk : k' = k
  · subst hk; rw [if_pos rfl]; exact find?_eq_some.2 (mem_insertEntry_self _)
  · rw [if_neg hk]
    cases hf : m.find? k' with
    | none =>
      rw [find?_eq_none] at hf ⊢
      rw [Bool.eq_false_iff] at hf ⊢
      intro hc
      rcases contains_insert.1 hc with h | h
      · exact hk h
      · exact hf h
    | some u => exact find?_eq_some.2 (mem_insert.2 (Or.inr ⟨hk, find?_eq_some.1 hf⟩))

/-- **The last entry** is the one with the greatest key. -/
theorem le_of_getLast? {e e' : κ × β} (h : m.entries.getLast? = some e) (h' : e' ∈ m.entries) :
    e'.1 ≤ e.1 := by
  obtain ⟨l, hl⟩ := List.getLast?_eq_some_iff.1 h
  have hs := m.sorted
  rw [hl] at hs h'
  rcases List.mem_append.1 h' with h' | h'
  · exact le_of_lt ((List.pairwise_append.1 hs).2.2 e' h' e (by simp))
  · rw [List.mem_singleton.1 h']

theorem getLast?_keys : m.keys.getLast? = m.entries.getLast?.map Prod.fst := by
  simp [keys, List.getLast?_map]

theorem keys_insertEntry : ∀ {l : List (κ × β)}, l.Pairwise (fun a b => a.1 < b.1) →
    k ∈ l.map Prod.fst → (insertEntry k v l).map Prod.fst = l.map Prod.fst := by
  intro l
  induction l with
  | nil => intro _ h; simp at h
  | cons d es ih =>
    intro hl h
    obtain ⟨hd, hes⟩ := List.pairwise_cons.1 hl
    unfold insertEntry
    rw [List.map_cons, List.mem_cons] at h
    split_ifs with h1 h2
    · rcases h with h | h
      · exact absurd h (ne_of_lt h1)
      · obtain ⟨e, he, rfl⟩ := List.mem_map.1 h
        exact absurd (lt_trans h1 (hd e he)) (lt_irrefl _)
    · rw [List.map_cons, List.map_cons, h2]
    · rw [List.map_cons, List.map_cons, ih hes (h.resolve_left h2)]

/-- Replacing the value of a key keeps the keys. -/
theorem keys_insert (h : m.contains k = true) : (m.insert k v).keys = m.keys :=
  keys_insertEntry m.sorted (contains_iff_mem_keys.1 h)

theorem keys_insertAll : ∀ {es : List (κ × β)} {m : SortedMap κ β},
    (∀ k ∈ es.map Prod.fst, k ∈ m.keys) → (m.insertAll es).keys = m.keys := by
  intro es
  induction es with
  | nil => intro m _; rfl
  | cons d es ih =>
    intro m h
    have hd : (m.insert d.1 d.2).keys = m.keys :=
      keys_insert (contains_iff_mem_keys.2 (h d.1 (by simp)))
    have := @ih (m.insert d.1 d.2) fun k hk => by
      rw [hd]; exact h k (by rw [List.map_cons]; exact List.mem_cons_of_mem _ hk)
    rw [← hd, ← this]; rfl

/-- Entries written under keys of the map, each key once, replace those entries and no other. -/
theorem mem_insertAll : ∀ {es : List (κ × β)} {m : SortedMap κ β}, (es.map Prod.fst).Nodup →
    ((k, v) ∈ (m.insertAll es).entries ↔
      (k, v) ∈ es ∨ (k ∉ es.map Prod.fst ∧ (k, v) ∈ m.entries)) := by
  intro es
  induction es with
  | nil => intro m _; simp [insertAll]
  | cons d es ih =>
    intro m hnd
    rw [List.map_cons, List.nodup_cons] at hnd
    have h := @ih (m.insert d.1 d.2) hnd.2
    unfold insertAll at h ⊢
    rw [List.foldl_cons, h, mem_insert]
    by_cases hk : k = d.1
    · subst hk
      have hes : ∀ u, (d.1, u) ∉ es := fun u hu => hnd.1 (List.mem_map.2 ⟨_, hu, rfl⟩)
      simp only [hes, false_or, List.map_cons, List.mem_cons, true_or, not_true, false_and, or_false]
      constructor
      · rintro ⟨-, ⟨-, rfl⟩ | ⟨h, -⟩⟩
        · rfl
        · exact absurd rfl h
      · intro he
        exact ⟨hnd.1, Or.inl ⟨trivial, (Prod.ext_iff.1 he).2⟩⟩
    · have hd : (k, v) ≠ d := fun he => hk (congrArg Prod.fst he)
      simp [hk, hd]

/-- Writing under all keys of a map leaves what was written. -/
theorem mem_insertAll_of_keys {es : List (κ × β)} (hnd : (es.map Prod.fst).Nodup)
    (h : ∀ k ∈ m.keys, k ∈ es.map Prod.fst) {e : κ × β} :
    e ∈ (m.insertAll es).entries ↔ e ∈ es := by
  obtain ⟨k, v⟩ := e
  rw [mem_insertAll hnd]
  refine or_iff_left ?_
  rintro ⟨hk, he⟩
  exact hk (h k (List.mem_map.2 ⟨_, he, rfl⟩))

/-- What is found after several entries were written was one of them, or found before. -/
theorem find?_insertAll {es : List (κ × β)} {m : SortedMap κ β} (h : (m.insertAll es).find? k = some v) :
    (k, v) ∈ es ∨ m.find? k = some v := by
  induction es generalizing m with
  | nil => exact Or.inr h
  | cons d es ih =>
    rcases ih (m := m.insert d.1 d.2) h with hmem | hfind
    · exact Or.inl (List.mem_cons_of_mem _ hmem)
    · rw [find?_insert] at hfind
      split_ifs at hfind with hk
      · left
        rw [hk, ← Option.some.inj hfind]
        exact List.mem_cons_self
      · exact Or.inr hfind

/-- A key that was written is found. -/
theorem contains_insertAll {es : List (κ × β)} {m : SortedMap κ β}
    (h : m.contains k = true ∨ k ∈ es.map Prod.fst) : (m.insertAll es).contains k = true := by
  induction es generalizing m with
  | nil => exact h.resolve_right List.not_mem_nil
  | cons d es ih =>
    refine ih (m := m.insert d.1 d.2) ?_
    rw [contains_insert]
    rcases h with h | h
    · exact Or.inl (Or.inr h)
    · rcases List.mem_cons.1 h with h | h
      · exact Or.inl (Or.inl h)
      · exact Or.inr h

theorem insertEntry_last : ∀ {l : List (κ × β)}, (∀ e ∈ l, e.1 < k) → insertEntry k v l = l ++ [(k, v)] := by
  intro l h
  induction l with
  | nil => rfl
  | cons e l ih =>
    obtain ⟨he, hl⟩ := List.forall_mem_cons.1 h
    rw [insertEntry, if_neg (lt_asymm he), if_neg (ne_of_gt he), ih hl]
    rfl

/-- Writing entries in the order of their keys, behind those of the map, appends them. -/
theorem entries_insertAll : ∀ {es : List (κ × β)} {m : SortedMap κ β},
    (m.entries ++ es).Pairwise (fun a b => a.1 < b.1) → (m.insertAll es).entries = m.entries ++ es := by
  intro es
  induction es with
  | nil => intro m _; exact (List.append_nil _).symm
  | cons d es ih =>
    intro m h
    have hlast : (m.insert d.1 d.2).entries = m.entries ++ [d] :=
      insertEntry_last fun e he => (List.pairwise_append.1 h).2.2 e he d List.mem_cons_self
    have hrest : (m.entries ++ [d]) ++ es = m.entries ++ d :: es := by simp
    have := @ih (m.insert d.1 d.2) (by rw [hlast, hrest]; exact h)
    rw [hlast, hrest] at this
    exact this

/-- Rows of entries of a map are equal if their keys are. -/
theorem eq_of_keys : ∀ {l l' : List (κ × β)}, l.map Prod.fst = l'.map Prod.fst →
    (∀ e ∈ l, e ∈ m.entries) → (∀ e ∈ l', e ∈ m.entries) → l = l' := by
  intro l
  induction l with
  | nil => intro l' h _ _; rw [List.map_nil] at h; exact (List.map_eq_nil_iff.1 h.symm).symm
  | cons d l ih =>
    intro l' h hl hl'
    cases l' with
    | nil => simp at h
    | cons d' l' =>
      rw [List.map_cons, List.map_cons, List.cons.injEq] at h
      have hd' := hl' d' List.mem_cons_self
      have hd'' : (d.1, d'.2) ∈ m.entries := by rw [h.1]; exact hd'
      rw [Prod.ext h.1 (value_unique (hl d List.mem_cons_self) hd''),
        ih h.2 (fun e he => hl e (List.mem_cons_of_mem _ he))
          (fun e he => hl' e (List.mem_cons_of_mem _ he))]

end SortedMap
