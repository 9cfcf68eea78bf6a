import Noobs.Spec.Boot

/-!
# Numbers as text

* `number_injective`: a number is told by its text.
* `integer_number`: it reads back as it was written.
* `partitionNumberOf_device`: **`bootIntoPartition` finds the number** behind
  `/dev/mmcblk0p`, if this is the text of an `int`.
-/

namespace Noobs

/-- What is in range an `int` holds as it is. -/
theorem int32_eq {x : ℤ} (h1 : -2 ^ 31 ≤ x) (h2 : x < 2 ^ 31) : int32 x = x :=
  Int.bmod_eq_of_le_mul_two (by push_cast; omega) (by push_cast; omega)

/-! ## Writing -/

theorem number_eq (n : ℤ) : number n =
    if 0 ≤ n then Nat.toDigits 10 n.toNat else '-' :: Nat.toDigits 10 (-n).toNat := by
  unfold number
  rw [Int.toString_eq_repr, Int.repr_eq_if]
  split_ifs
  · rw [Nat.repr, String.toList_ofList]
  · simp [Nat.repr]

theorem isDigit_toDigits {k : ℕ} {c : Char} (h : c ∈ Nat.toDigits 10 k) : c.isDigit = true :=
  Nat.isDigit_of_mem_toDigits (by decide) (by decide) h

/-- A number is written in digits, perhaps behind a minus sign. -/
theorem mem_number {n : ℤ} {c : Char} (h : c ∈ number n) : c.isDigit = true ∨ c = '-' := by
  rw [number_eq] at h
  split_ifs at h
  · exact Or.inl (isDigit_toDigits h)
  · rcases List.mem_cons.1 h with h | h
    · exact Or.inr h
    · exact Or.inl (isDigit_toDigits h)

theorem comma_not_mem_number (n : ℤ) : ',' ∉ number n := by
  intro h
  rcases mem_number h with h | h <;> exact absurd h (by decide)

theorem newline_not_mem_number (n : ℤ) : '\n' ∉ number n := by
  intro h
  rcases mem_number h with h | h <;> exact absurd h (by decide)

theorem toDigits_injective {j k : ℕ} (h : Nat.toDigits 10 j = Nat.toDigits 10 k) : j = k := by
  rw [← Nat.ofDigitChars_ten_toDigits (n := j), h, Nat.ofDigitChars_ten_toDigits]

theorem number_injective {a b : ℤ} (h : number a = number b) : a = b := by
  have hsign : ∀ j k : ℕ, Nat.toDigits 10 j ≠ '-' :: Nat.toDigits 10 k := by
    intro j k hjk
    have hd : '-' ∈ Nat.toDigits 10 j := by rw [hjk]; exact List.mem_cons_self
    exact absurd (isDigit_toDigits hd) (by decide)
  rw [number_eq, number_eq] at h
  split_ifs at h with ha hb hb
  · have := toDigits_injective h
    omega
  · exact absurd h (hsign _ _)
  · exact absurd h.symm (hsign _ _)
  · have := toDigits_injective (List.cons.inj h).2
    omega

/-! ## Reading -/

theorem trim_eq_self {t : Text} (h : ∀ c ∈ t, isSpace c = false) :
    (t.dropWhile isSpace).rdropWhile isSpace = t := by
  have hdrop : t.dropWhile isSpace = t := by
    refine List.dropWhile_eq_self_iff.2 fun hl => ?_
    rw [h _ (List.getElem_mem hl)]
    exact Bool.false_ne_true
  rw [hdrop, List.rdropWhile_eq_self_iff]
  intro hne
  rw [h _ (List.getLast_mem hne)]
  exact Bool.false_ne_true

theorem isDigit_iff (c : Char) : c.isDigit = true ↔ 48 ≤ c.toNat ∧ c.toNat ≤ 57 := by
  simp only [Char.isDigit, Bool.and_eq_true, decide_eq_true_eq]
  exact Iff.rfl

theorem isSpace_of_isDigit {c : Char} (h : c.isDigit = true) : isSpace c = false := by
  have hd := (isDigit_iff c).1 h
  have hne : c ≠ ' ' := by
    rintro rfl
    exact absurd h (by decide)
  unfold isSpace
  rw [Bool.or_eq_false_iff]
  refine ⟨decide_eq_false hne, ?_⟩
  simp only [Bool.and_eq_false_iff, decide_eq_false_iff_not]
  omega

/-- A digit is no sign. -/
theorem head_toDigits (k : ℕ) : (Nat.toDigits 10 k).head? ≠ some '-' ∧ (Nat.toDigits 10 k).head? ≠ some '+' := by
  have hdigit : ∀ c, (Nat.toDigits 10 k).head? = some c → c.isDigit = true :=
    fun c hc => isDigit_toDigits (List.mem_of_head? hc)
  constructor
  · intro h
    exact absurd (hdigit _ h) (by decide)
  · intro h
    exact absurd (hdigit _ h) (by decide)

/-- **A number reads back** as it was written. -/
theorem integer_number (n : ℤ) : integer (number n) = some n := by
  have htrim : ((number n).dropWhile isSpace).rdropWhile isSpace = number n := by
    apply trim_eq_self
    intro c hc
    rcases mem_number hc with h | rfl
    · exact isSpace_of_isDigit h
    · decide
  have hdigits : ∀ k : ℕ, ¬(Nat.toDigits 10 k = [] ∨ (Nat.toDigits 10 k).all Char.isDigit = false) := by
    intro k
    rintro (h | h)
    · exact Nat.toDigits_ne_nil h
    · rw [List.all_eq_true.2 fun c hc => isDigit_toDigits hc] at h
      exact Bool.noConfusion h
  unfold integer
  rw [htrim, number_eq]
  split_ifs with hn
  · obtain ⟨h1, h2⟩ := head_toDigits n.toNat
    simp only [h1, h2, or_self, if_false, hdigits, Nat.ofDigitChars_ten_toDigits]
    exact congrArg some (Int.toNat_of_nonneg hn)
  · simp only [List.head?_cons, true_or, if_true, List.tail_cons, hdigits, if_false,
      Nat.ofDigitChars_ten_toDigits]
    exact congrArg some (by omega)

theorem mem_dropWhile {t : Text} {c : Char} (f : Char → Bool) (hc : c ∈ t) (hf : ¬f c = true) :
    c ∈ t.dropWhile f := by
  rw [← List.takeWhile_append_dropWhile (p := f) (l := t)] at hc
  rcases List.mem_append.1 hc with h | h
  · exact absurd (List.mem_takeWhile_imp h) hf
  · exact h

/-- What an integer is written in. -/
theorem mem_of_integer {t : Text} {n : ℤ} (h : integer t = some n) {c : Char} (hc : c ∈ t) :
    isSpace c = true ∨ c.isDigit = true ∨ c = '-' ∨ c = '+' := by
  by_contra hnot
  obtain ⟨hspace, hdigit, hminus, hplus⟩ := by simpa only [not_or] using hnot
  unfold integer at h
  have hmem : c ∈ (t.dropWhile isSpace).rdropWhile isSpace := by
    have h1 := List.mem_reverse.2 (mem_dropWhile isSpace hc hspace)
    exact List.mem_reverse.2 (mem_dropWhile isSpace h1 hspace)
  generalize (t.dropWhile isSpace).rdropWhile isSpace = text at h hmem
  simp only [Option.ite_none_left_eq_some, not_or, Bool.not_eq_false, List.all_eq_true] at h
  obtain ⟨⟨-, hall⟩, -⟩ := h
  split_ifs at hall with hsign
  · cases text with
    | nil => cases hmem
    | cons s rest =>
      rcases List.mem_cons.1 hmem with rfl | hrest
      · rcases hsign with h | h
        · exact hminus (Option.some.inj h)
        · exact hplus (Option.some.inj h)
      · exact hdigit (hall c hrest)
  · exact hdigit (hall c hmem)

/-! ## The number of a partition device -/

theorem toAscii_eq_self {t : Text} (h : ∀ c ∈ t, c.toNat < 256) : toAscii t = t := by
  unfold toAscii
  rw [List.map_congr_left fun c hc => if_pos (h c hc)]
  exact List.map_id t

theorem toAscii_append (s t : Text) : toAscii (s ++ t) = toAscii s ++ toAscii t := List.map_append

theorem toAscii_devicePrefix : toAscii devicePrefix = devicePrefix := by decide

/-- An integer behind the device prefix is stored as it stands. -/
theorem toAscii_integer {t : Text} {n : ℤ} (h : integer t = some n) :
    toAscii (devicePrefix ++ t) = devicePrefix ++ t := by
  have ht : toAscii t = t := by
    apply toAscii_eq_self
    intro c hc
    rcases mem_of_integer h hc with hspace | hdigit | rfl | rfl
    · simp only [isSpace, Bool.or_eq_true, decide_eq_true_eq, Bool.and_eq_true] at hspace
      rcases hspace with rfl | hrange
      · decide
      · omega
    · have := (isDigit_iff c).1 hdigit
      omega
    · decide
    · decide
  rw [toAscii_append, toAscii_devicePrefix, ht]

theorem toAscii_device (n : ℤ) : toAscii (devicePrefix ++ number n) = devicePrefix ++ number n :=
  toAscii_integer (integer_number n)

theorem removeFrom_append (needle : Text) : ∀ (l t : Text),
    removeFrom needle l.length (l ++ t) = removeFrom needle 0 t := by
  intro l t
  induction l with
  | nil => rfl
  | cons c l ih => exact ih

theorem removeFrom_of_not_mem {c : Char} {needle t : Text} (h : c ∉ t) :
    removeFrom (c :: needle) 0 t = t := by
  induction t with
  | nil => rfl
  | cons x t ih =>
    rw [removeFrom, if_neg, ih fun hx => h (List.mem_cons_of_mem _ hx)]
    intro hp
    obtain ⟨s, hs⟩ := hp
    exact h ((List.cons.inj hs).1 ▸ List.mem_cons_self)

/-- Behind the device prefix nothing of an integer is removed. -/
theorem removeAll_device {t : Text} {n : ℤ} (h : integer t = some n) :
    removeAll devicePrefix (devicePrefix ++ t) = t := by
  have hslash : '/' ∉ t := by
    intro hmem
    rcases mem_of_integer h hmem with h | h | h | h <;> exact absurd h (by decide)
  have hfirst : devicePrefix <+: '/' :: ("dev/mmcblk0p".toList ++ t) := List.prefix_append _ _
  show removeFrom devicePrefix 0 ('/' :: ("dev/mmcblk0p".toList ++ t)) = t
  rw [removeFrom, if_pos hfirst]
  exact (removeFrom_append _ "dev/mmcblk0p".toList t).trans (removeFrom_of_not_mem hslash)

/-- Behind the device prefix an integer is read as it stands. -/
theorem partitionNumberOf_integer {t : Text} {n : ℤ} (h : integer t = some n) :
    partitionNumberOf (devicePrefix ++ t) = toInt t := by
  unfold partitionNumberOf
  rw [if_neg (not_not.2 (List.prefix_append _ _)), removeAll_device h]

/-- **`bootIntoPartition` finds the number** of a partition device. -/
theorem partitionNumberOf_device {t : Text} {n : ℤ} (h : integer t = some n) (h1 : -2 ^ 31 ≤ n)
    (h2 : n < 2 ^ 31) : partitionNumberOf (devicePrefix ++ t) = some n := by
  rw [partitionNumberOf_integer h]
  unfold toInt
  rw [h, Option.filter_some, if_pos]
  exact decide_eq_true ⟨h1, h2⟩

end Noobs
