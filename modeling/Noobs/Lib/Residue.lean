import Mathlib.Algebra.BigOperators.Ring.Finset
import Mathlib.Algebra.CharP.Two
import Mathlib.Algebra.Group.Hom.End
import Mathlib.GroupTheory.OrderOfElement

/-!
# Polynomials over two elements, modulo one of them

A word of `w` bits stands for a polynomial of degree below `w`, bit `i` for its coefficient
at `X ^ i`. Addition is `xor`. `shift p` multiplies by `X`, modulo `X ^ w + p`, and `peasant p`
multiplies two words, by Horner's rule along the bits of the one.

What multiplies by a word is a polynomial in `shift p`, and such commute. So the words are a
commutative ring, for any `w` and `p`; nothing is checked bit by bit.

* `mul_eq`: the product as a polynomial in `shift p`.
* `exists_pow`: if `X` has the full order, every word but `0` is a power of it.
* `isDomain`: then there are no zero divisors.
-/

namespace Gf2

variable {w : ℕ} {p : BitVec w}

/-! ## Words -/

/-- Times `X`, modulo `X ^ w + p`. -/
def shift (p z : BitVec w) : BitVec w := if z.msb then z <<< 1 ^^^ p else z <<< 1

/-- One step of Horner's rule. -/
def peasantStep (p x y z : BitVec w) (i : ℕ) : BitVec w :=
  if y.getLsbD i then shift p z ^^^ x else shift p z

/-- The product, along the bits of `y` from the top. -/
def peasant (p x y : BitVec w) : BitVec w := (List.range w).reverse.foldl (peasantStep p x y) 0

theorem shift_xor (p a b : BitVec w) : shift p (a ^^^ b) = shift p a ^^^ shift p b := by
  have hself : p ^^^ p = 0#w := BitVec.xor_self
  unfold shift
  rw [BitVec.msb_xor, BitVec.shiftLeft_xor_distrib]
  cases a.msb <;> cases b.msb
  · rfl
  · exact BitVec.xor_assoc _ _ _
  · show _ = (a <<< 1 ^^^ p) ^^^ b <<< 1
    rw [BitVec.xor_assoc, BitVec.xor_assoc, BitVec.xor_comm p]
    rfl
  · show a <<< 1 ^^^ b <<< 1 = (a <<< 1 ^^^ p) ^^^ (b <<< 1 ^^^ p)
    rw [BitVec.xor_comm (b <<< 1) p, BitVec.xor_assoc, ← BitVec.xor_assoc p p, hself, BitVec.zero_xor]

/-- A word, to be added and multiplied. -/
structure Residue (p : BitVec w) where
  bits : BitVec w
  deriving DecidableEq

@[ext] theorem Residue.ext' {a b : Residue p} (h : a.bits = b.bits) : a = b := by
  cases a
  cases b
  exact congrArg Residue.mk h

instance : Zero (Residue p) := ⟨⟨0⟩⟩
instance : One (Residue p) := ⟨⟨1⟩⟩
instance : Add (Residue p) := ⟨fun a b => ⟨a.bits ^^^ b.bits⟩⟩
instance : Neg (Residue p) := ⟨id⟩
instance : Mul (Residue p) := ⟨fun a b => ⟨peasant p a.bits b.bits⟩⟩

@[simp] theorem bits_zero : (0 : Residue p).bits = 0 := rfl
@[simp] theorem bits_one : (1 : Residue p).bits = 1 := rfl
@[simp] theorem bits_add (a b : Residue p) : (a + b).bits = a.bits ^^^ b.bits := rfl
@[simp] theorem bits_mul (a b : Residue p) : (a * b).bits = peasant p a.bits b.bits := rfl

instance : AddCommGroup (Residue p) where
  add_assoc := fun a b c => Residue.ext' (BitVec.xor_assoc _ _ _)
  zero_add := fun a => Residue.ext' BitVec.zero_xor
  add_zero := fun a => Residue.ext' BitVec.xor_zero
  add_comm := fun a b => Residue.ext' (BitVec.xor_comm _ _)
  neg_add_cancel := fun a => Residue.ext' BitVec.xor_self
  nsmul := nsmulRec
  zsmul := zsmulRec

theorem add_self (a : Residue p) : a + a = 0 := Residue.ext' BitVec.xor_self

/-! ## Polynomials in `shift` -/

/-- Times `X`, as an additive map. -/
def timesX (p : BitVec w) : AddMonoid.End (Residue p) where
  toFun := fun a => ⟨shift p a.bits⟩
  map_zero' := by
    have hmsb : (0#w).msb = false := BitVec.msb_zero
    have hshift : 0#w <<< 1 = 0#w := BitVec.zero_shiftLeft 1
    refine Residue.ext' ?_
    show shift p 0#w = 0#w
    unfold shift
    rw [hmsb, hshift]
    rfl
  map_add' := fun a b => Residue.ext' (shift_xor p a.bits b.bits)

theorem end_add_apply (f g : AddMonoid.End (Residue p)) (a : Residue p) : (f + g) a = f a + g a := rfl

/-- What a word is, put in for `X`. -/
def times (b : Residue p) : AddMonoid.End (Residue p) :=
  ∑ i ∈ Finset.range w, if b.bits.getLsbD i then timesX p ^ i else 0

theorem times_commute (a b : Residue p) : Commute (times a) (times b) := by
  unfold times
  apply Commute.sum_left
  intro i _
  apply Commute.sum_right
  intro j _
  split_ifs
  · exact (Commute.refl _).pow_pow i j
  · exact Commute.zero_right _
  · exact Commute.zero_left _
  · exact Commute.zero_left _

theorem times_comm (a b c : Residue p) : times a (times b c) = times b (times a c) :=
  DFunLike.congr_fun (times_commute a b) c

/-- Horner's rule, from the bit below `k` on. -/
theorem foldl_peasant (a b : Residue p) (k : ℕ) (z : Residue p) :
    (⟨(List.range k).reverse.foldl (peasantStep p a.bits b.bits) z.bits⟩ : Residue p) =
      (timesX p ^ k) z + (∑ i ∈ Finset.range k, if b.bits.getLsbD i then timesX p ^ i else 0) a := by
  induction k generalizing z with
  | zero => simp
  | succ k ih =>
    have hstep : peasantStep p a.bits b.bits z.bits k =
        (timesX p z + if b.bits.getLsbD k then a else 0).bits := by
      unfold peasantStep
      split_ifs
      · rfl
      · exact BitVec.xor_zero.symm
    have hterm : (timesX p ^ k) (if b.bits.getLsbD k then a else 0) =
        (if b.bits.getLsbD k then timesX p ^ k else 0 : AddMonoid.End (Residue p)) a := by
      split_ifs
      · rfl
      · exact map_zero _
    rw [List.range_succ, List.reverse_append, List.reverse_singleton, List.singleton_append, List.foldl_cons,
      hstep, ih, map_add, hterm, Finset.sum_range_succ, end_add_apply, pow_succ, add_assoc]
    exact congrArg _ (add_comm _ _)

/-- **A product** is a polynomial in `shift p`, put to a word. -/
theorem mul_eq (a b : Residue p) : a * b = times b a := by
  have hhorner := foldl_peasant a b w 0
  rw [map_zero, zero_add] at hhorner
  exact hhorner

/-! ## The ring -/

theorem shift_twoPow {i : ℕ} (h : i + 1 < w) : shift p (BitVec.twoPow w i) = BitVec.twoPow w (i + 1) := by
  have hmsb : (BitVec.twoPow w i).msb = false := by
    rw [BitVec.msb_twoPow]
    simp only [Bool.and_eq_false_iff, decide_eq_false_iff_not]
    omega
  unfold shift
  rw [hmsb]
  ext j hj
  simp only [Bool.false_eq_true, if_false, BitVec.getElem_shiftLeft, BitVec.getElem_twoPow]
  by_cases h0 : j < 1 <;> simp only [h0, decide_true, decide_false] <;> simp <;> omega

theorem pow_one_eq {i : ℕ} (h : i < w) : (timesX p ^ i) 1 = ⟨BitVec.twoPow w i⟩ := by
  induction i with
  | zero =>
    rw [pow_zero, BitVec.twoPow_zero]
    rfl
  | succ i ih =>
    rw [pow_succ']
    show timesX p ((timesX p ^ i) 1) = _
    rw [ih (by omega)]
    exact Residue.ext' (shift_twoPow h)

/-- The low bits of a word, added up. -/
theorem getLsbD_sum (b : Residue p) {k : ℕ} (hk : k ≤ w) (j : ℕ) :
    ((∑ i ∈ Finset.range k, if b.bits.getLsbD i then timesX p ^ i else 0 : AddMonoid.End (Residue p)) 1).bits.getLsbD
      j = (decide (j < k) && b.bits.getLsbD j) := by
  induction k with
  | zero => simp
  | succ k ih =>
    have hlast : ((if b.bits.getLsbD k then timesX p ^ k else 0 : AddMonoid.End (Residue p)) 1).bits.getLsbD j =
        (decide (k = j) && b.bits.getLsbD j) := by
      split_ifs with hbit
      · rw [pow_one_eq (by omega), BitVec.getLsbD_twoPow]
        by_cases hj : k = j
        · subst hj
          rw [hbit, decide_eq_true (show k < w by omega), Bool.true_and, Bool.and_true]
        · simp [hj]
      · by_cases hj : k = j
        · subst hj
          simp [hbit]
        · simp [hj]
    rw [Finset.sum_range_succ, end_add_apply, bits_add, BitVec.getLsbD_xor, ih (by omega), hlast]
    by_cases h1 : j < k <;> by_cases h2 : k = j <;> by_cases h3 : j < k + 1 <;> simp [h1, h2, h3] <;> omega

theorem times_one (b : Residue p) : times b 1 = b := by
  refine Residue.ext' (BitVec.eq_of_getLsbD_eq fun j hj => ?_)
  unfold times
  rw [getLsbD_sum b le_rfl, decide_eq_true hj, Bool.true_and]

theorem mul_comm' (a b : Residue p) : a * b = b * a := by
  calc a * b = times b (times a 1) := by rw [mul_eq, times_one]
    _ = times a (times b 1) := times_comm b a 1
    _ = b * a := by rw [mul_eq, times_one]

theorem mul_add' (a b c : Residue p) : a * (b + c) = a * b + a * c := by
  rw [mul_comm', mul_eq, map_add, ← mul_eq, ← mul_eq, mul_comm' b, mul_comm' c]

theorem one_mul' (b : Residue p) : 1 * b = b := by rw [mul_eq, times_one]

instance : CommRing (Residue p) where
  left_distrib := mul_add'
  right_distrib := fun a b c => by rw [mul_comm', mul_add', mul_comm' c a, mul_comm' c b]
  zero_mul := fun a => by rw [mul_eq, map_zero]
  mul_zero := fun a => by rw [mul_comm', mul_eq, map_zero]
  mul_assoc := fun a b c => by
    calc a * b * c = times c (times a b) := by rw [mul_eq, mul_comm' a, mul_eq]
      _ = times a (times c b) := times_comm c a b
      _ = a * (b * c) := by rw [mul_comm' a, mul_eq (b * c) a, mul_eq b c]
  one_mul := one_mul'
  mul_one := fun a => by rw [mul_comm', one_mul']
  mul_comm := mul_comm'
  zsmul := zsmulRec
  nsmul := nsmulRec
  neg_add_cancel := fun a => Residue.ext' BitVec.xor_self

/-- `X`, if there is more than one bit. -/
def root (p : BitVec w) : Residue p := ⟨BitVec.twoPow w 1⟩

theorem mul_root (hw : 1 < w) (a : Residue p) : a * root p = timesX p a := by
  have honly : ∀ i ∈ Finset.range w, i ≠ 1 →
      (if (root p).bits.getLsbD i then timesX p ^ i else 0 : AddMonoid.End (Residue p)) = 0 := by
    intro i _ hi
    have hbit : (root p).bits.getLsbD i = false := by
      unfold root
      rw [BitVec.getLsbD_twoPow, decide_eq_false (Ne.symm hi), Bool.and_false]
    rw [hbit]
    rfl
  have hone : (root p).bits.getLsbD 1 = true := by
    unfold root
    rw [BitVec.getLsbD_twoPow, decide_eq_true hw]
    rfl
  rw [mul_eq]
  unfold times
  rw [Finset.sum_eq_single_of_mem 1 (Finset.mem_range.2 hw) honly, if_pos hone, pow_one]

/-- The powers of `X`, shift by shift. -/
theorem root_pow (hw : 1 < w) (n : ℕ) : root p ^ n = ⟨(shift p)^[n] 1⟩ := by
  induction n with
  | zero => rfl
  | succ n ih =>
    rw [pow_succ, ih, mul_root hw, Function.iterate_succ_apply']
    rfl

theorem charTwo (hw : 0 < w) : CharP (Residue p) 2 := by
  refine CharTwo.of_one_ne_zero_of_two_eq_zero (fun h => ?_) ?_
  · have hbits : (1 : BitVec w).getLsbD 0 = (0 : BitVec w).getLsbD 0 := by rw [← bits_one (p := p), h, bits_zero]
    simp [hw] at hbits
  · rw [← one_add_one_eq_two]
    exact add_self 1

/-! ## Without zero divisors -/

/-- Words and the numbers below `2 ^ w`. -/
def equivWord (p : BitVec w) : Residue p ≃ Fin (2 ^ w) where
  toFun := fun a => a.bits.toFin
  invFun := fun n => ⟨⟨n⟩⟩
  left_inv := fun _ => rfl
  right_inv := fun _ => rfl

instance : Fintype (Residue p) := Fintype.ofEquiv _ (equivWord p).symm

theorem card_residue : Fintype.card (Residue p) = 2 ^ w := by
  rw [Fintype.card_congr (equivWord p), Fintype.card_fin]

/-- If `g` has the full order, every word but `0` is a power of it. -/
theorem exists_pow (hw : 0 < w) {g : Residue p} (hg : orderOf g = 2 ^ w - 1) {a : Residue p} (ha : a ≠ 0) :
    ∃ i < 2 ^ w - 1, g ^ i = a := by
  have := charTwo (p := p) hw
  have : Nontrivial (Residue p) := CharP.nontrivial_of_char_ne_one (v := 2) (by omega)
  have hpos : 1 < 2 ^ w := Nat.one_lt_two_pow (by omega)
  have hunit : IsUnit g := IsUnit.of_pow_eq_one (hg ▸ pow_orderOf_eq_one g) (by omega)
  -- the powers are as many as the words that are not `0`, and are among them
  have hsubset : (Finset.range (2 ^ w - 1)).image (g ^ ·) ⊆ Finset.univ.erase 0 := by
    intro b hb
    obtain ⟨i, -, rfl⟩ := Finset.mem_image.1 hb
    exact Finset.mem_erase.2 ⟨(hunit.pow i).ne_zero, Finset.mem_univ _⟩
  have hcard : (Finset.univ.erase (0 : Residue p)).card ≤ ((Finset.range (2 ^ w - 1)).image (g ^ ·)).card := by
    rw [Finset.card_erase_of_mem (Finset.mem_univ _), Finset.card_univ, card_residue,
      Finset.card_image_of_injOn, Finset.card_range]
    intro i hi j hj hij
    rw [Finset.coe_range, ← hg] at hi hj
    exact pow_injOn_Iio_orderOf hi hj hij
  have hall := Finset.eq_of_subset_of_card_le hsubset hcard
  have hmem : a ∈ (Finset.range (2 ^ w - 1)).image (g ^ ·) := by
    rw [hall]
    exact Finset.mem_erase.2 ⟨ha, Finset.mem_univ _⟩
  obtain ⟨i, hi, rfl⟩ := Finset.mem_image.1 hmem
  exact ⟨i, Finset.mem_range.1 hi, rfl⟩

/-- **Without zero divisors**, if some word has the full order. -/
theorem isDomain (hw : 0 < w) {g : Residue p} (hg : orderOf g = 2 ^ w - 1) : IsDomain (Residue p) := by
  have := charTwo (p := p) hw
  have : Nontrivial (Residue p) := CharP.nontrivial_of_char_ne_one (v := 2) (by omega)
  have : NoZeroDivisors (Residue p) := by
    refine ⟨fun {a b} hab => or_iff_not_imp_left.2 fun ha => ?_⟩
    obtain ⟨i, hi, rfl⟩ := exists_pow hw hg ha
    have hinverse : g ^ (2 ^ w - 1 - i) * g ^ i = 1 := by
      rw [← pow_add, Nat.sub_add_cancel hi.le, ← hg, pow_orderOf_eq_one]
    calc b = g ^ (2 ^ w - 1 - i) * g ^ i * b := by rw [hinverse, one_mul]
      _ = 0 := by rw [mul_assoc, hab, mul_zero]
  exact NoZeroDivisors.to_isDomain _

end Gf2
