import Noobs.Lib.ReedSolomon
import Noobs.Lib.Residue
import Noobs.Spec.QrCode

/-!
# The field of the error correction

`ReedSolomonGenerator` computes with bytes as polynomials modulo `X⁸ + X⁴ + X³ + X² + 1`.

* `multiply_eq`: its multiplication is the one of that ring, and never throws.
* `field_isDomain`: the ring has no zero divisors: 2 has order 255.
* `reedSolomonGenerator_eq`: the generator is the product of its roots' factors.
* `getRemainder_eq`: the remainder is what a feedback register leaves.
-/

namespace Noobs.Qrcodegen

open Gf2 ReedSolomon

/-- Bytes, modulo `0x11D`. -/
abbrev Field256 := Residue (0x1D : Byte)

/-! ## Multiplication -/

theorem shift_eq (z : Byte) : z.toNat <<< 1 ^^^ (z.toNat >>> 7) * 0x11D = (shift 0x1D z).toNat := by
  have hall : ∀ n < 256, n <<< 1 ^^^ (n >>> 7) * 0x11D = (shift 0x1D (BitVec.ofNat 8 n)).toNat := by
    decide +kernel
  have h := hall z.toNat z.isLt
  rwa [BitVec.ofNat_toNat, BitVec.setWidth_eq] at h

theorem multiplyStep_eq (x y z : Byte) (i : ℕ) :
    multiplyStep x y z.toNat i = (peasantStep 0x1D x y z i).toNat := by
  have hbit : (y.toNat >>> i) &&& 1 = (y.getLsbD i).toNat := by
    rw [BitVec.getLsbD, Nat.and_one_is_mod, Nat.shiftRight_eq_div_pow, Nat.toNat_testBit]
  unfold multiplyStep peasantStep
  simp only [shift_eq, hbit]
  cases y.getLsbD i
  · simp
  · simp [BitVec.toNat_xor]

/-- **The multiplication** is the one modulo `0x11D`, and its assertion holds. -/
theorem multiply_eq (x y : Byte) : multiply x y = .ok (peasant 0x1D x y) := by
  have hloop : ∀ (is : List ℕ) (z : Byte),
      is.foldl (multiplyStep x y) z.toNat = (is.foldl (peasantStep 0x1D x y) z).toNat := by
    intro is
    induction is with
    | nil => exact fun _ => rfl
    | cons i is ih =>
      intro z
      rw [List.foldl_cons, List.foldl_cons, multiplyStep_eq, ih]
  have hz : (List.range 8).reverse.foldl (multiplyStep x y) 0 = (peasant 0x1D x y).toNat :=
    hloop (List.range 8).reverse 0
  have hlt := (peasant 0x1D x y).isLt
  unfold multiply
  simp only [hz]
  rw [if_neg (by rw [Nat.shiftRight_eq_div_pow, not_not, Nat.div_eq_of_lt hlt]), BitVec.ofNat_toNat, BitVec.setWidth_eq]

theorem multiply_bits (a b : Field256) : multiply a.bits b.bits = .ok (a * b).bits := multiply_eq _ _

/-! ## Powers of two -/

theorem orderOf_root : orderOf (root (0x1D : Byte)) = 2 ^ 8 - 1 := by
  have hpow : ∀ n, root (0x1D : Byte) ^ n = ⟨(shift 0x1D)^[n] 1⟩ := root_pow (by omega)
  refine orderOf_eq_of_pow_and_pow_div_prime (by omega) ?_ fun p hp hdvd => ?_
  · rw [hpow]
    decide +kernel
  · have hcases : p = 3 ∨ p = 5 ∨ p = 17 := by
      have hfactor : (2 ^ 8 - 1 : ℕ) = 3 * (5 * 17) := by norm_num
      rw [hfactor, hp.dvd_mul, hp.dvd_mul] at hdvd
      rwa [Nat.prime_dvd_prime_iff_eq hp Nat.prime_three, Nat.prime_dvd_prime_iff_eq hp Nat.prime_five,
        Nat.prime_dvd_prime_iff_eq hp (by decide)] at hdvd
    rw [hpow]
    rcases hcases with rfl | rfl | rfl <;> decide +kernel

instance field_charP : CharP Field256 2 := charTwo (by omega)

instance field_isDomain : IsDomain Field256 := isDomain (by omega) orderOf_root

theorem nextRoot_eq (z : Byte) : nextRoot z.toNat = (shift 0x1D z).toNat := shift_eq z

/-! ## Generators and remainders -/

theorem multiplyRoot_eq (b : Field256) (cs : List Field256) :
    multiplyRoot b.bits (cs.map Residue.bits) = .ok ((timesRoot b cs).map Residue.bits) := by
  induction cs with
  | nil => rfl
  | cons c cs ih =>
    cases cs with
    | nil =>
      show (multiply c.bits b.bits >>= fun p => pure [p]) = _
      rw [multiply_bits]
      rfl
    | cons c' cs =>
      simp only [List.map_cons] at ih ⊢
      rw [multiplyRoot, multiply_bits, ih]
      rfl

theorem rootStep_eq (b : Field256) (cs : List Field256) :
    rootStep (cs.map Residue.bits, b.bits.toNat) =
      .ok ((timesRoot b cs).map Residue.bits, (timesX (0x1D : Byte) b).bits.toNat) := by
  unfold rootStep
  rw [BitVec.ofNat_toNat, BitVec.setWidth_eq, multiplyRoot_eq, nextRoot_eq]
  rfl

/-- The loop over the roots. -/
theorem foldlM_roots (degree k : ℕ) :
    (List.range k).foldlM (fun s _ => rootStep s) (List.replicate (degree - 1) 0 ++ [1], 1) =
      (.ok ((product degree ((List.range k).map (root (0x1D : Byte) ^ ·))).map Residue.bits,
        (root (0x1D : Byte) ^ k).bits.toNat) : Except String (List Byte × ℕ)) := by
  induction k with
  | zero =>
    have hstart : (List.replicate (degree - 1) 0 ++ [1] : List Byte) =
        (List.replicate (degree - 1) (0 : Field256) ++ [1]).map Residue.bits := by simp
    rw [hstart]
    rfl
  | succ k ih =>
    have hnext : timesX (0x1D : Byte) (root (0x1D : Byte) ^ k) = root (0x1D : Byte) ^ (k + 1) := by
      rw [pow_succ, mul_root (by omega)]
    have hproduct : product degree ((List.range (k + 1)).map (root (0x1D : Byte) ^ ·)) =
        timesRoot (root (0x1D : Byte) ^ k) (product degree ((List.range k).map (root (0x1D : Byte) ^ ·))) := by
      unfold product
      rw [List.range_succ, List.map_append, List.foldl_append]
      rfl
    rw [hproduct, ← hnext, List.range_succ, List.foldlM_append, ih]
    show (rootStep _ >>= pure) = _
    rw [rootStep_eq]
    rfl

/-- **The generator** is the product of its roots' factors. -/
theorem reedSolomonGenerator_eq {degree : ℕ} (h : 1 ≤ degree) (h' : degree ≤ 255) :
    reedSolomonGenerator degree = .ok ((generator (root (0x1D : Byte)) degree).map Residue.bits) := by
  unfold reedSolomonGenerator
  rw [if_neg (by omega)]
  simp only [foldlM_roots]
  rfl

theorem remainderStep_eq (cs state : List Field256) (x : Field256) :
    Qrcodegen.remainderStep (cs.map Residue.bits) (state.map Residue.bits) x.bits =
      .ok ((ReedSolomon.remainderStep cs state x).map Residue.bits) := by
  have hfactor : x.bits ^^^ (state.map Residue.bits).headD 0 = (x + state.headD 0).bits := by
    cases state <;> rfl
  have htail : (state.map Residue.bits).tail ++ [0] = (state.tail ++ [(0 : Field256)]).map Residue.bits := by
    cases state <;> simp
  have hstep : (fun p : Byte × Byte => (do return p.2 ^^^ (← multiply p.1 (x + state.headD 0).bits) :
      Except String Byte)) = fun p => pure (p.2 ^^^ peasant 0x1D p.1 (x + state.headD 0).bits) := by
    funext p
    rw [multiply_eq]
    rfl
  unfold Qrcodegen.remainderStep ReedSolomon.remainderStep
  simp only [hfactor, htail]
  rw [hstep, List.mapM_pure, List.zip_map, List.map_map, List.map_zipWith]
  rw [← List.map_uncurry_zip_eq_zipWith]
  rfl

/-- **The remainder** is what a feedback register leaves. -/
theorem getRemainder_eq (cs data : List Field256) :
    getRemainder (cs.map Residue.bits) (data.map Residue.bits) = .ok ((remainder cs data).map Residue.bits) := by
  have hloop : ∀ state : List Field256, (data.map Residue.bits).foldlM (Qrcodegen.remainderStep (cs.map Residue.bits))
      (state.map Residue.bits) = .ok ((data.foldl (ReedSolomon.remainderStep cs) state).map Residue.bits) := by
    induction data with
    | nil => exact fun _ => rfl
    | cons x data ih =>
      intro state
      rw [List.map_cons, List.foldlM_cons, remainderStep_eq]
      exact ih _
  have hstart := hloop (List.replicate cs.length 0)
  rw [List.map_replicate] at hstart
  unfold getRemainder
  rw [List.length_map]
  exact hstart

end Noobs.Qrcodegen
