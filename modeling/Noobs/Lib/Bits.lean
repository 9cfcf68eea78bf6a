import Mathlib.Data.List.Basic
import Mathlib.Data.Nat.Bitwise
import Mathlib.Tactic.Ring

/-!
# Bits

Numbers and bytes as lists of bits, the most significant bit first.

* `value_field`: a number is read back from as many bits as it has.
* `getElem?_bytesBits`: where a bit of a list of bytes stands.
* `toBytes_bytesBits`: bytes are read back from their bits.
-/

namespace Bits

/-! ## Numbers -/

/-- The low `n` bits of a number. -/
def field (n v : ℕ) : List Bool := (List.range n).reverse.map v.testBit

/-- The number that some bits spell. -/
def value : List Bool → ℕ
  | [] => 0
  | b :: bits => b.toNat * 2 ^ bits.length + value bits

theorem field_succ (n v : ℕ) : field (n + 1) v = v.testBit n :: field n v := by
  simp [field, List.range_succ]

@[simp] theorem length_field (n v : ℕ) : (field n v).length = n := by simp [field]

theorem value_field_mod (n v : ℕ) : value (field n v) = v % 2 ^ n := by
  induction n with
  | zero => simp [field, value, Nat.mod_one]
  | succ n ih =>
    rw [field_succ, value, ih, length_field, Nat.mod_pow_succ, Nat.toNat_testBit]
    ring

/-- **A number is read back** from as many bits as it has. -/
theorem value_field {n v : ℕ} (h : v < 2 ^ n) : value (field n v) = v := by
  rw [value_field_mod, Nat.mod_eq_of_lt h]

/-! ## Bytes -/

def byteBits (b : BitVec 8) : List Bool := field 8 b.toNat

def bytesBits (bytes : List (BitVec 8)) : List Bool := bytes.flatMap byteBits

@[simp] theorem length_byteBits (b : BitVec 8) : (byteBits b).length = 8 := length_field _ _

theorem bytesBits_cons (b : BitVec 8) (bytes : List (BitVec 8)) :
    bytesBits (b :: bytes) = byteBits b ++ bytesBits bytes := rfl

theorem bytesBits_append (bytes bytes' : List (BitVec 8)) :
    bytesBits (bytes ++ bytes') = bytesBits bytes ++ bytesBits bytes' := List.flatMap_append

@[simp] theorem length_bytesBits (bytes : List (BitVec 8)) : (bytesBits bytes).length = 8 * bytes.length := by
  induction bytes with
  | nil => rfl
  | cons b bytes ih =>
    rw [bytesBits_cons, List.length_append, length_byteBits, ih, List.length_cons]
    omega

theorem getElem?_byteBits (b : BitVec 8) {p : ℕ} (hp : p < 8) : (byteBits b)[p]? = some (b.getLsbD (7 - p)) := by
  unfold byteBits field
  rw [List.getElem?_map, List.getElem?_reverse (by simpa using hp), List.length_range, List.getElem?_range (by omega)]
  rfl

/-- **Where a bit stands.** -/
theorem getElem?_bytesBits (bytes : List (BitVec 8)) (p : ℕ) :
    (bytesBits bytes)[p]? = bytes[p / 8]?.map fun b => b.getLsbD (7 - p % 8) := by
  induction bytes generalizing p with
  | nil => simp [bytesBits]
  | cons b bytes ih =>
    rw [bytesBits_cons]
    by_cases hp : p < 8
    · have hbyte : p / 8 = 0 := by omega
      have hbit : p % 8 = p := by omega
      rw [List.getElem?_append_left (by simpa using hp), getElem?_byteBits b hp, hbyte, hbit]
      rfl
    · have hbyte : p / 8 = (p - 8) / 8 + 1 := by omega
      have hbit : p % 8 = (p - 8) % 8 := by omega
      rw [List.getElem?_append_right (by simpa using hp), length_byteBits, ih, hbyte, hbit]
      rfl

theorem getLsbD_bit {k : ℕ} (hk : k < 8) (bit : Bool) (j : ℕ) :
    (BitVec.ofNat 8 bit.toNat <<< k).getLsbD j = (decide (k = j) && bit) := by
  cases bit with
  | false => simp
  | true =>
    show (BitVec.twoPow 8 k).getLsbD j = _
    rw [BitVec.getLsbD_twoPow, decide_eq_true hk, Bool.true_and, Bool.and_true]

/-- A bit is set. -/
theorem bytesBits_modify (bytes : List (BitVec 8)) (p : ℕ) (bit : Bool) :
    bytesBits (bytes.modify (p / 8) (· ||| BitVec.ofNat 8 bit.toNat <<< (7 - p % 8))) =
      (bytesBits bytes).modify p (· || bit) := by
  refine List.ext_getElem? fun q => ?_
  rw [getElem?_bytesBits, List.getElem?_modify, List.getElem?_modify, getElem?_bytesBits]
  cases bytes[q / 8]? with
  | none => simp
  | some b =>
    have hset := getLsbD_bit (show 7 - p % 8 < 8 by omega) bit (7 - q % 8)
    by_cases hbyte : p / 8 = q / 8
    · have hbit : (7 - p % 8 = 7 - q % 8) = (p = q) := by
        rw [eq_iff_iff]
        omega
      simp only [hbit] at hset
      simp only [hbyte, if_true]
      show some ((b ||| BitVec.ofNat 8 bit.toNat <<< (7 - p % 8)).getLsbD (7 - q % 8)) =
        some (if p = q then b.getLsbD (7 - q % 8) || bit else b.getLsbD (7 - q % 8))
      rw [BitVec.getLsbD_or, hset]
      by_cases hpq : p = q <;> simp [hpq]
    · have hpq : p ≠ q := by
        rintro rfl
        exact hbyte rfl
      simp [hbyte, hpq]

/-- The bytes that some bits spell; what is behind the last whole one is left out. -/
def toBytes : List Bool → List (BitVec 8)
  | b₇ :: b₆ :: b₅ :: b₄ :: b₃ :: b₂ :: b₁ :: b₀ :: bits =>
    BitVec.ofNat 8 (value [b₇, b₆, b₅, b₄, b₃, b₂, b₁, b₀]) :: toBytes bits
  | _ => []

theorem toBytes_append {byte : List Bool} (h : byte.length = 8) (bits : List Bool) :
    toBytes (byte ++ bits) = BitVec.ofNat 8 (value byte) :: toBytes bits := by
  match byte, h with
  | [b₇, b₆, b₅, b₄, b₃, b₂, b₁, b₀], _ => rfl

theorem toBytes_short {bits : List Bool} (h : bits.length < 8) : toBytes bits = [] := by
  unfold toBytes
  split
  · simp at h
    omega
  · rfl

/-- **Bytes are read back** from their bits. -/
theorem toBytes_bytesBits (bytes : List (BitVec 8)) {bits : List Bool} (h : bits.length < 8) :
    toBytes (bytesBits bytes ++ bits) = bytes := by
  induction bytes with
  | nil => exact toBytes_short h
  | cons b bytes ih =>
    have hvalue : value (byteBits b) = b.toNat := value_field b.isLt
    rw [bytesBits_cons, List.append_assoc, toBytes_append (length_byteBits b), ih, hvalue, BitVec.ofNat_toNat,
      BitVec.setWidth_eq]

end Bits
