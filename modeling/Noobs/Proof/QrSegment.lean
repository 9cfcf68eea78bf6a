import Noobs.Proof.Layout
import Noobs.Spec.Scan

/-!
# Segments

What `BitBuffer` holds is a list of bits, and what `makeSegments` puts into one is read back.

* `Holds.appendBits`: what is appended to a buffer.
* `make_spec`: **packed characters are read back.**
* `readSegments_encoded`: **a list of segments is read back**, up to the terminator.
-/

namespace Noobs.Qrcodegen

open Bits

/-- The bits of a segment. -/
def QrSegment.bits (seg : QrSegment) : List Bool := (List.range seg.bitLength).map seg.bit

variable {bb : BitBuffer} {bits new : List Bool} {seg : QrSegment} {segs : List QrSegment} {text : List Byte}
  {version : ℕ} {ecl : Ecc}

/-! ## Buffers -/

theorem extend_eq (data : List Byte) (n : ℕ) :
    extend data n = data ++ List.replicate ((n + 7) / 8 - data.length) 0 := by
  induction data using extend.induct n with
  | case1 data hlt ih =>
    rw [extend, if_pos hlt, ih, List.length_append, List.length_singleton, List.append_assoc]
    have hone : (n + 7) / 8 - data.length = (n + 7) / 8 - (data.length + 1) + 1 := by omega
    rw [hone, List.replicate_succ]
    rfl
  | case2 data hge =>
    have hnone : (n + 7) / 8 - data.length = 0 := by omega
    rw [extend, if_neg hge, hnone, List.replicate_zero, List.append_nil]

/-- The buffer has these bits, and zeros behind them. -/
structure Room (bb : BitBuffer) (bits : List Bool) : Prop where
  length : bb.bitLength = bits.length
  data : bytesBits bb.data = bits ++ List.replicate (8 * bb.data.length - bits.length) false

/-- The buffer has these bits, in no more bytes than they need. -/
structure Holds (bb : BitBuffer) (bits : List Bool) : Prop extends Room bb bits where
  tight : bb.data.length = (bits.length + 7) / 8

theorem holds_empty : Holds {} [] := ⟨⟨rfl, rfl⟩, rfl⟩

theorem Room.append (h : Room bb bits) (hroom : bits.length < 8 * bb.data.length) (bit : Bool) :
    Room (bb.append bit) (bits ++ [bit]) ∧ (bb.append bit).data.length = bb.data.length := by
  have hbyte : bb.bitLength >>> 3 = bits.length / 8 := by rw [h.length, Nat.shiftRight_eq_div_pow]
  have hbit : bb.bitLength &&& 7 = bits.length % 8 := by
    rw [h.length]
    exact Nat.and_two_pow_sub_one_eq_mod bits.length 3
  have hlen : (bb.append bit).data.length = bb.data.length := List.length_modify _ _ _
  obtain ⟨k, hk⟩ := Nat.exists_eq_add_of_lt hroom
  have hzeros : 8 * bb.data.length - bits.length = k + 1 := by omega
  have hrest : 8 * bb.data.length - (bits ++ [bit]).length = k := by
    rw [List.length_append, List.length_singleton]
    omega
  have hset : ∀ (bits rest : List Bool), (bits ++ false :: rest).modify bits.length (· || bit) = bits ++ bit :: rest := by
    intro bits rest
    induction bits with
    | nil => simp
    | cons b bits ih => simpa using ih
  refine ⟨⟨?_, ?_⟩, hlen⟩
  · show bb.bitLength + 1 = _
    rw [h.length, List.length_append, List.length_singleton]
  · rw [hlen, hrest]
    show bytesBits (bb.data.modify (bb.bitLength >>> 3)
      (· ||| BitVec.ofNat 8 bit.toNat <<< (7 - (bb.bitLength &&& 7)))) = _
    rw [hbyte, hbit, bytesBits_modify, h.data, hzeros, List.replicate_succ, hset, List.append_assoc]
    rfl

theorem Room.appendAll (h : Room bb bits) (new : List Bool) (hroom : bits.length + new.length ≤ 8 * bb.data.length) :
    Room (new.foldl BitBuffer.append bb) (bits ++ new) ∧
      (new.foldl BitBuffer.append bb).data.length = bb.data.length := by
  induction new generalizing bb bits with
  | nil => exact ⟨by simpa using h, rfl⟩
  | cons bit new ih =>
    rw [List.length_cons] at hroom
    obtain ⟨hone, hlen⟩ := h.append (by omega) bit
    have hroom' : (bits ++ [bit]).length + new.length ≤ 8 * (bb.append bit).data.length := by
      rw [hlen, List.length_append, List.length_singleton]
      omega
    obtain ⟨hall, hlen'⟩ := ih hone hroom'
    rw [List.append_assoc] at hall
    exact ⟨hall, hlen'.trans hlen⟩

/-- A buffer is extended and takes new bits. -/
theorem Holds.extended (h : Holds bb bits) (new : List Bool) :
    Holds (new.foldl BitBuffer.append { bb with data := extend bb.data (bb.bitLength + new.length) }) (bits ++ new) := by
  have hlen : (extend bb.data (bb.bitLength + new.length)).length = (bits.length + new.length + 7) / 8 := by
    rw [extend_eq, List.length_append, List.length_replicate, h.tight, h.length]
    omega
  have hzero : byteBits 0 = List.replicate 8 false := by decide
  have hzeros : ∀ n, bytesBits (List.replicate n 0) = List.replicate (8 * n) false := by
    intro n
    induction n with
    | zero => rfl
    | succ n ih => rw [List.replicate_succ, bytesBits_cons, ih, hzero, List.replicate_append_replicate]; congr 1; omega
  have hdata : bytesBits (extend bb.data (bb.bitLength + new.length)) =
      bits ++ List.replicate (8 * (extend bb.data (bb.bitLength + new.length)).length - bits.length) false := by
    rw [hlen, extend_eq, bytesBits_append, h.data, hzeros, List.append_assoc, List.replicate_append_replicate, h.tight,
      h.length]
    congr 2
    omega
  have hroom : Room { bb with data := extend bb.data (bb.bitLength + new.length) } bits := ⟨h.length, hdata⟩
  obtain ⟨hall, hsame⟩ := hroom.appendAll new (by simp only [hlen]; omega)
  refine ⟨hall, ?_⟩
  rw [hsame, List.length_append]
  exact hlen

/-- **What is appended to a buffer.** -/
theorem Holds.appendBits (h : Holds bb bits) {val len : ℕ} (hval : val < 2 ^ len) (hlen : len ≤ 32) :
    ∃ bb', bb.appendBits val len = .ok bb' ∧ Holds bb' (bits ++ field len val) := by
  have hshift : val >>> (len : ℤ).toNat = 0 := by
    rw [Int.toNat_natCast, Nat.shiftRight_eq_div_pow, Nat.div_eq_of_lt hval]
  have hextended := h.extended (field len val)
  rw [length_field] at hextended
  refine ⟨_, ?_, hextended⟩
  unfold BitBuffer.appendBits
  rw [if_neg (by rw [hshift]; omega)]
  simp only [Int.toNat_natCast, field, List.foldl_map]

theorem Holds.appendData (h : Holds bb bits) (seg : QrSegment) :
    Holds (bb.appendData seg) (bits ++ seg.bits) := by
  have hlen : seg.bits.length = seg.bitLength := by simp [QrSegment.bits]
  have hextended := h.extended seg.bits
  rw [hlen] at hextended
  unfold BitBuffer.appendData
  simp only
  rwa [QrSegment.bits, List.foldl_map] at hextended

/-- A segment has the bits of the buffer it was made from. -/
theorem Holds.bits_eq (h : Holds bb bits) (hdata : seg.data = bb.data) (hlen : seg.bitLength = bb.bitLength) :
    seg.bits = bits := by
  have hle : bits.length ≤ 8 * bb.data.length := by
    have htight := h.tight
    omega
  refine List.ext_getElem? fun i => ?_
  unfold QrSegment.bits
  rw [List.getElem?_map]
  by_cases hi : i < bits.length
  · have hbit : (bytesBits bb.data)[i]? = bits[i]? := by rw [h.data, List.getElem?_append_left hi]
    have hbyte : i / 8 < bb.data.length := by omega
    have hlow : i &&& 7 = i % 8 := Nat.and_two_pow_sub_one_eq_mod i 3
    rw [List.getElem?_range (by rw [hlen, h.length]; exact hi), ← hbit, getElem?_bytesBits,
      List.getElem?_eq_getElem hbyte, Option.map_some, Option.map_some]
    unfold QrSegment.bit
    rw [hdata, hlow, Nat.shiftRight_eq_div_pow, List.getD_eq_getElem _ _ hbyte]
  · rw [List.getElem?_eq_none (by simp [hlen, h.length]; omega), List.getElem?_eq_none (by omega)]
    rfl

/-! ## Packed characters -/

/-- The number with these digits. -/
def num (base : ℕ) (vs : List ℕ) : ℕ := vs.foldl (fun n v => n * base + v) 0

theorem num_concat (base : ℕ) (vs : List ℕ) (v : ℕ) : num base (vs ++ [v]) = num base vs * base + v := by
  simp [num]

theorem num_cons (base v : ℕ) (vs : List ℕ) : num base (v :: vs) = v * base ^ vs.length + num base vs := by
  induction vs using List.reverseRecOn with
  | nil => simp [num]
  | append_singleton vs x ih =>
    rw [← List.cons_append, num_concat, num_concat, ih, List.length_append, List.length_singleton, pow_succ]
    ring

theorem num_lt {base : ℕ} {vs : List ℕ} (h : ∀ v ∈ vs, v < base) : num base vs < base ^ vs.length := by
  induction vs with
  | nil => simp [num]
  | cons v vs ih =>
    obtain ⟨hv, hvs⟩ := List.forall_mem_cons.1 h
    have hrest := ih hvs
    have hhead : v * base ^ vs.length + base ^ vs.length ≤ base * base ^ vs.length := by
      rw [← Nat.succ_mul]
      exact Nat.mul_le_mul_right _ hv
    rw [num_cons, List.length_cons, pow_succ']
    omega

/-- The alphabet's numbers fit the bits they are given. -/
structure Alphabet.Wide (a : Alphabet) : Prop where
  base : 0 < a.base
  group : 0 < a.group
  width : a.base ^ a.group ≤ 2 ^ a.width
  rest : ∀ n, 0 < n → n < a.group → a.base ^ n ≤ 2 ^ a.rest n

/-- **A number spells** the characters that made it. -/
theorem spell_num {a : Alphabet} (ha : 0 < a.base) {vs : List ℕ} (h : ∀ v ∈ vs, v < a.base) :
    a.spell vs.length (num a.base vs) = vs.map a.char := by
  induction vs with
  | nil => rfl
  | cons v vs ih =>
    obtain ⟨hv, hvs⟩ := List.forall_mem_cons.1 h
    have hlt := num_lt hvs
    have hpos : 0 < a.base ^ vs.length := Nat.pow_pos ha
    have htop : (v * a.base ^ vs.length + num a.base vs) / a.base ^ vs.length % a.base = v := by
      rw [Nat.mul_comm, Nat.mul_add_div hpos, Nat.div_eq_of_lt hlt, Nat.add_zero, Nat.mod_eq_of_lt hv]
    have hlow : ∀ i ∈ (List.range vs.length).reverse,
        a.char ((v * a.base ^ vs.length + num a.base vs) / a.base ^ i % a.base) =
          a.char (num a.base vs / a.base ^ i % a.base) := by
      intro i hi
      have hi' : i < vs.length := by simpa using hi
      obtain ⟨k, hk⟩ := Nat.exists_eq_add_of_lt hi'
      have hsplit : v * a.base ^ vs.length = a.base ^ i * (a.base * (v * a.base ^ k)) := by
        rw [hk, pow_add, pow_add, pow_one]
        ring
      rw [hsplit, Nat.mul_add_div (Nat.pow_pos ha), Nat.mul_add_mod]
    have hspell := ih hvs
    unfold Alphabet.spell at hspell ⊢
    rw [num_cons, List.length_cons, List.range_succ, List.reverse_append, List.reverse_singleton, List.singleton_append,
      List.map_cons, htop, List.map_congr_left hlow, hspell, List.map_cons]

/-- The bits of what is left at the end. -/
def tailBits (a : Alphabet) (vs : List ℕ) : List Bool :=
  if vs = [] then [] else field (a.rest vs.length) (num a.base vs)

/-- The bits of some characters. -/
def packedBits (a : Alphabet) (vs : List ℕ) : List Bool :=
  if 0 < a.group ∧ a.group ≤ vs.length then
    field a.width (num a.base (vs.take a.group)) ++ packedBits a (vs.drop a.group)
  else tailBits a vs
termination_by vs.length
decreasing_by
  rw [List.length_drop]
  omega

theorem packedBits_short {a : Alphabet} {vs : List ℕ} (h : vs.length < a.group) : packedBits a vs = tailBits a vs := by
  rw [packedBits, if_neg (by omega)]

theorem packedBits_group {a : Alphabet} (ha : a.Wide) {ps : List ℕ} (h : ps.length = a.group) (vs : List ℕ) :
    packedBits a (ps ++ vs) = field a.width (num a.base ps) ++ packedBits a vs := by
  have hpos := ha.group
  rw [packedBits, if_pos (by rw [List.length_append]; omega), List.take_left' h, List.drop_left' h]

theorem readField_field {n v : ℕ} (h : v < 2 ^ n) (rest : List Bool) :
    readField n (field n v ++ rest) = some (v, rest) := by
  have hlen : (field n v).length = n := length_field n v
  unfold readField
  rw [if_pos (by rw [List.length_append, hlen]; omega), List.take_left' hlen, List.drop_left' hlen, value_field h]

theorem readGroups_packed {a : Alphabet} (ha : a.Wide) (k : ℕ) {vs : List ℕ} (hvs : ∀ v ∈ vs, v < a.base)
    (hk : k * a.group ≤ vs.length) (hrest : vs.length < (k + 1) * a.group) (rest : List Bool) :
    a.readGroups k (packedBits a vs ++ rest) =
      some ((vs.take (k * a.group)).map a.char, tailBits a (vs.drop (k * a.group)) ++ rest) := by
  induction k generalizing vs with
  | zero =>
    rw [packedBits_short (by omega), Nat.zero_mul]
    rfl
  | succ k ih =>
    obtain ⟨hone, htwo⟩ : (k + 1) * a.group = k * a.group + a.group ∧
        (k + 1 + 1) * a.group = k * a.group + a.group + a.group := ⟨by ring, by ring⟩
    have htake : (vs.take a.group).length = a.group := by
      rw [List.length_take]
      omega
    have hdrop : (vs.drop a.group).length = vs.length - a.group := List.length_drop
    have hsmall : ∀ v ∈ vs.take a.group, v < a.base := fun v hv => hvs v (List.mem_of_mem_take hv)
    have hnum : num a.base (vs.take a.group) < 2 ^ a.width := by
      have hlt := num_lt hsmall
      rw [htake] at hlt
      exact hlt.trans_le ha.width
    have hnext := @ih (vs.drop a.group) (fun v hv => hvs v (List.mem_of_mem_drop hv)) (by omega) (by omega)
    have hspell := spell_num ha.base hsmall
    rw [htake] at hspell
    have hsplit : vs = vs.take a.group ++ vs.drop a.group := (List.take_append_drop _ _).symm
    have hbits : packedBits a vs = field a.width (num a.base (vs.take a.group)) ++ packedBits a (vs.drop a.group) := by
      conv_lhs => rw [hsplit]
      exact packedBits_group ha htake _
    rw [Alphabet.readGroups, hbits, List.append_assoc, readField_field hnum]
    show (a.readGroups k (packedBits a (vs.drop a.group) ++ rest) >>= fun r =>
      some (a.spell a.group (num a.base (vs.take a.group)) ++ r.1, r.2)) = _
    rw [hnext, hspell]
    show some (_, _) = _
    rw [← List.map_append, List.drop_drop, hone, Nat.add_comm (k * a.group), List.take_add]

/-- **Packed characters are read back.** -/
theorem read_packed {a : Alphabet} (ha : a.Wide) {vs : List ℕ} (hvs : ∀ v ∈ vs, v < a.base) (rest : List Bool) :
    a.read vs.length (packedBits a vs ++ rest) = some (vs.map a.char, rest) := by
  have hpos := ha.group
  have hdiv := Nat.div_add_mod vs.length a.group
  have hmod := Nat.mod_lt vs.length hpos
  rw [Nat.mul_comm] at hdiv
  have hsucc : (vs.length / a.group + 1) * a.group = vs.length / a.group * a.group + a.group := by ring
  have hgroups := readGroups_packed ha (vs.length / a.group) hvs (by omega) (by omega) rest
  have hlen : (vs.drop (vs.length / a.group * a.group)).length = vs.length % a.group := by
    rw [List.length_drop]
    omega
  have hsmall : ∀ v ∈ vs.drop (vs.length / a.group * a.group), v < a.base :=
    fun v hv => hvs v (List.mem_of_mem_drop hv)
  have hspell := spell_num ha.base hsmall
  have hlt := num_lt hsmall
  rw [hlen] at hspell hlt
  unfold Alphabet.read
  rw [hgroups]
  show (if vs.length % a.group = 0 then _ else _) = _
  by_cases hzero : vs.length % a.group = 0
  · have hnil : vs.drop (vs.length / a.group * a.group) = [] := List.length_eq_zero_iff.1 (hlen.trans hzero)
    have hall : vs.take (vs.length / a.group * a.group) = vs := List.take_of_length_le (by omega)
    rw [if_pos hzero, hnil, hall]
    rfl
  · have hne : vs.drop (vs.length / a.group * a.group) ≠ [] := by
      intro hnil
      rw [hnil] at hlen
      exact hzero hlen.symm
    have hfits := hlt.trans_le (ha.rest _ (Nat.pos_of_ne_zero hzero) hmod)
    rw [if_neg hzero]
    unfold tailBits
    simp only [if_neg hne, hlen]
    rw [readField_field hfits]
    show some (_ ++ a.spell (vs.length % a.group) _, _) = _
    rw [hspell, ← List.map_append, List.take_append_drop]

/-! ## Making segments -/

/-- The library packs characters as the alphabet has it. -/
structure Packs (k : Packing) (a : Alphabet) : Prop where
  wide : a.Wide
  base : k.base = a.base
  group : k.group = a.group
  width : k.width = a.width
  width_le : a.width ≤ 32
  rest : ∀ n, 0 < n → n < a.group → k.rest n = a.rest n
  rest_le : ∀ n, 0 < n → n < a.group → a.rest n ≤ 32

theorem toUint32_natCast {n : ℕ} (h : n < 2 ^ 32) : toUint32 n = n := by
  unfold toUint32
  omega

/-- Where the loop stands: some bits are written, and some characters are pending. -/
structure Packed.At (a : Alphabet) (s : Packed) (written : List Bool) (pending : List ℕ) : Prop where
  buffer : Holds s.bb written
  data : s.accumData = num a.base pending
  count : s.accumCount = pending.length
  short : pending.length < a.group
  small : ∀ v ∈ pending, v < a.base

variable {k : Packing} {a : Alphabet} {s : Packed} {written : List Bool} {pending : List ℕ}

theorem Packed.At.step (h : s.At a written pending) (hk : Packs k a) {c : Byte} {v : ℕ} (hc : k.value c = .ok (v : ℤ))
    (hv : v < a.base) : ∃ s' written' pending', Packed.step k s c = .ok s' ∧ s'.At a written' pending' ∧
      s'.charCount = s.charCount + 1 ∧
        ∀ vs, written' ++ packedBits a (pending' ++ vs) = written ++ packedBits a (pending ++ v :: vs) := by
  have hdata : s.accumData * (k.base : ℤ) + v = (num a.base (pending ++ [v]) : ℕ) := by
    rw [num_concat, h.data, hk.base]
    push_cast
    rfl
  have hsmall : ∀ x ∈ pending ++ [v], x < a.base := List.forall_mem_append.2 ⟨h.small, List.forall_mem_singleton.2 hv⟩
  have hlen : (pending ++ [v]).length = pending.length + 1 := by simp
  have hcount := h.count
  have hshort := h.short
  have hrun : Packed.step k s c = (if s.accumCount + 1 = k.group then
      s.bb.appendBits (toUint32 (num a.base (pending ++ [v]) : ℕ)) k.width >>= fun bb =>
        pure { bb := bb, charCount := s.charCount + 1 }
    else pure { s with accumData := (num a.base (pending ++ [v]) : ℕ), accumCount := s.accumCount + 1,
                       charCount := s.charCount + 1 }) := by
    unfold Packed.step
    rw [hc, ← hdata]
    rfl
  rw [hrun, hk.group, hk.width]
  by_cases hfull : s.accumCount + 1 = a.group
  · have hgroup : (pending ++ [v]).length = a.group := by omega
    have hnum : num a.base (pending ++ [v]) < 2 ^ a.width := by
      have hlt := num_lt hsmall
      rw [hgroup] at hlt
      exact hlt.trans_le hk.wide.width
    have hint : num a.base (pending ++ [v]) < 2 ^ 32 := hnum.trans_le (Nat.pow_le_pow_right (by omega) hk.width_le)
    obtain ⟨bb, hbb, hholds⟩ := h.buffer.appendBits hnum hk.width_le
    rw [if_pos hfull, toUint32_natCast hint, hbb]
    refine ⟨_, _, [], rfl, ⟨hholds, rfl, rfl, hk.wide.group, by simp⟩, rfl, fun vs => ?_⟩
    have hsplit : pending ++ v :: vs = (pending ++ [v]) ++ vs := by simp
    rw [hsplit, packedBits_group hk.wide hgroup, List.nil_append, List.append_assoc]
  · rw [if_neg hfull]
    refine ⟨_, written, pending ++ [v], rfl, ⟨h.buffer, rfl, ?_, by omega, hsmall⟩, rfl, fun vs => by simp⟩
    show s.accumCount + 1 = _
    omega

/-- The whole loop. -/
theorem Packed.At.loop (h : s.At a written pending) (hk : Packs k a) {code : Byte → ℕ} {cs : List Byte}
    (hcs : ∀ c ∈ cs, k.value c = .ok (code c : ℤ) ∧ code c < a.base) : ∃ s' written' pending',
      cs.foldlM (Packed.step k) s = .ok s' ∧ s'.At a written' pending' ∧ s'.charCount = s.charCount + cs.length ∧
        written' ++ packedBits a pending' = written ++ packedBits a (pending ++ cs.map code) := by
  induction cs generalizing s written pending with
  | nil => exact ⟨s, written, pending, rfl, h, rfl, by simp⟩
  | cons c cs ih =>
    obtain ⟨⟨hvalue, hsmall⟩, hrest⟩ := List.forall_mem_cons.1 hcs
    obtain ⟨s₁, written₁, pending₁, hstep, hat, hcount, hbits⟩ := h.step hk hvalue hsmall
    obtain ⟨s₂, written₂, pending₂, hloop, hat₂, hcount₂, hbits₂⟩ := ih hat hrest
    refine ⟨s₂, written₂, pending₂, ?_, hat₂, ?_, ?_⟩
    · rw [List.foldlM_cons, hstep]
      exact hloop
    · rw [hcount₂, hcount, List.length_cons]
      omega
    · rw [hbits₂, hbits, List.map_cons]

/-- **A segment of packed characters** has their bits. -/
theorem make_spec (hk : Packs k a) {code : Byte → ℕ}
    (hcs : ∀ c ∈ cBytes text, k.value c = .ok (code c : ℤ) ∧ code c < a.base) : ∃ seg, k.make text = .ok seg ∧
      seg.mode = k.mode ∧ seg.numChars = (cBytes text).length ∧
        seg.bits = packedBits a ((cBytes text).map code) := by
  have hstart : Packed.At a {} [] [] := ⟨holds_empty, rfl, rfl, hk.wide.group, by simp⟩
  obtain ⟨s, written, pending, hloop, hat, hcount, hbits⟩ := hstart.loop hk hcs
  rw [List.nil_append, List.nil_append, packedBits_short hat.short] at hbits
  -- what is pending is written
  have hflush : ∃ bb, s.flush k = .ok bb ∧ Holds bb (packedBits a ((cBytes text).map code)) := by
    unfold Packed.flush
    rw [← hbits, hat.count]
    unfold tailBits
    by_cases hnil : pending = []
    · subst hnil
      exact ⟨s.bb, rfl, by simpa using hat.buffer⟩
    · have hpos := List.length_pos_of_ne_nil hnil
      have hlt := (num_lt hat.small).trans_le (hk.wide.rest _ hpos hat.short)
      have hle := hk.rest_le _ hpos hat.short
      have hint := hlt.trans_le (Nat.pow_le_pow_right (show 0 < 2 by omega) hle)
      obtain ⟨bb, hbb, hholds⟩ := hat.buffer.appendBits hlt hle
      rw [if_pos hpos, if_neg hnil, hk.rest _ hpos hat.short, hat.data, toUint32_natCast hint]
      exact ⟨bb, hbb, hholds⟩
  obtain ⟨bb, hbb, hholds⟩ := hflush
  have hsize : bb.getBytes.length = (bb.getBitLength + 7) / 8 := by
    show bb.data.length = (bb.bitLength + 7) / 8
    rw [hholds.tight, hholds.length]
  refine ⟨⟨k.mode, s.charCount, bb.getBytes, bb.getBitLength, hsize⟩, ?_, rfl, ?_, hholds.bits_eq rfl rfl⟩
  · unfold Packing.make
    rw [hloop]
    show (s.flush k >>= fun bb => QrSegment.new k.mode s.charCount bb.getBytes bb.getBitLength) = _
    rw [hbb]
    show QrSegment.new k.mode s.charCount bb.getBytes bb.getBitLength = _
    unfold QrSegment.new
    rw [dif_pos hsize]
  · show s.charCount = _
    rw [hcount]
    exact Nat.zero_add _

/-- A scanner reads the segment as this text. -/
def Reads (seg : QrSegment) (text : List Byte) : Prop :=
  ∃ (a : Alphabet) (vs : List ℕ), announced seg.mode.modeBits = some (seg.mode, a) ∧ a.Wide ∧
    (∀ v ∈ vs, v < a.base) ∧ vs.map a.char = text ∧ seg.numChars = vs.length ∧ seg.bits = packedBits a vs

theorem digits_packs : Packs digits numericAlphabet where
  wide := ⟨by decide, by decide, by decide, fun n h h' => by
    have hcases : n = 1 ∨ n = 2 := by
      have h3 : n < 3 := h'
      omega
    rcases hcases with rfl | rfl <;> decide⟩
  base := rfl
  group := rfl
  width := rfl
  width_le := by decide
  rest := fun n h h' => by
    have hcases : n = 1 ∨ n = 2 := by
      have h3 : n < 3 := h'
      omega
    rcases hcases with rfl | rfl <;> rfl
  rest_le := fun n _ _ => by
    show (if n = 1 then 4 else 7) ≤ 32
    split_ifs <;> omega

theorem characters_packs : Packs characters alphanumericAlphabet where
  wide := ⟨by decide, by decide, by decide, fun n h h' => by
    have h2 : n < 2 := h'
    obtain rfl : n = 1 := by omega
    decide⟩
  base := rfl
  group := rfl
  width := rfl
  width_le := by decide
  rest := fun _ _ _ => rfl
  rest_le := fun _ _ _ => by
    show 6 ≤ 32
    omega

/-- Packed characters that the alphabet has are read as they were. -/
theorem make_reads (hk : Packs k a) (hmode : announced k.mode.modeBits = some (k.mode, a)) (code : Byte → ℕ)
    (hcs : ∀ c ∈ cBytes text, k.value c = .ok (code c : ℤ) ∧ code c < a.base ∧ a.char (code c) = c) :
    ∃ seg, k.make text = .ok seg ∧ Reads seg (cBytes text) := by
  obtain ⟨seg, hmake, hmd, hnum, hbits⟩ := make_spec hk fun c hc => ⟨(hcs c hc).1, (hcs c hc).2.1⟩
  refine ⟨seg, hmake, a, (cBytes text).map code, by rw [hmd, hmode], hk.wide, ?_, ?_, by rw [hnum, List.length_map],
    hbits⟩
  · intro v hv
    obtain ⟨c, hc, rfl⟩ := List.mem_map.1 hv
    exact (hcs c hc).2.1
  · have hsame : (cBytes text).map (a.char ∘ code) = (cBytes text).map id :=
      List.map_congr_left fun c hc => (hcs c hc).2.2
    rw [List.map_map, hsame, List.map_id]

theorem makeNumeric_reads (h : isNumeric text = true) :
    ∃ seg, makeNumeric text = .ok seg ∧ Reads seg (cBytes text) := by
  refine make_reads digits_packs rfl (fun c => c.toNat - 48) fun c hc => ?_
  have hdigit := List.all_eq_true.1 h c hc
  have hrange : 48 ≤ c.toNat ∧ c.toNat ≤ 57 := by
    simp only [Bool.not_eq_true', Bool.or_eq_false_iff, decide_eq_false_iff_not, not_lt] at hdigit
    exact hdigit
  refine ⟨?_, ?_, ?_⟩
  · show (if c.toNat < 48 ∨ 57 < c.toNat then _ else Except.ok ((c.toNat : ℤ) - (48 : ℕ))) = _
    rw [if_neg (by omega), Nat.cast_sub hrange.1]
  · show c.toNat - 48 < 10
    omega
  · show BitVec.ofNat 8 (c.toNat - 48 + 48) = c
    rw [Nat.sub_add_cancel hrange.1, BitVec.ofNat_toNat, BitVec.setWidth_eq]

/-- The table and the characters of the mode belong together. -/
theorem alphanumericCode_spec (c : Byte) (h : ¬(c.toNat < 32 ∨ 90 < c.toNat ∨ alphanumericCode c = -1)) :
    0 ≤ alphanumericCode c ∧ alphanumericCode c < 45 ∧
      alphanumericAlphabet.char (alphanumericCode c).toNat = c := by
  have hall : ∀ n < 256, ¬(n < 32 ∨ 90 < n ∨ alphanumericCode (BitVec.ofNat 8 n) = -1) →
      0 ≤ alphanumericCode (BitVec.ofNat 8 n) ∧ alphanumericCode (BitVec.ofNat 8 n) < 45 ∧
        alphanumericAlphabet.char (alphanumericCode (BitVec.ofNat 8 n)).toNat = BitVec.ofNat 8 n := by
    decide +kernel
  have hc := hall c.toNat c.isLt
  rw [BitVec.ofNat_toNat, BitVec.setWidth_eq] at hc
  exact hc h

theorem makeAlphanumeric_reads (h : isAlphanumeric text = true) :
    ∃ seg, makeAlphanumeric text = .ok seg ∧ Reads seg (cBytes text) := by
  refine make_reads characters_packs rfl (fun c => (alphanumericCode c).toNat) fun c hc => ?_
  have hchar := List.all_eq_true.1 h c hc
  have hvalid : ¬(c.toNat < 32 ∨ 90 < c.toNat ∨ alphanumericCode c = -1) := by
    simp only [Bool.not_eq_true', Bool.or_eq_false_iff, decide_eq_false_iff_not] at hchar
    rintro (h1 | h1 | h1)
    · exact hchar.1.1 h1
    · exact hchar.1.2 h1
    · exact hchar.2 h1
  obtain ⟨hnonneg, hlt, hspell⟩ := alphanumericCode_spec c hvalid
  refine ⟨?_, ?_, hspell⟩
  · show (if c.toNat < 32 ∨ 90 < c.toNat then _ else Except.ok (alphanumericCode c)) = _
    rw [if_neg (by tauto), Int.toNat_of_nonneg hnonneg]
  · show (alphanumericCode c).toNat < 45
    omega

theorem byteAlphabet_wide : byteAlphabet.Wide :=
  ⟨by decide, by decide, by decide, fun n h h' => by
    have h1 : n < 1 := h'
    omega⟩

/-- Bytes are characters of one byte. -/
theorem packedBits_bytes (data : List Byte) : packedBits byteAlphabet (data.map BitVec.toNat) = bytesBits data := by
  induction data with
  | nil => rw [List.map_nil, packedBits_short (by decide)]; rfl
  | cons b data ih =>
    rw [List.map_cons]
    have hone := packedBits_group byteAlphabet_wide (show [b.toNat].length = byteAlphabet.group from rfl)
      (data.map BitVec.toNat)
    rw [List.singleton_append] at hone
    rw [hone, ih, bytesBits_cons]
    simp [num, byteAlphabet, byteBits]

theorem makeBytes_reads (data : List Byte) : ∃ seg, makeBytes data = .ok seg ∧ Reads seg data := by
  have hsize : data.length = (data.length * 8 + 7) / 8 := by omega
  have hlen : (bytesBits data).length = 8 * data.length := length_bytesBits data
  have hholds : Holds { data := data, bitLength := data.length * 8 } (bytesBits data) := by
    refine ⟨⟨?_, ?_⟩, ?_⟩
    · show data.length * 8 = _
      rw [hlen, Nat.mul_comm]
    · rw [hlen, Nat.sub_self, List.replicate_zero, List.append_nil]
    · show data.length = _
      rw [hlen]
      omega
  refine ⟨⟨.BYTE, data.length, data, data.length * 8, hsize⟩, dif_pos hsize, byteAlphabet, data.map BitVec.toNat, rfl,
    byteAlphabet_wide, ?_, ?_, by simp, ?_⟩
  · intro v hv
    obtain ⟨b, -, rfl⟩ := List.mem_map.1 hv
    exact b.isLt
  · rw [List.map_map]
    exact List.map_id'' (fun b : Byte => by simp [byteAlphabet]) data
  · rw [packedBits_bytes]
    exact hholds.bits_eq rfl rfl

/-- How many bits the length field has. -/
def Mode.countBits (version : ℕ) (md : Mode) : ℕ := (md.numCharCountBits version).toOption.getD 0

/-- The modes that there are. -/
def Mode.Known (md : Mode) : Prop := md = .NUMERIC ∨ md = .ALPHANUMERIC ∨ md = .BYTE ∨ md = .KANJI

/-- The bits of a segment with its header. -/
def QrSegment.encoded (version : ℕ) (seg : QrSegment) : List Bool :=
  field 4 seg.mode.modeBits ++ field (seg.mode.countBits version) seg.numChars ++ seg.bits

/-- The number of characters fits its field. -/
def QrSegment.Fits (version : ℕ) (seg : QrSegment) : Prop := seg.numChars < 2 ^ seg.mode.countBits version

theorem numCharCountBits_ok (hv : 1 ≤ version) (hv' : version ≤ 40) (md : Mode) :
    md.numCharCountBits version = .ok (md.countBits version) := by
  unfold Mode.countBits Mode.numCharCountBits
  split_ifs <;> first | rfl | omega

theorem Mode.Known.bounds {md : Mode} (h : md.Known) (version : ℕ) : md.modeBits < 16 ∧ md.countBits version ≤ 32 := by
  unfold Mode.countBits Mode.numCharCountBits
  rcases h with rfl | rfl | rfl | rfl <;> refine ⟨by decide, ?_⟩ <;> split_ifs <;> decide

theorem length_encoded (version : ℕ) (seg : QrSegment) :
    (seg.encoded version).length = 4 + seg.mode.countBits version + seg.bitLength := by
  simp only [QrSegment.encoded, QrSegment.bits, List.length_append, length_field, List.length_map, List.length_range]

theorem getTotalBits_go (hv : 1 ≤ version) (hv' : version ≤ 40) (segs : List QrSegment) (result : ℤ) :
    (getTotalBits.go version segs result = .ok (-1) ∧ ¬∀ seg ∈ segs, seg.Fits version) ∨
      (getTotalBits.go version segs result = .ok (result + (segs.flatMap (QrSegment.encoded version)).length) ∧
        ∀ seg ∈ segs, seg.Fits version) := by
  induction segs generalizing result with
  | nil => exact Or.inr ⟨by simp [getTotalBits.go], by simp⟩
  | cons seg segs ih =>
    have hgo : getTotalBits.go version (seg :: segs) result =
        if 1 <<< seg.mode.countBits version ≤ seg.numChars then .ok (-1)
        else getTotalBits.go version segs (result + 4 + seg.mode.countBits version + seg.bitLength) := by
      rw [getTotalBits.go, numCharCountBits_ok hv hv']
      rfl
    rw [hgo, Nat.one_shiftLeft, List.forall_mem_cons, List.flatMap_cons, List.length_append, length_encoded]
    by_cases hfits : seg.Fits version
    · rw [if_neg (not_le.2 hfits)]
      rcases ih (result + 4 + seg.mode.countBits version + seg.bitLength) with ⟨hminus, hnot⟩ | ⟨hsum, hall⟩
      · exact Or.inl ⟨hminus, fun h => hnot h.2⟩
      · refine Or.inr ⟨?_, hfits, hall⟩
        rw [hsum]
        congr 1
        push_cast
        ring
    · exact Or.inl ⟨if_pos (not_lt.1 hfits), fun h => hfits h.1⟩

/-- **The bits that the segments need**, unless one is too long for its length field. -/
theorem getTotalBits_spec (hv : 1 ≤ version) (hv' : version ≤ 40) (segs : List QrSegment) :
    (getTotalBits segs version = .ok (-1) ∧ ¬∀ seg ∈ segs, seg.Fits version) ∨
      (getTotalBits segs version = .ok ((segs.flatMap (QrSegment.encoded version)).length : ℤ) ∧
        ∀ seg ∈ segs, seg.Fits version) := by
  have hgo := getTotalBits_go hv hv' segs 0
  unfold getTotalBits
  rw [if_neg (by omega)]
  simpa using hgo

theorem Holds.appendSegment (h : Holds bb bits) (hv : 1 ≤ version) (hv' : version ≤ 40) (hknown : seg.mode.Known)
    (hfits : seg.Fits version) : ∃ bb', bb.appendSegment version seg = .ok bb' ∧
      Holds bb' (bits ++ seg.encoded version) := by
  obtain ⟨hmode, hcount⟩ := hknown.bounds version
  obtain ⟨bb₁, hbb₁, h₁⟩ := h.appendBits (show seg.mode.modeBits < 2 ^ 4 from hmode) (by omega)
  obtain ⟨bb₂, hbb₂, h₂⟩ := h₁.appendBits hfits hcount
  refine ⟨bb₂.appendData seg, ?_, ?_⟩
  · unfold BitBuffer.appendSegment
    show (bb.appendBits seg.mode.modeBits ((4 : ℕ) : ℤ) >>= fun _ => _) = _
    rw [hbb₁]
    show (seg.mode.numCharCountBits version >>= fun cc => bb₁.appendBits seg.numChars cc >>= fun bb =>
      pure (bb.appendData seg)) = _
    rw [numCharCountBits_ok hv hv']
    show (bb₁.appendBits seg.numChars (seg.mode.countBits version : ℕ) >>= fun _ => _) = _
    rw [hbb₂]
    rfl
  · have hdata := h₂.appendData seg
    unfold QrSegment.encoded
    simpa only [List.append_assoc] using hdata

theorem Holds.appendSegments (h : Holds bb bits) (hv : 1 ≤ version) (hv' : version ≤ 40)
    (hknown : ∀ seg ∈ segs, seg.mode.Known) (hfits : ∀ seg ∈ segs, seg.Fits version) :
    ∃ bb', segs.foldlM (BitBuffer.appendSegment version) bb = .ok bb' ∧
      Holds bb' (bits ++ segs.flatMap (QrSegment.encoded version)) := by
  induction segs generalizing bb bits with
  | nil => exact ⟨bb, rfl, by simpa using h⟩
  | cons seg segs ih =>
    obtain ⟨hknown₁, hknown₂⟩ := List.forall_mem_cons.1 hknown
    obtain ⟨hfits₁, hfits₂⟩ := List.forall_mem_cons.1 hfits
    obtain ⟨bb₁, hbb₁, h₁⟩ := h.appendSegment hv hv' hknown₁ hfits₁
    obtain ⟨bb₂, hbb₂, h₂⟩ := ih h₁ hknown₂ hfits₂
    refine ⟨bb₂, ?_, ?_⟩
    · rw [List.foldlM_cons, hbb₁]
      exact hbb₂
    · rw [List.flatMap_cons, ← List.append_assoc]
      exact h₂

/-! ### Reading them -/

/-- A scanner reads no segment from here on. -/
def Ends (bits : List Bool) : Prop := readField 4 bits = none ∨ ∃ rest, readField 4 bits = some (0, rest)

theorem readSegments_ends (h : Ends bits) (fuel : ℕ) : readSegments version fuel bits = some [] := by
  cases fuel with
  | zero => rfl
  | succ fuel =>
    unfold readSegments
    rcases h with hnone | ⟨rest, hzero⟩
    · rw [hnone]
    · rw [hzero]
      rfl

theorem Reads.known (h : Reads seg text) : seg.mode.Known ∧ seg.mode.modeBits ≠ 0 := by
  obtain ⟨a, vs, hannounced, -⟩ := h
  unfold announced at hannounced
  unfold Mode.Known
  split_ifs at hannounced with h1 h2 h4
  · have hmode := congrArg Prod.fst (Option.some.inj hannounced)
    exact ⟨Or.inl hmode.symm, by omega⟩
  · have hmode := congrArg Prod.fst (Option.some.inj hannounced)
    exact ⟨Or.inr (Or.inl hmode.symm), by omega⟩
  · have hmode := congrArg Prod.fst (Option.some.inj hannounced)
    exact ⟨Or.inr (Or.inr (Or.inl hmode.symm)), by omega⟩

/-- **A list of segments is read back.** -/
theorem readSegments_encoded {texts : List (List Byte)} (hv : 1 ≤ version) (hv' : version ≤ 40)
    (hreads : List.Forall₂ Reads segs texts) (hfits : ∀ seg ∈ segs, seg.Fits version) (hends : Ends bits) {fuel : ℕ}
    (hfuel : segs.length ≤ fuel) :
    readSegments version fuel (segs.flatMap (QrSegment.encoded version) ++ bits) = some texts.flatten := by
  induction hreads generalizing fuel with
  | nil => exact readSegments_ends hends fuel
  | @cons seg text segs texts hseg hrest ih =>
    obtain ⟨hfits₁, hfits₂⟩ := List.forall_mem_cons.1 hfits
    obtain ⟨hknown, hne⟩ := hseg.known
    obtain ⟨a, vs, hannounced, hwide, hsmall, rfl, hnum, hbits⟩ := hseg
    obtain ⟨fuel, rfl⟩ : ∃ n, fuel = n + 1 := Nat.exists_eq_add_one.2 (by simp at hfuel; omega)
    have hnext := ih hfits₂ (show segs.length ≤ fuel by simpa using hfuel)
    have hmode : seg.mode.modeBits < 2 ^ 4 := (hknown.bounds version).1
    have hfield := readField_field hmode (field (seg.mode.countBits version) seg.numChars ++
      (packedBits a vs ++ (segs.flatMap (QrSegment.encoded version) ++ bits)))
    have hcount := readField_field hfits₁ (packedBits a vs ++ (segs.flatMap (QrSegment.encoded version) ++ bits))
    have hread := read_packed hwide hsmall (segs.flatMap (QrSegment.encoded version) ++ bits)
    rw [← hnum] at hread
    have hsplit : (seg :: segs).flatMap (QrSegment.encoded version) ++ bits =
        field 4 seg.mode.modeBits ++ (field (seg.mode.countBits version) seg.numChars ++
          (packedBits a vs ++ (segs.flatMap (QrSegment.encoded version) ++ bits))) := by
      rw [List.flatMap_cons, QrSegment.encoded, hbits]
      simp only [List.append_assoc]
    rw [hsplit, readSegments, hfield]
    simp only [hannounced, numCharCountBits_ok hv hv', Except.toOption, Option.bind_eq_bind, Option.bind_some, hcount,
      hread, hnext]
    rfl

/-! ### Padding -/

theorem Holds.padded (h : Holds bb bits) {capacity : ℕ} (hle : bits.length ≤ 8 * capacity) (hdvd : bits.length % 8 = 0)
    {fuel : ℕ} (hfuel : 8 * capacity ≤ bits.length + fuel) (padByte : Byte) :
    ∃ bb' new, bb.pad (8 * capacity) fuel padByte = .ok bb' ∧ Holds bb' (bits ++ new) ∧
      (bits ++ new).length = 8 * capacity := by
  induction fuel generalizing bb bits padByte with
  | zero => exact ⟨bb, [], rfl, by simpa using h, by simp; omega⟩
  | succ fuel ih =>
    unfold BitBuffer.pad
    show ∃ bb' new, (if bb.bitLength < 8 * capacity then _ else _) = _ ∧ _
    by_cases hlt : bits.length < 8 * capacity
    · obtain ⟨bb₁, hbb₁, h₁⟩ := h.appendBits (show padByte.toNat < 2 ^ 8 from padByte.isLt) (by omega)
      have hlen : (bits ++ field 8 padByte.toNat).length = bits.length + 8 := by simp
      obtain ⟨bb₂, new, hbb₂, h₂, hfull⟩ := ih h₁ (by omega) (by omega) (by omega) (padByte ^^^ (0xEC ^^^ 0x11))
      rw [List.append_assoc] at h₂ hfull
      refine ⟨bb₂, _, ?_, h₂, hfull⟩
      rw [if_pos (by rw [h.length]; exact hlt)]
      show (bb.appendBits padByte.toNat ((8 : ℕ) : ℤ) >>= fun bb => bb.pad _ fuel _) = _
      rw [hbb₁]
      exact hbb₂
    · rw [if_neg (by rw [h.length]; exact hlt)]
      exact ⟨bb, [], rfl, by simpa using h, by simp; omega⟩

/-- **The buffer is filled up**, with bits that end the segments. -/
theorem Holds.finish (h : Holds bb bits) {capacity : ℕ} (hle : bits.length ≤ 8 * capacity) :
    ∃ bb' tail, bb.finish (8 * capacity) = .ok bb' ∧ Holds bb' (bits ++ tail) ∧
      (bits ++ tail).length = 8 * capacity ∧ Ends tail := by
  obtain ⟨k, hk⟩ : ∃ k, k = min 4 (8 * capacity - bits.length) := ⟨_, rfl⟩
  have hterminator : min 4 (((8 * capacity : ℕ) : ℤ) - bb.getBitLength) = (k : ℤ) := by
    show min 4 (((8 * capacity : ℕ) : ℤ) - bb.bitLength) = _
    rw [h.length]
    omega
  obtain ⟨bb₁, hbb₁, h₁⟩ := h.appendBits (Nat.two_pow_pos k) (show k ≤ 32 by omega)
  obtain ⟨l, hl⟩ : ∃ l, l = (8 - bb₁.getBitLength % 8) % 8 := ⟨_, rfl⟩
  obtain ⟨bb₂, hbb₂, h₂⟩ := h₁.appendBits (Nat.two_pow_pos l) (show l ≤ 32 by omega)
  have hlen₁ : (bits ++ field k 0).length = bits.length + k := by simp
  have hlen₂ : (bits ++ field k 0 ++ field l 0).length = bits.length + k + l := by
    rw [List.length_append, hlen₁, length_field]
  have hbyte : l = (8 - (bits.length + k) % 8) % 8 := by
    rw [hl, ← hlen₁, ← h₁.length]
    rfl
  obtain ⟨bb₃, new, hbb₃, h₃, hfull⟩ := h₂.padded (show _ ≤ 8 * capacity by omega) (by omega)
    (show 8 * capacity ≤ _ + 8 * capacity by omega) 0xEC
  refine ⟨bb₃, field k 0 ++ (field l 0 ++ new), ?_, ?_, ?_, ?_⟩
  · unfold BitBuffer.finish
    rw [hterminator, hbb₁]
    show (bb₁.appendBits 0 ((8 - bb₁.getBitLength % 8) % 8 : ℕ) >>= fun bb => bb.pad _ _ _) = _
    rw [← hl, hbb₂]
    exact hbb₃
  · simpa only [List.append_assoc] using h₃
  · simpa only [List.append_assoc] using hfull
  · rw [List.length_append, hlen₂] at hfull
    by_cases hroom : 4 ≤ 8 * capacity - bits.length
    · obtain rfl : k = 4 := by omega
      exact Or.inr ⟨field l 0 ++ new, readField_field (Nat.two_pow_pos 4) _⟩
    · refine Or.inl (if_neg ?_)
      rw [List.length_append, List.length_append, length_field, length_field]
      omega

end Noobs.Qrcodegen
