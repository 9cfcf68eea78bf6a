import Noobs.Lib.Rows
import Noobs.Proof.QrField
import Noobs.Proof.QrSegment

/-!
# Blocks

`appendErrorCorrection` cuts the data into blocks, gives each its error correction, and
interleaves them.

* `blocksOf_good`: the tables fit together, in every version and on every level.
* `appendErrorCorrection_ok`: **its assertions hold**, and the blocks are read back.
* `blocks_correctable`: **damage to half as many codewords** of a block as it has for error
  correction leaves no doubt about its data.
-/

namespace Noobs.Qrcodegen

open Bits Gf2 ReedSolomon Rows

variable {version : ℕ} {ecl : Ecc} {b : Blocks} {data : List Byte} {total : ℕ}

theorem ok_bind {α β : Type} (a : α) (f : α → Except String β) : (.ok a >>= f) = f a := rfl

/-! ## Tables -/

/-- How many modules of a version carry data. -/
def rawModules (version : ℕ) : ℕ := (getNumRawDataModules version).toOption.getD 0

/-- How many codewords of a symbol carry data. -/
def dataCodewords (version : ℕ) (ecl : Ecc) : ℕ :=
  rawModules version / 8 - numErrorCorrectionCodewords version ecl

theorem getNumRawDataModules_ok (hv : 1 ≤ version) (hv' : version ≤ 40) :
    getNumRawDataModules version = .ok (rawModules version) := by
  unfold rawModules getNumRawDataModules
  rw [if_neg (by omega)]
  simp only
  split_ifs <;> rfl

theorem getNumDataCodewords_ok (hv : 1 ≤ version) (hv' : version ≤ 40) (ecl : Ecc) :
    getNumDataCodewords version ecl = .ok (dataCodewords version ecl) := by
  unfold getNumDataCodewords
  rw [if_neg (by omega), getNumRawDataModules_ok hv hv']
  rfl

/-- The numbers of the blocks fit together. -/
structure Blocks.Good (b : Blocks) (total : ℕ) : Prop where
  short_pos : 0 < b.numShortBlocks
  short_le : b.numShortBlocks ≤ b.numBlocks
  ecc_pos : 0 < b.blockEccLen
  ecc_lt : b.blockEccLen < b.shortBlockLen
  len_lt : b.shortBlockLen < 255
  total : b.numBlocks * b.shortBlockLen + (b.numBlocks - b.numShortBlocks) = total

/-- **The tables fit together.** -/
theorem blocksOf_good (hv : 1 ≤ version) (hv' : version ≤ 40) (ecl : Ecc) :
    (blocksOf version ecl).Good (rawModules version / 8) ∧
      numErrorCorrectionCodewords version ecl =
        (blocksOf version ecl).blockEccLen * (blocksOf version ecl).numBlocks := by
  have hall : ∀ v < 41, 1 ≤ v → ∀ ecl ∈ [Ecc.LOW, .MEDIUM, .QUARTILE, .HIGH], let b := blocksOf v ecl
      (0 < b.numShortBlocks ∧ b.numShortBlocks ≤ b.numBlocks ∧ 0 < b.blockEccLen ∧ b.blockEccLen < b.shortBlockLen ∧
        b.shortBlockLen < 255 ∧
          b.numBlocks * b.shortBlockLen + (b.numBlocks - b.numShortBlocks) = rawModules v / 8) ∧
        numErrorCorrectionCodewords v ecl = b.blockEccLen * b.numBlocks := by
    decide +kernel
  have hmem : ecl ∈ [Ecc.LOW, .MEDIUM, .QUARTILE, .HIGH] := by cases ecl <;> decide
  obtain ⟨⟨h1, h2, h3, h4, h5, h6⟩, htotal⟩ := hall version (by omega) hv ecl hmem
  exact ⟨⟨h1, h2, h3, h4, h5, h6⟩, htotal⟩

theorem Blocks.Good.pos (h : b.Good total) : 0 < b.numBlocks := h.short_pos.trans_le h.short_le

/-! ## Cutting -/

/-- The lengths of the blocks' data. -/
def Blocks.dataLens (b : Blocks) : List ℕ := (List.range b.numBlocks).map b.dataLen

theorem sum_dataLen (b : Blocks) (n : ℕ) :
    ((List.range n).map b.dataLen).sum = n * b.shortDataLen + (n - b.numShortBlocks) := by
  induction n with
  | zero => simp
  | succ n ih =>
    have hsucc : (n + 1) * b.shortDataLen = n * b.shortDataLen + b.shortDataLen := by ring
    have hlast : b.dataLen n = b.shortDataLen + if n < b.numShortBlocks then 0 else 1 := rfl
    rw [List.range_succ, List.map_append, List.sum_append, ih, List.map_singleton, List.sum_singleton, hlast, hsucc]
    split_ifs <;> omega

/-- The error correction of some data. -/
def eccWord (n : ℕ) (dat : List Byte) : List Byte :=
  (remainder (generator (root (0x1D : Byte)) n) (dat.map Residue.mk : List Field256)).map Residue.bits

/-- Block `j` with this data, and padding if it is a short one. -/
def Blocks.block (b : Blocks) (j : ℕ) (dat : List Byte) : List Byte :=
  dat ++ (if j < b.numShortBlocks then [0] else []) ++ eccWord b.blockEccLen dat

theorem length_eccWord {n : ℕ} (hn : 0 < n) (dat : List Byte) : (eccWord n dat).length = n := by
  unfold eccWord
  rw [List.length_map, length_remainder, length_generator hn]

theorem getRemainder_word (n : ℕ) (dat : List Byte) :
    getRemainder ((generator (root (0x1D : Byte)) n).map Residue.bits) dat = .ok (eccWord n dat) := by
  have hsame : (dat.map Residue.mk : List Field256).map Residue.bits = dat := by
    rw [List.map_map]
    exact List.map_id dat
  have hword := getRemainder_eq (generator (root (0x1D : Byte)) n) (dat.map Residue.mk : List Field256)
  rwa [hsame] at hword

theorem splitBlocks_eq (b : Blocks) (n i : ℕ) (data : List Byte) :
    splitBlocks b ((generator (root (0x1D : Byte)) b.blockEccLen).map Residue.bits) n i data =
      .ok (List.zipWith b.block (List.range' i n) (slices ((List.range' i n).map b.dataLen) data)) := by
  induction n generalizing i data with
  | zero => rfl
  | succ n ih =>
    have hword := getRemainder_word b.blockEccLen (data.take (b.dataLen i))
    simp only [splitBlocks, hword, ih]
    rfl

/-- The data of block `j`. -/
def Blocks.slice (b : Blocks) (data : List Byte) (j : ℕ) : List Byte := (slices b.dataLens data).getD j []

theorem length_slice' (h : data.length = b.dataLens.sum) {j : ℕ} (hj : j < b.numBlocks) :
    (b.slice data j).length = b.dataLen j := by
  have hlen := length_slice h j
  unfold Blocks.slice
  rw [hlen, Blocks.dataLens, List.getD_eq_getElem _ _ (by simpa using hj), List.getElem_map, List.getElem_range]

theorem flatten_slice (h : data.length = b.dataLens.sum) :
    (List.range b.numBlocks).flatMap (b.slice data) = data := by
  have hlen : (slices b.dataLens data).length = b.numBlocks := by simp [Blocks.dataLens]
  have hlist : (List.range b.numBlocks).map (b.slice data) = slices b.dataLens data := by
    refine List.ext_getElem (by simp [hlen]) fun j hj hj' => ?_
    rw [List.getElem_map, List.getElem_range]
    exact List.getD_eq_getElem _ _ hj'
  rw [List.flatMap_def, hlist, flatten_slices h]

/-- The blocks of some data. -/
def Blocks.all (b : Blocks) (data : List Byte) : List (List Byte) :=
  List.zipWith b.block (List.range b.numBlocks) (slices b.dataLens data)

theorem all_getD {j : ℕ} (hj : j < b.numBlocks) : (b.all data).getD j [] = b.block j (b.slice data j) := by
  have hlen : (slices b.dataLens data).length = b.numBlocks := by simp [Blocks.dataLens]
  unfold Blocks.all Blocks.slice
  rw [List.getD_eq_getElem _ _ (by simp [hlen, hj]), List.getElem_zipWith, List.getElem_range,
    List.getD_eq_getElem _ _ (by omega)]

theorem length_block (h : b.Good total) (hdata : data.length = b.dataLens.sum) {j : ℕ} (hj : j < b.numBlocks) :
    (b.block j (b.slice data j)).length = b.shortDataLen + 1 + b.blockEccLen := by
  have hslice := length_slice' hdata hj
  have hlen : b.dataLen j = b.shortDataLen + if j < b.numShortBlocks then 0 else 1 := rfl
  unfold Blocks.block
  rw [List.length_append, List.length_append, hslice, length_eccWord h.ecc_pos, hlen]
  split_ifs <;> simp

/-! ## Interleaving -/

variable {blocks : List (List Byte)}

/-- Codeword `i` of all blocks. -/
def interleavedRow (b : Blocks) (blocks : List (List Byte)) (i : ℕ) : List Byte :=
  (List.range b.numBlocks).map fun j => (blocks.getD j []).getD i 0

/-- The data codeword that the short blocks do not have. -/
def longRow (b : Blocks) (blocks : List (List Byte)) : List Byte :=
  (List.range (b.numBlocks - b.numShortBlocks)).map fun j =>
    (blocks.getD (b.numShortBlocks + j) []).getD b.shortDataLen 0

theorem interleave_eq (h : b.Good total) (hcount : blocks.length = b.numBlocks)
    (hlen : (blocks.headD []).length = b.shortDataLen + 1 + b.blockEccLen) :
    interleave b blocks = (List.range b.shortDataLen).flatMap (interleavedRow b blocks) ++ longRow b blocks ++
      (List.range b.blockEccLen).flatMap fun i => interleavedRow b blocks (b.shortDataLen + 1 + i) := by
  let row : ℕ → List Byte := fun i => (List.range b.numBlocks).flatMap fun j =>
    if i ≠ b.shortDataLen ∨ b.numShortBlocks ≤ j then [(blocks.getD j []).getD i 0] else []
  have hrow : ∀ i, i ≠ b.shortDataLen → row i = interleavedRow b blocks i := by
    intro i hi
    simp only [row, hi, ne_eq, not_false_eq_true, true_or, if_true]
    exact (List.map_eq_flatMap).symm
  have hlong : row b.shortDataLen = longRow b blocks := by
    have hcut : b.numBlocks = b.numShortBlocks + (b.numBlocks - b.numShortBlocks) := by
      have := h.short_le
      omega
    have hnone : ((List.range b.numShortBlocks).flatMap fun j =>
        if b.numShortBlocks ≤ j then [(blocks.getD j []).getD b.shortDataLen 0] else []) = [] := by
      refine List.flatMap_eq_nil_iff.2 fun j hj => if_neg ?_
      rw [List.mem_range] at hj
      omega
    simp only [row, ne_eq, not_true_eq_false, false_or]
    rw [hcut, List.range_add, List.flatMap_append, hnone, List.nil_append, List.flatMap_map]
    simp only [Nat.le_add_right, if_true]
    rw [← List.map_eq_flatMap]
    rfl
  have hfirst : (List.range b.shortDataLen).flatMap row = (List.range b.shortDataLen).flatMap (interleavedRow b blocks) :=
    List.flatMap_congr fun i hi => hrow i (by rw [List.mem_range] at hi; omega)
  have hecc : (List.range b.blockEccLen).flatMap (fun i => row (b.shortDataLen + 1 + i)) =
      (List.range b.blockEccLen).flatMap fun i => interleavedRow b blocks (b.shortDataLen + 1 + i) :=
    List.flatMap_congr fun i _ => hrow _ (by omega)
  have hall : interleave b blocks = (List.range (b.shortDataLen + 1 + b.blockEccLen)).flatMap row := by
    unfold interleave
    rw [hlen, hcount]
    rfl
  rw [hall, List.range_add, List.flatMap_append, List.range_succ, List.flatMap_append, List.flatMap_singleton, hfirst,
    hlong, List.flatMap_map, hecc]

theorem length_interleavedRow (i : ℕ) : (interleavedRow b blocks i).length = b.numBlocks := by simp [interleavedRow]

theorem interleavedRow_getElem? {j : ℕ} (hj : j < b.numBlocks) (i : ℕ) :
    (interleavedRow b blocks i)[j]? = some ((blocks.getD j []).getD i 0) := by
  unfold interleavedRow
  rw [List.getElem?_map, List.getElem?_range hj]
  rfl

section
variable (h : b.Good total) (hcount : blocks.length = b.numBlocks)
  (hlen : (blocks.headD []).length = b.shortDataLen + 1 + b.blockEccLen)
include h hcount hlen

theorem length_interleave : (interleave b blocks).length = total := by
  have hecc := h.ecc_lt
  have htotal := h.total
  have hshort : b.shortBlockLen = b.shortDataLen + b.blockEccLen := by
    unfold Blocks.shortDataLen
    omega
  have hlong : (longRow b blocks).length = b.numBlocks - b.numShortBlocks := by simp [longRow]
  rw [interleave_eq h hcount hlen, List.length_append, List.length_append,
    length_rows fun i _ => length_interleavedRow i, length_rows fun i _ => length_interleavedRow _, hlong]
  rw [hshort, Nat.mul_add, Nat.mul_comm, Nat.mul_comm b.numBlocks] at htotal
  omega

theorem dataIndex_getElem? {j i : ℕ} (hj : j < b.numBlocks) (hi : i < b.dataLen j) :
    (interleave b blocks)[b.dataIndex j i]? = some ((blocks.getD j []).getD i 0) := by
  have hdata : b.dataLen j = b.shortDataLen + if j < b.numShortBlocks then 0 else 1 := rfl
  have hrows : ((List.range b.shortDataLen).flatMap (interleavedRow b blocks)).length = b.shortDataLen * b.numBlocks :=
    length_rows fun i _ => length_interleavedRow i
  have hlong : (longRow b blocks).length = b.numBlocks - b.numShortBlocks := by simp [longRow]
  rw [interleave_eq h hcount hlen]
  unfold Blocks.dataIndex
  by_cases hshort : i < b.shortDataLen
  · have hin : i * b.numBlocks + j < b.shortDataLen * b.numBlocks := by
      calc i * b.numBlocks + j < i * b.numBlocks + b.numBlocks := by omega
        _ = (i + 1) * b.numBlocks := by ring
        _ ≤ b.shortDataLen * b.numBlocks := Nat.mul_le_mul_right _ hshort
    rw [if_pos hshort, List.append_assoc, List.getElem?_append_left (by omega),
      getElem?_rows (fun i _ => length_interleavedRow i) hshort hj, interleavedRow_getElem? hj]
  · have hblock : ¬j < b.numShortBlocks := by
      intro hlt
      rw [hdata, if_pos hlt] at hi
      omega
    rw [hdata, if_neg hblock] at hi
    obtain rfl : i = b.shortDataLen := by omega
    have hback : b.numShortBlocks + (j - b.numShortBlocks) = j := by omega
    rw [if_neg hshort, List.append_assoc, List.getElem?_append_right (by omega), hrows, Nat.add_sub_cancel_left,
      List.getElem?_append_left (by omega)]
    unfold longRow
    rw [List.getElem?_map, List.getElem?_range (by omega), Option.map_some, hback]

theorem eccIndex_getElem? {j i : ℕ} (hj : j < b.numBlocks) (hi : i < b.blockEccLen) :
    (interleave b blocks)[b.eccIndex j i]? = some ((blocks.getD j []).getD (b.shortDataLen + 1 + i) 0) := by
  have hrows : ((List.range b.shortDataLen).flatMap (interleavedRow b blocks)).length = b.shortDataLen * b.numBlocks :=
    length_rows fun i _ => length_interleavedRow i
  have hlong : (longRow b blocks).length = b.numBlocks - b.numShortBlocks := by simp [longRow]
  have hfront : ((List.range b.shortDataLen).flatMap (interleavedRow b blocks) ++ longRow b blocks).length =
      b.shortDataLen * b.numBlocks + (b.numBlocks - b.numShortBlocks) := by rw [List.length_append, hrows, hlong]
  have hindex : b.eccIndex j i - (b.shortDataLen * b.numBlocks + (b.numBlocks - b.numShortBlocks)) =
      i * b.numBlocks + j := by
    unfold Blocks.eccIndex
    omega
  have hle : b.shortDataLen * b.numBlocks + (b.numBlocks - b.numShortBlocks) ≤ b.eccIndex j i := by
    unfold Blocks.eccIndex
    omega
  rw [interleave_eq h hcount hlen, List.getElem?_append_right (by omega), hfront, hindex,
    getElem?_rows (fun i _ => length_interleavedRow _) hi hj, interleavedRow_getElem? hj]

end

/-! ## The codewords of a symbol -/

/-- The codewords that go with some data. -/
def Blocks.codewords (b : Blocks) (data : List Byte) : List Byte := interleave b (b.all data)

theorem all_length : (b.all data).length = b.numBlocks := by
  simp [Blocks.all, Blocks.dataLens]

theorem all_headD (h : b.Good total) (hdata : data.length = b.dataLens.sum) :
    ((b.all data).headD []).length = b.shortDataLen + 1 + b.blockEccLen := by
  have hfirst : (b.all data).headD [] = (b.all data).getD 0 [] := by cases b.all data <;> rfl
  rw [hfirst, all_getD h.pos, length_block h hdata h.pos]

/-- **The data of a block is read back.** -/
theorem dataOf_codewords (h : b.Good total) (hdata : data.length = b.dataLens.sum) {j : ℕ} (hj : j < b.numBlocks) :
    b.dataOf (b.codewords data) j = b.slice data j := by
  have hslice := length_slice' hdata hj
  unfold Blocks.dataOf Blocks.codewords
  refine List.ext_getElem (by simp [hslice]) fun i hi hi' => ?_
  have hlt : i < b.dataLen j := hslice ▸ hi'
  have hat := dataIndex_getElem? h all_length (all_headD h hdata) hj hlt
  rw [List.getElem_map, List.getElem_range, List.getD_eq_getElem?_getD, hat, Option.getD_some, all_getD hj]
  unfold Blocks.block
  rw [List.append_assoc, List.getD_eq_getElem?_getD, List.getElem?_append_left hi', List.getElem?_eq_getElem hi',
    Option.getD_some]

/-- **The error correction of a block is read back.** -/
theorem eccOf_codewords (h : b.Good total) (hdata : data.length = b.dataLens.sum) {j : ℕ} (hj : j < b.numBlocks) :
    b.eccOf (b.codewords data) j = eccWord b.blockEccLen (b.slice data j) := by
  have hecc := length_eccWord h.ecc_pos (b.slice data j)
  have hslice := length_slice' hdata hj
  have hlen : b.dataLen j = b.shortDataLen + if j < b.numShortBlocks then 0 else 1 := rfl
  have hfront : (b.slice data j ++ if j < b.numShortBlocks then [0] else []).length = b.shortDataLen + 1 := by
    rw [List.length_append, hslice, hlen]
    split_ifs <;> simp
  unfold Blocks.eccOf Blocks.codewords
  refine List.ext_getElem (by simp [hecc]) fun i hi hi' => ?_
  have hat := eccIndex_getElem? h all_length (all_headD h hdata) hj (hecc ▸ hi')
  rw [List.getElem_map, List.getElem_range, List.getD_eq_getElem?_getD, hat, Option.getD_some, all_getD hj]
  unfold Blocks.block
  rw [List.getD_eq_getElem?_getD, List.getElem?_append_right (by omega), hfront, Nat.add_sub_cancel_left,
    List.getElem?_eq_getElem hi', Option.getD_some]

/-- **The data is read back.** -/
theorem readData_codewords (h : b.Good total) (hdata : data.length = b.dataLens.sum) :
    b.readData (b.codewords data) = data := by
  have hblocks : (List.range b.numBlocks).flatMap (b.dataOf (b.codewords data)) =
      (List.range b.numBlocks).flatMap (b.slice data) :=
    List.flatMap_congr fun j hj => dataOf_codewords h hdata (List.mem_range.1 hj)
  exact hblocks.trans (flatten_slice hdata)

/-! ## `appendErrorCorrection` -/

section
variable (hv : 1 ≤ version) (hv' : version ≤ 40) (ecl : Ecc)
include hv hv'

theorem dataLens_sum : (blocksOf version ecl).dataLens.sum = dataCodewords version ecl := by
  obtain ⟨hgood, htotal⟩ := blocksOf_good hv hv' ecl
  have hsum := sum_dataLen (blocksOf version ecl) (blocksOf version ecl).numBlocks
  have hlen := hgood.total
  have hecc := hgood.ecc_lt
  have hshort : (blocksOf version ecl).shortBlockLen =
      (blocksOf version ecl).shortDataLen + (blocksOf version ecl).blockEccLen := by
    unfold Blocks.shortDataLen
    omega
  unfold dataCodewords Blocks.dataLens
  rw [hsum, htotal]
  rw [hshort, Nat.mul_add, Nat.mul_comm _ (blocksOf version ecl).blockEccLen] at hlen
  omega

/-- **The assertions of `appendErrorCorrection` hold.** -/
theorem appendErrorCorrection_eq {data : List Byte} (hdata : data.length = dataCodewords version ecl) :
    appendErrorCorrection version ecl data = .ok ((blocksOf version ecl).codewords data) := by
  obtain ⟨hgood, htotal⟩ := blocksOf_good hv hv' ecl
  have hsum : data.length = (blocksOf version ecl).dataLens.sum := hdata.trans (dataLens_sum hv hv' ecl).symm
  have hlength := length_interleave hgood all_length (all_headD hgood hsum)
  have hdegree : 1 ≤ (blocksOf version ecl).blockEccLen := hgood.ecc_pos
  have hdegree' : (blocksOf version ecl).blockEccLen ≤ 255 := by
    have := hgood.ecc_lt
    have := hgood.len_lt
    omega
  have hsplit := splitBlocks_eq (blocksOf version ecl) (blocksOf version ecl).numBlocks 0 data
  rw [← List.range_eq_range'] at hsplit
  have hgenerator := reedSolomonGenerator_eq hdegree hdegree'
  have hmod : numErrorCorrectionCodewords version ecl % numErrorCorrectionBlocks version ecl = 0 := by
    rw [htotal]
    exact Nat.mul_mod_left _ _
  unfold appendErrorCorrection
  rw [getNumDataCodewords_ok hv hv', getNumRawDataModules_ok hv hv', ok_bind, if_neg (not_not.2 hdata)]
  refine (if_neg (not_not.2 hmod)).trans ?_
  show (reedSolomonGenerator (blocksOf version ecl).blockEccLen >>= fun rs =>
    splitBlocks (blocksOf version ecl) rs (blocksOf version ecl).numBlocks 0 data >>= fun blocks =>
      if (interleave (blocksOf version ecl) blocks).length ≠ rawModules version / 8 then _ else _) = _
  rw [hgenerator, ok_bind, hsplit, ok_bind]
  exact if_neg (not_not.2 hlength)

/-- It is done for data of the right length alone. -/
theorem appendErrorCorrection_ok {data codewords : List Byte}
    (h : appendErrorCorrection version ecl data = .ok codewords) :
    data.length = dataCodewords version ecl ∧ codewords = (blocksOf version ecl).codewords data := by
  by_cases hdata : data.length = dataCodewords version ecl
  · rw [appendErrorCorrection_eq hv hv' ecl hdata] at h
    exact ⟨hdata, (Except.ok.inj h).symm⟩
  · unfold appendErrorCorrection at h
    rw [getNumDataCodewords_ok hv hv', ok_bind, if_pos hdata] at h
    cases h

end

/-! ## Damage -/

/-- Block `j` as it is read: the data and the error correction. -/
def Blocks.wordOf (b : Blocks) (codewords : List Byte) (j : ℕ) : List Byte := b.dataOf codewords j ++ b.eccOf codewords j

theorem length_wordOf (codewords : List Byte) (j : ℕ) :
    (b.wordOf codewords j).length = b.dataLen j + b.blockEccLen := by
  simp [Blocks.wordOf, Blocks.dataOf, Blocks.eccOf]

theorem differences_mk (xs ys : List Byte) :
    differences (xs.map Residue.mk : List Field256) (ys.map Residue.mk) = differences xs ys := by
  unfold differences
  rw [List.zip_map, List.countP_map]
  refine List.countP_congr fun t _ => ?_
  simp

/-- A block of a symbol is a codeword. -/
theorem wordOf_roots (h : b.Good total) (hdata : data.length = b.dataLens.sum) {j : ℕ} (hj : j < b.numBlocks) :
    ∀ i < b.blockEccLen,
      eval (root (0x1D : Byte) ^ i) ((b.wordOf (b.codewords data) j).map Residue.mk : List Field256) = 0 := by
  intro i hi
  have hsame : (eccWord b.blockEccLen (b.slice data j)).map Residue.mk = remainder
      (generator (root (0x1D : Byte)) b.blockEccLen) ((b.slice data j).map Residue.mk : List Field256) := by
    unfold eccWord
    rw [List.map_map]
    exact List.map_id _
  unfold Blocks.wordOf
  rw [dataOf_codewords h hdata hj, eccOf_codewords h hdata hj, List.map_append, hsame]
  exact eval_root _ hi _

/-- **Damage to a block** at half as many codewords as it has for error correction, at most,
leaves one block. -/
theorem wordOf_unique (h : b.Good total) {data' : List Byte} (hdata : data.length = b.dataLens.sum)
    (hdata' : data'.length = b.dataLens.sum) (received : List Byte) {j : ℕ} (hj : j < b.numBlocks)
    (hnear : 2 * differences (b.wordOf (b.codewords data) j) (b.wordOf received j) ≤ b.blockEccLen)
    (hnear' : 2 * differences (b.wordOf received j) (b.wordOf (b.codewords data') j) ≤ b.blockEccLen) :
    b.slice data j = b.slice data' j := by
  have hbyte : (b.wordOf (b.codewords data) j).length ≤ orderOf (root (0x1D : Byte)) := by
    have hlen : b.dataLen j = b.shortBlockLen - b.blockEccLen + if j < b.numShortBlocks then 0 else 1 := rfl
    have hecc := h.ecc_lt
    have hmax := h.len_lt
    rw [length_wordOf, hlen, orderOf_root]
    split_ifs <;> omega
  have hdiff := differences_mk (b.wordOf (b.codewords data) j) (b.wordOf received j)
  have hdiff' := differences_mk (b.wordOf received j) (b.wordOf (b.codewords data') j)
  have hsame := nearest_unique (by simp [length_wordOf]) (by simp [length_wordOf])
    (by rw [List.length_map]; exact hbyte) (wordOf_roots h hdata hj) (wordOf_roots h hdata' hj)
    (show 2 * (b.blockEccLen / 2) ≤ b.blockEccLen by omega) (hdiff.le.trans (by omega)) (hdiff'.le.trans (by omega))
  have hword : b.wordOf (b.codewords data) j = b.wordOf (b.codewords data') j :=
    List.map_injective_iff.2 (fun _ _ heq => congrArg Residue.bits heq) hsame
  unfold Blocks.wordOf at hword
  rw [dataOf_codewords h hdata hj, dataOf_codewords h hdata' hj] at hword
  have hlen := (length_slice' hdata hj).trans (length_slice' hdata' hj).symm
  exact (List.append_inj hword hlen).1

/-- **Damaged codewords** leave no doubt about the data, as long as no block has lost more than
half as many as it has for error correction. -/
theorem damaged_codewords (hv : 1 ≤ version) (hv' : version ≤ 40) {data' codewords codewords' received : List Byte}
    (h : appendErrorCorrection version ecl data = .ok codewords)
    (h' : appendErrorCorrection version ecl data' = .ok codewords')
    (hnear : ∀ j < (blocksOf version ecl).numBlocks,
      2 * differences ((blocksOf version ecl).wordOf codewords j) ((blocksOf version ecl).wordOf received j) ≤
        (blocksOf version ecl).blockEccLen)
    (hnear' : ∀ j < (blocksOf version ecl).numBlocks,
      2 * differences ((blocksOf version ecl).wordOf received j) ((blocksOf version ecl).wordOf codewords' j) ≤
        (blocksOf version ecl).blockEccLen) :
    data = data' := by
  obtain ⟨hgood, -⟩ := blocksOf_good hv hv' ecl
  obtain ⟨hlen, rfl⟩ := appendErrorCorrection_ok hv hv' ecl h
  obtain ⟨hlen', rfl⟩ := appendErrorCorrection_ok hv hv' ecl h'
  rw [← dataLens_sum hv hv' ecl] at hlen hlen'
  have hslices : ∀ j < (blocksOf version ecl).numBlocks,
      (blocksOf version ecl).slice data j = (blocksOf version ecl).slice data' j :=
    fun j hj => wordOf_unique hgood hlen hlen' received hj (hnear j hj) (hnear' j hj)
  calc data = (List.range (blocksOf version ecl).numBlocks).flatMap ((blocksOf version ecl).slice data) :=
        (flatten_slice hlen).symm
    _ = (List.range (blocksOf version ecl).numBlocks).flatMap ((blocksOf version ecl).slice data') :=
        List.flatMap_congr fun j hj => hslices j (List.mem_range.1 hj)
    _ = data' := flatten_slice hlen'

end Noobs.Qrcodegen
