import Mathlib.Data.Finset.Card
import Mathlib.Data.Finset.Prod
import Mathlib.Data.Int.ConditionallyCompleteOrder
import Mathlib.Data.Int.Interval
import Mathlib.Algebra.BigOperators.Group.Finset.Basic
import Noobs.Proof.QrGrid

/-!
# The zigzag scan

* `zigzag_eq`: the modules are gone through in the order of the standard.
* `length_dataModules`: **there are as many data modules as the code computes**.
-/

namespace Noobs.Qrcodegen

variable {version size k : ℕ} {c : ℤ × ℤ}

/-! ## The order -/

theorem rightColumns_even {n : ℕ} (hn : 3 ≤ n) :
    rightColumns (2 * n) = (List.range n).map (scanColumn (2 * n + 1)) := by
  induction n, hn using Nat.le_induction with
  | base =>
    have h1 : rightColumns 1 = [1] := by
      rw [rightColumns]
      simp [rightColumns]
    have h3 : rightColumns 3 = [3, 1] := by
      rw [rightColumns]
      simp [h1]
    rw [rightColumns]
    simp [h3]
    rfl
  | succ n hn ih =>
    have hright : ¬2 * (n + 1) < 1 := by omega
    have hsix : ¬2 * (n + 1) = 6 := by omega
    have hprev : 2 * (n + 1) - 2 = 2 * n := by omega
    have hfirst : scanColumn (2 * (n + 1) + 1) 0 = 2 * (n + 1) := if_pos (by omega)
    have hshift : ∀ k, scanColumn (2 * (n + 1) + 1) (k + 1) = scanColumn (2 * n + 1) k := by
      intro k
      have hsame : 2 * (n + 1) + 1 - 1 - 2 * (k + 1) = 2 * n + 1 - 1 - 2 * k := by omega
      unfold scanColumn
      rw [hsame]
    rw [rightColumns, if_neg hright]
    simp only [if_neg hsix, hprev, ih]
    rw [List.range_succ_eq_map, List.map_cons, List.map_map, hfirst]
    exact congrArg _ (List.map_congr_left fun k _ => (hshift k).symm)

theorem upwards_eq (hsize : size = version * 4 + 17) (hk : k < (size - 1) / 2) {j : ℕ} (hj : j < 2) :
    (((scanColumn size k &&& 2) == 0) ^^ decide ((scanColumn size k : ℤ) - j < 6)) = decide (k % 2 = 0) := by
  have hand : scanColumn size k &&& 2 = 0 ↔ scanColumn size k / 2 % 2 = 0 := by
    have htwo := Nat.and_two_pow (scanColumn size k) 1
    rw [Nat.testBit_eq_decide_div_mod_eq] at htwo
    rw [pow_one] at htwo
    rw [htwo]
    by_cases h : scanColumn size k / 2 % 2 = 1
    · simp [h]
    · simp [h]
      omega
  have hleft : ((scanColumn size k &&& 2) == 0) = decide (scanColumn size k / 2 % 2 = 0) := by
    rw [Bool.eq_iff_iff, beq_iff_eq, decide_eq_true_eq]
    exact hand
  rw [hleft, Bool.eq_iff_iff, bne_iff_ne, decide_eq_true_eq, ne_eq, Bool.eq_iff_iff, decide_eq_true_eq, decide_eq_true_eq]
  unfold scanColumn
  dsimp only
  split_ifs <;> omega

theorem columnPair_eq (hsize : size = version * 4 + 17) (hk : k < (size - 1) / 2) :
    columnPair size (scanColumn size k) = scanPair size k := by
  unfold columnPair scanPair
  refine List.flatMap_congr fun i _ => ?_
  have hrange : List.range 2 = [0, 1] := rfl
  have h0 := upwards_eq hsize hk zero_lt_two
  have h1 := upwards_eq hsize hk one_lt_two
  simp only [hrange, List.map_cons, List.map_nil, h0, h1, decide_eq_true_eq]
  simp

/-- **The order of the standard.** -/
theorem zigzag_eq (hsize : size = version * 4 + 17) :
    zigzag size = (List.range ((size - 1) / 2)).flatMap (scanPair size) := by
  have hcolumns := rightColumns_even (n := (size - 1) / 2) (by omega)
  have heven : 2 * ((size - 1) / 2) = size - 1 := by omega
  have hodd : size - 1 + 1 = size := by omega
  unfold zigzag
  rw [heven, hodd] at hcolumns
  rw [hcolumns, List.flatMap_map]
  exact List.flatMap_congr fun k hk => columnPair_eq hsize (List.mem_range.1 hk)

/-! ## Every module once -/

theorem mem_scanPair : c ∈ scanPair size k ↔
    (c.1 = scanColumn size k ∨ c.1 = scanColumn size k - 1) ∧ 0 ≤ c.2 ∧ c.2 < size := by
  obtain ⟨x, y⟩ := c
  unfold scanPair
  simp only [List.mem_flatMap, List.mem_range, List.mem_cons, List.not_mem_nil, or_false, Prod.mk.injEq]
  constructor
  · rintro ⟨i, hi, ⟨rfl, rfl⟩ | ⟨rfl, rfl⟩⟩ <;> split_ifs <;> omega
  · rintro ⟨hx, hy⟩
    by_cases hk : k % 2 = 0
    · exact ⟨(size - 1 - y).toNat, by omega, by rw [if_pos hk]; omega⟩
    · exact ⟨y.toNat, by omega, by rw [if_neg hk]; omega⟩

theorem scanColumn_eq (hsize : size = version * 4 + 17) (hk : k < (size - 1) / 2) :
    scanColumn size k = size - 1 - 2 * k ∧ 8 ≤ scanColumn size k ∨
      scanColumn size k = size - 2 - 2 * k ∧ scanColumn size k ≤ 5 ∧ 1 ≤ scanColumn size k := by
  unfold scanColumn
  dsimp only
  split_ifs <;> omega

theorem mem_scan (hsize : size = version * 4 + 17) :
    c ∈ (List.range ((size - 1) / 2)).flatMap (scanPair size) ↔
      c.1 ≠ 6 ∧ 0 ≤ c.1 ∧ c.1 < size ∧ 0 ≤ c.2 ∧ c.2 < size := by
  simp only [List.mem_flatMap, List.mem_range, mem_scanPair]
  constructor
  · rintro ⟨k, hk, hx, hy⟩
    have hcolumn := scanColumn_eq hsize hk
    omega
  · rintro ⟨h6, hx, hx', hy⟩
    by_cases hright : 6 < c.1
    · have hk : ((size - 1 - c.1) / 2).toNat < (size - 1) / 2 := by omega
      have hcolumn := scanColumn_eq hsize hk
      exact ⟨((size - 1 - c.1) / 2).toNat, hk, by omega, hy⟩
    · have hk : ((size - 2 - c.1) / 2).toNat < (size - 1) / 2 := by omega
      have hcolumn := scanColumn_eq hsize hk
      exact ⟨((size - 2 - c.1) / 2).toNat, hk, by omega, hy⟩

theorem nodup_scanPair (size k : ℕ) : (scanPair size k).Nodup := by
  unfold scanPair
  rw [List.nodup_flatMap]
  refine ⟨fun i _ => by simp; omega, List.nodup_range.imp fun {i i'} hne c hc hc' => ?_⟩
  simp only [List.mem_cons, List.not_mem_nil, or_false, Prod.ext_iff] at hc hc'
  split_ifs at hc hc' <;> omega

/-- **No module twice.** -/
theorem nodup_scan (hsize : size = version * 4 + 17) :
    ((List.range ((size - 1) / 2)).flatMap (scanPair size)).Nodup := by
  rw [List.nodup_flatMap]
  refine ⟨fun k _ => nodup_scanPair size k, ?_⟩
  refine List.nodup_range.imp_of_mem fun {k k'} hk hk' hne c hc hc' => ?_
  have hcolumn := scanColumn_eq hsize (List.mem_range.1 hk)
  have hcolumn' := scanColumn_eq hsize (List.mem_range.1 hk')
  have hx := (mem_scanPair.1 hc).1
  have hx' := (mem_scanPair.1 hc').1
  omega

/-! ## Alignment -/

/-- The columns of the alignment patterns. -/
noncomputable def alignedColumns (version : ℕ) : Finset ℤ :=
  (alignmentPositions version).toFinset.biUnion fun p : ℕ => Finset.Icc ((p : ℤ) - 2) (p + 2)

/-- Where alignment patterns are, their positions are far from each other: the first is that of
the finders on the left, the last that of the finder on the right. -/
theorem alignmentPositions_spec (hv : 2 ≤ version) (hv' : version ≤ 40) :
    (alignmentPositions version).length = version / 7 + 2 ∧
      (alignmentPositions version).Pairwise (fun p q => p + 5 ≤ q) ∧
        ∀ i < (alignmentPositions version).length,
          ((alignmentPositions version).getD i 0 = 6 ↔ i = 0) ∧
            ((alignmentPositions version).getD i 0 = version * 4 + 10 ↔
              i = (alignmentPositions version).length - 1) := by
  have hall : ∀ v < 41, 2 ≤ v → (alignmentPositions v).length = v / 7 + 2 ∧
      (alignmentPositions v).Pairwise (fun p q => p + 5 ≤ q) ∧
        ∀ i < (alignmentPositions v).length, ((alignmentPositions v).getD i 0 = 6 ↔ i = 0) ∧
          ((alignmentPositions v).getD i 0 = v * 4 + 10 ↔ i = (alignmentPositions v).length - 1) := by
    decide +kernel
  exact hall version (by omega) hv

theorem mem_alignedColumns {x : ℤ} :
    x ∈ alignedColumns version ↔ ∃ p ∈ alignmentPositions version, (p : ℤ) - 2 ≤ x ∧ x ≤ p + 2 := by
  unfold alignedColumns
  simp only [Finset.mem_biUnion, List.mem_toFinset, Finset.mem_Icc]

theorem card_alignedColumns (hv : 2 ≤ version) (hv' : version ≤ 40) :
    (alignedColumns version).card = 5 * (version / 7 + 2) := by
  obtain ⟨hlen, hfar, -⟩ := alignmentPositions_spec hv hv'
  have hnodup : (alignmentPositions version).Nodup := hfar.imp fun h => by omega
  have hapart : (alignmentPositions version).Pairwise fun p q => p + 5 ≤ q ∨ q + 5 ≤ p := hfar.imp Or.inl
  have : Std.Symm fun p q : ℕ => p + 5 ≤ q ∨ q + 5 ≤ p := ⟨fun _ _ => Or.symm⟩
  unfold alignedColumns
  rw [Finset.card_biUnion]
  · have hfive : ∀ p ∈ (alignmentPositions version).toFinset, (Finset.Icc ((p : ℤ) - 2) (p + 2)).card = 5 := by
      intro p _
      rw [Int.card_Icc]
      omega
    rw [Finset.sum_congr rfl hfive, Finset.sum_const, List.toFinset_card_of_nodup hnodup, hlen, smul_eq_mul, mul_comm]
  · intro p hp q hq hne
    have h := hapart.forall (List.mem_toFinset.1 hp) (List.mem_toFinset.1 hq) hne
    refine Finset.disjoint_left.2 fun x hx hx' => ?_
    rw [Finset.mem_Icc] at hx hx'
    omega

theorem getD_alignmentPositions {k : ℕ} (hk : k < (alignmentPositions version).length) :
    (alignmentPositions version).getD k 0 ∈ alignmentPositions version := by
  rw [List.getD_eq_getElem _ _ hk]
  exact List.getElem_mem hk

/-- The places of alignment patterns that the finders leave no room for. -/
def inCorner (version : ℕ) (c : ℤ × ℤ) : Prop :=
  (c.1 ≤ 8 ∧ c.2 ≤ 8) ∨ (c.1 ≤ 8 ∧ (version * 4 + 8 : ℕ) ≤ c.2) ∨ ((version * 4 + 8 : ℕ) ≤ c.1 ∧ c.2 ≤ 8)

theorem onAlignmentPattern_iff (hv : 2 ≤ version) (hv' : version ≤ 40) :
    onAlignmentPattern (alignmentPositions version) c = true ↔
      c.1 ∈ alignedColumns version ∧ c.2 ∈ alignedColumns version ∧ ¬inCorner version c := by
  obtain ⟨hlen, -, hends⟩ := alignmentPositions_spec hv hv'
  have hrange := fun p => @alignmentPositions_range version (by omega) hv' p
  have hget := fun k => @getD_alignmentPositions version k
  have hindex : ∀ p ∈ alignmentPositions version, ∃ k < (alignmentPositions version).length,
      (alignmentPositions version).getD k 0 = p := by
    intro p hp
    obtain ⟨k, hk, rfl⟩ := List.mem_iff_getElem.1 hp
    exact ⟨k, hk, List.getD_eq_getElem _ _ hk⟩
  unfold onAlignmentPattern inCorner
  simp only [List.any_eq_true, List.mem_range, Bool.and_eq_true, Bool.not_eq_true', decide_eq_true_eq,
    decide_eq_false_iff_not, abs_le, mem_alignedColumns]
  constructor
  · rintro ⟨i, hi, j, hj, hcorner, hx, hy⟩
    refine ⟨⟨_, hget i hi, by omega⟩, ⟨_, hget j hj, by omega⟩, ?_⟩
    have hpi := hrange _ (hget i hi)
    have hpj := hrange _ (hget j hj)
    have hei := hends i hi
    have hej := hends j hj
    omega
  · rintro ⟨⟨p, hp, hx⟩, ⟨q, hq, hy⟩, hcorner⟩
    obtain ⟨i, hi, rfl⟩ := hindex p hp
    obtain ⟨j, hj, rfl⟩ := hindex q hq
    have hei := hends i hi
    have hej := hends j hj
    exact ⟨i, hi, j, hj, by omega, by omega, by omega⟩

/-! ## The count -/

/-- The data modules, as a set. -/
noncomputable def dataSet (version : ℕ) : Finset (ℤ × ℤ) :=
  (Finset.Icc (0 : ℤ) (version * 4 + 16) ×ˢ Finset.Icc (0 : ℤ) (version * 4 + 16)).filter fun c =>
    isFunctionModule version c = false

theorem nodup_dataModules (version : ℕ) : (dataModules version).Nodup :=
  (@nodup_scan version _ rfl).filter _

theorem mem_dataModules : c ∈ dataModules version ↔
    (0 ≤ c.1 ∧ c.1 < (version * 4 + 17 : ℕ) ∧ 0 ≤ c.2 ∧ c.2 < (version * 4 + 17 : ℕ)) ∧
      isFunctionModule version c = false := by
  unfold dataModules
  rw [List.mem_filter, @mem_scan version _ _ rfl, Bool.not_eq_true']
  constructor
  · rintro ⟨⟨-, hin⟩, hdata⟩
    exact ⟨hin, hdata⟩
  · rintro ⟨hin, hdata⟩
    refine ⟨⟨fun h6 => ?_, hin⟩, hdata⟩
    have hfunction : isFunctionModule version c = true := by simp [isFunctionModule, h6]
    rw [hfunction] at hdata
    cases hdata

theorem card_dataSet : (dataSet version).card = (dataModules version).length := by
  have hset : dataSet version = (dataModules version).toFinset := by
    ext c
    unfold dataSet
    rw [List.mem_toFinset, mem_dataModules, Finset.mem_filter, Finset.mem_product, Finset.mem_Icc, Finset.mem_Icc]
    refine and_congr_left fun _ => ?_
    push_cast
    omega
  rw [hset, List.toFinset_card_of_nodup (nodup_dataModules version)]

/-- A square without three of its corners. -/
def withoutCorners (s a b : Finset ℤ) : Finset (ℤ × ℤ) := (s ×ˢ s) \ (a ×ˢ a ∪ b ×ˢ a ∪ a ×ˢ b)

theorem card_withoutCorners {s a b : Finset ℤ} (ha : a ⊆ s) (hb : b ⊆ s) (hab : Disjoint a b) :
    (withoutCorners s a b).card + a.card * (a.card + 2 * b.card) = s.card * s.card := by
  have hsub : a ×ˢ a ∪ b ×ˢ a ∪ a ×ˢ b ⊆ s ×ˢ s :=
    Finset.union_subset (Finset.union_subset (Finset.product_subset_product ha ha)
      (Finset.product_subset_product hb ha)) (Finset.product_subset_product ha hb)
  have hleft : Disjoint (a ×ˢ a) (b ×ˢ a) := Finset.disjoint_product.2 (.inl hab)
  have hright : Disjoint (a ×ˢ a ∪ b ×ˢ a) (a ×ˢ b) :=
    Finset.disjoint_union_left.2 ⟨Finset.disjoint_product.2 (.inr hab), Finset.disjoint_product.2 (.inr hab)⟩
  have hcount := Finset.card_sdiff_add_card_eq_card hsub
  rw [Finset.card_union_of_disjoint hright, Finset.card_union_of_disjoint hleft, Finset.card_product,
    Finset.card_product, Finset.card_product, Finset.card_product] at hcount
  unfold withoutCorners
  rw [← hcount]
  ring

/-- The modules off the timing patterns and out of the corners. -/
noncomputable def fieldSet (version : ℕ) : Finset (ℤ × ℤ) :=
  withoutCorners ((Finset.Icc (0 : ℤ) (version * 4 + 16)).erase 6) ((Finset.Icc (0 : ℤ) 8).erase 6)
    (Finset.Icc (version * 4 + 9 : ℤ) (version * 4 + 16))

theorem card_fieldSet (hv : 1 ≤ version) : (fieldSet version).card + 192 = (version * 4 + 16) * (version * 4 + 16) := by
  have hleft : (Finset.Icc (0 : ℤ) 8).erase 6 ⊆ (Finset.Icc (0 : ℤ) (version * 4 + 16)).erase 6 :=
    Finset.erase_subset_erase _ (Finset.Icc_subset_Icc le_rfl (by omega))
  have hright : Finset.Icc (version * 4 + 9 : ℤ) (version * 4 + 16) ⊆
      (Finset.Icc (0 : ℤ) (version * 4 + 16)).erase 6 := by
    intro x hx
    rw [Finset.mem_Icc] at hx
    rw [Finset.mem_erase, Finset.mem_Icc]
    omega
  have hdisjoint : Disjoint ((Finset.Icc (0 : ℤ) 8).erase 6) (Finset.Icc (version * 4 + 9 : ℤ) (version * 4 + 16)) := by
    refine Finset.disjoint_left.2 fun x hx hx' => ?_
    rw [Finset.mem_erase, Finset.mem_Icc] at hx
    rw [Finset.mem_Icc] at hx'
    omega
  have hcount := card_withoutCorners hleft hright hdisjoint
  have hcorner : ((Finset.Icc (0 : ℤ) 8).erase 6).card = 8 := rfl
  have hsides : (Finset.Icc (version * 4 + 9 : ℤ) (version * 4 + 16)).card = 8 := by
    rw [Int.card_Icc]
    omega
  have hall : ((Finset.Icc (0 : ℤ) (version * 4 + 16)).erase 6).card = version * 4 + 16 := by
    rw [Finset.card_erase_of_mem (Finset.mem_Icc.2 (by omega)), Int.card_Icc]
    omega
  rw [hcorner, hsides, hall] at hcount
  exact hcount

/-- The modules of the alignment patterns that are in the field. -/
noncomputable def alignmentSet (version : ℕ) : Finset (ℤ × ℤ) :=
  withoutCorners ((alignedColumns version).erase 6) ((Finset.Icc (4 : ℤ) 8).erase 6)
    (Finset.Icc (version * 4 + 8 : ℤ) (version * 4 + 12))

theorem mem_alignedColumns_range (hv : 2 ≤ version) (hv' : version ≤ 40) {x : ℤ} :
    (4 ≤ x ∧ x ≤ 8 ∨ (version * 4 + 8 : ℤ) ≤ x ∧ x ≤ version * 4 + 12 → x ∈ alignedColumns version) ∧
      (x ∈ alignedColumns version → 4 ≤ x ∧ x ≤ 8 ∨ (version * 4 + 8 : ℤ) ≤ x ∧ x ≤ version * 4 + 12 ∨
        16 ≤ x ∧ x ≤ version * 4 - 4) := by
  obtain ⟨hlen, -, hends⟩ := alignmentPositions_spec hv hv'
  have hget := fun k => @getD_alignmentPositions version k
  have hfirst : 6 ∈ alignmentPositions version := (hends 0 (by omega)).1.2 rfl ▸ hget 0 (by omega)
  have hlast : version * 4 + 10 ∈ alignmentPositions version :=
    (hends _ (by omega)).2.2 rfl ▸ hget ((alignmentPositions version).length - 1) (by omega)
  rw [mem_alignedColumns]
  constructor
  · rintro (hx | hx)
    · exact ⟨6, hfirst, by omega⟩
    · exact ⟨_, hlast, by omega⟩
  · rintro ⟨p, hp, hx⟩
    have h := alignmentPositions_range (by omega) hv' hp
    omega

theorem card_alignmentSet (hv : 2 ≤ version) (hv' : version ≤ 40) :
    (alignmentSet version).card + 56 = (5 * (version / 7 + 2) - 1) * (5 * (version / 7 + 2) - 1) := by
  have hmem := fun x => @mem_alignedColumns_range version hv hv' x
  have hleft : (Finset.Icc (4 : ℤ) 8).erase 6 ⊆ (alignedColumns version).erase 6 :=
    Finset.erase_subset_erase _ fun x hx => (hmem x).1 (.inl (Finset.mem_Icc.1 hx))
  have hright : Finset.Icc (version * 4 + 8 : ℤ) (version * 4 + 12) ⊆ (alignedColumns version).erase 6 := by
    intro x hx
    rw [Finset.mem_Icc] at hx
    exact Finset.mem_erase.2 ⟨by omega, (hmem x).1 (.inr hx)⟩
  have hdisjoint : Disjoint ((Finset.Icc (4 : ℤ) 8).erase 6) (Finset.Icc (version * 4 + 8 : ℤ) (version * 4 + 12)) := by
    refine Finset.disjoint_left.2 fun x hx hx' => ?_
    rw [Finset.mem_erase, Finset.mem_Icc] at hx
    rw [Finset.mem_Icc] at hx'
    omega
  have hcount := card_withoutCorners hleft hright hdisjoint
  have hcorner : ((Finset.Icc (4 : ℤ) 8).erase 6).card = 4 := rfl
  have hsides : (Finset.Icc (version * 4 + 8 : ℤ) (version * 4 + 12)).card = 5 := by
    rw [Int.card_Icc]
    omega
  have hall : ((alignedColumns version).erase 6).card = 5 * (version / 7 + 2) - 1 := by
    rw [Finset.card_erase_of_mem ((hmem 6).1 (.inl (by omega))), card_alignedColumns hv hv']
  rw [hcorner, hsides, hall] at hcount
  exact hcount

/-- The modules of the version. -/
noncomputable def versionSet (version : ℕ) : Finset (ℤ × ℤ) :=
  if version < 7 then ∅
  else Finset.Icc (version * 4 + 6 : ℤ) (version * 4 + 8) ×ˢ Finset.Icc (0 : ℤ) 5 ∪
    Finset.Icc (0 : ℤ) 5 ×ˢ Finset.Icc (version * 4 + 6 : ℤ) (version * 4 + 8)

theorem card_versionSet : (versionSet version).card = if version < 7 then 0 else 36 := by
  unfold versionSet
  split_ifs with h7
  · rfl
  · have hsix : (Finset.Icc (0 : ℤ) 5).card = 6 := rfl
    have hthree : (Finset.Icc (version * 4 + 6 : ℤ) (version * 4 + 8)).card = 3 := by
      rw [Int.card_Icc]
      omega
    have hapart : Disjoint (Finset.Icc (version * 4 + 6 : ℤ) (version * 4 + 8)) (Finset.Icc (0 : ℤ) 5) := by
      refine Finset.disjoint_left.2 fun x hx hx' => ?_
      rw [Finset.mem_Icc] at hx hx'
      omega
    rw [Finset.card_union_of_disjoint (Finset.disjoint_product.2 (.inl hapart)), Finset.card_product,
      Finset.card_product, hsix, hthree]

theorem mem_fieldSet : c ∈ fieldSet version ↔
    (0 ≤ c.1 ∧ c.1 < (version * 4 + 17 : ℕ) ∧ 0 ≤ c.2 ∧ c.2 < (version * 4 + 17 : ℕ)) ∧ c.1 ≠ 6 ∧ c.2 ≠ 6 ∧
      ¬(c.1 ≤ 8 ∧ c.2 ≤ 8 ∨ (version * 4 + 9 : ℤ) ≤ c.1 ∧ c.2 ≤ 8 ∨ c.1 ≤ 8 ∧ (version * 4 + 9 : ℤ) ≤ c.2) := by
  unfold fieldSet withoutCorners
  simp only [Finset.mem_sdiff, Finset.mem_union, Finset.mem_product, Finset.mem_erase, Finset.mem_Icc]
  push_cast
  omega

theorem mem_versionSet : c ∈ versionSet version ↔ 7 ≤ version ∧
    ((version * 4 + 6 : ℤ) ≤ c.1 ∧ c.1 ≤ version * 4 + 8 ∧ 0 ≤ c.2 ∧ c.2 ≤ 5 ∨
      (version * 4 + 6 : ℤ) ≤ c.2 ∧ c.2 ≤ version * 4 + 8 ∧ 0 ≤ c.1 ∧ c.1 ≤ 5) := by
  unfold versionSet
  by_cases h7 : version < 7
  · rw [if_pos h7]
    simp [h7]
  · rw [if_neg h7]
    simp only [Finset.mem_union, Finset.mem_product, Finset.mem_Icc]
    omega

theorem mem_alignmentSet (hv : 2 ≤ version) (hv' : version ≤ 40) : c ∈ alignmentSet version ↔
    onAlignmentPattern (alignmentPositions version) c = true ∧ c.1 ≠ 6 ∧ c.2 ≠ 6 := by
  have hx := @mem_alignedColumns_range version hv hv' c.1
  have hy := @mem_alignedColumns_range version hv hv' c.2
  rw [onAlignmentPattern_iff hv hv']
  unfold alignmentSet withoutCorners inCorner
  simp only [Finset.mem_sdiff, Finset.mem_union, Finset.mem_product, Finset.mem_erase, Finset.mem_Icc]
  push_cast
  by_cases hcx : c.1 ∈ alignedColumns version
  · by_cases hcy : c.2 ∈ alignedColumns version
    · have hx' := hx.2 hcx
      have hy' := hy.2 hcy
      simp only [hcx, hcy, and_true, true_and]
      omega
    · simp [hcy]
  · simp [hcx]

theorem alignmentSet_field (hv : 2 ≤ version) (hv' : version ≤ 40) (h : c ∈ alignmentSet version) :
    c ∈ fieldSet version ∧ c ∉ versionSet version := by
  obtain ⟨honPattern, h6, h6'⟩ := (mem_alignmentSet hv hv').1 h
  obtain ⟨hx, hy, hcorner⟩ := (onAlignmentPattern_iff hv hv').1 honPattern
  have hxrange := (mem_alignedColumns_range hv hv').2 hx
  have hyrange := (mem_alignedColumns_range hv hv').2 hy
  unfold inCorner at hcorner
  rw [mem_fieldSet, mem_versionSet]
  push_cast at hcorner ⊢
  omega

theorem versionSet_subset (version : ℕ) : versionSet version ⊆ fieldSet version := by
  intro c hc
  have h := mem_versionSet.1 hc
  rw [mem_fieldSet]
  push_cast
  omega

/-- What is left of the field, if these are its modules on alignment patterns. -/
theorem length_dataModules_add {aligned : Finset (ℤ × ℤ)}
    (hmem : ∀ c, c ∈ aligned ↔ onAlignmentPattern (alignmentPositions version) c = true ∧ c.1 ≠ 6 ∧ c.2 ≠ 6)
    (hfield : ∀ c ∈ aligned, c ∈ fieldSet version ∧ c ∉ versionSet version) :
    (dataModules version).length + (aligned.card + (versionSet version).card) = (fieldSet version).card := by
  have hset : dataSet version = fieldSet version \ (aligned ∪ versionSet version) := by
    ext c
    have hc := hmem c
    unfold dataSet isFunctionModule
    rw [Finset.mem_filter, Finset.mem_product, Finset.mem_Icc, Finset.mem_Icc, Finset.mem_sdiff, Finset.mem_union,
      mem_fieldSet, mem_versionSet, hc, alignmentPositions]
    simp only [Bool.or_eq_false_iff, Bool.and_eq_false_iff, decide_eq_false_iff_not]
    by_cases ha : onAlignmentPattern ((getAlignmentPatternPositions version).toOption.getD []) c = true
    · simp only [ha, Bool.true_eq_false, true_and, and_false, false_and, false_iff]
      push_cast
      omega
    · rw [Bool.not_eq_true] at ha
      simp only [ha, Bool.false_eq_true, false_and, false_or, and_true]
      push_cast
      omega
  have hsub : aligned ∪ versionSet version ⊆ fieldSet version :=
    Finset.union_subset (fun c hc => (hfield c hc).1) (versionSet_subset version)
  have hdisjoint : Disjoint aligned (versionSet version) := Finset.disjoint_left.2 fun c hc => (hfield c hc).2
  have hcount := Finset.card_sdiff_add_card_eq_card hsub
  rw [← hset, card_dataSet, Finset.card_union_of_disjoint hdisjoint] at hcount
  exact hcount

/-- **There are as many data modules as the code computes.** -/
theorem length_dataModules (hv : 1 ≤ version) (hv' : version ≤ 40) :
    (dataModules version).length = rawModules version := by
  have hfield := card_fieldSet hv
  have hversion := @card_versionSet version
  have hraw := getNumRawDataModules_ok hv hv'
  unfold getNumRawDataModules at hraw
  rw [if_neg (by omega)] at hraw
  by_cases hone : version = 1
  · subst hone
    have hnone : alignmentPositions 1 = [] := rfl
    have hcount := @length_dataModules_add 1 ∅ (by simp [hnone, onAlignmentPattern]) (by simp)
    have hempty : (∅ : Finset (ℤ × ℤ)).card = 0 := rfl
    have hraw : rawModules 1 = 208 := rfl
    rw [if_pos (by omega)] at hversion
    omega
  · have hv2 : 2 ≤ version := by omega
    have hcount := length_dataModules_add (fun c => mem_alignmentSet hv2 hv') fun c => alignmentSet_field hv2 hv'
    have halignment := card_alignmentSet hv2 hv'
    have hfieldArea : (version * 4 + 16) * (version * 4 + 16) = (16 * version + 128) * version + 256 := by ring
    obtain ⟨n, hn⟩ : ∃ n, version / 7 + 2 = n + 2 := ⟨_, rfl⟩
    have halignmentArea : (5 * (n + 2) - 1) * (5 * (n + 2) - 1) = (25 * (n + 2) - 10) * (n + 2) + 1 := by
      have hside : 5 * (n + 2) - 1 = 5 * n + 9 := by omega
      have hfactor : 25 * (n + 2) - 10 = 25 * n + 40 := by omega
      rw [hside, hfactor]
      ring
    have hatLeast : 40 * 2 ≤ (25 * (n + 2) - 10) * (n + 2) := Nat.mul_le_mul (by omega) (by omega)
    simp only [if_pos hv2] at hraw
    have hraw := Except.ok.inj hraw
    rw [hn] at halignment hraw
    split_ifs at hversion hraw <;> omega

end Noobs.Qrcodegen
