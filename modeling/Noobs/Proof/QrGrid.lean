import Noobs.Lib.Canvas
import Noobs.Proof.QrBlocks

/-!
# The grid

What is drawn in a symbol before its data.

* `drawFunctionPatterns_ok`: **nothing is drawn outside** the symbol.
* `mem_functionPatterns`: what is drawn is what a scanner takes for no data.
-/

namespace Noobs.Qrcodegen

open Canvas

variable {g : Grid} {c : ℤ × ℤ} {version : ℕ} {writes : List ((ℤ × ℤ) × Bool)}

/-! ## Drawing -/

/-- A grid with these function modules. -/
def Grid.painted (g : Grid) (writes : List ((ℤ × ℤ) × Bool)) : Grid :=
  { g with
    modules := paint writes g.modules
    isFunction := paint (writes.map fun w => (w.1, true)) g.isFunction }

@[simp] theorem painted_size (g : Grid) (writes : List ((ℤ × ℤ) × Bool)) : (g.painted writes).size = g.size := rfl

theorem painted_append (g : Grid) (writes writes' : List ((ℤ × ℤ) × Bool)) :
    g.painted (writes ++ writes') = (g.painted writes).painted writes' := by
  unfold Grid.painted
  rw [List.map_append, paint_append, paint_append]

/-- Inside, everything can be drawn. -/
theorem draw_ok (h : ∀ w ∈ writes, g.Inside w.1) : g.draw writes = .ok (g.painted writes) := by
  induction writes generalizing g with
  | nil => rfl
  | cons w writes ih =>
    have hin : g.Inside w.1 := h w List.mem_cons_self
    have hset : g.setFunctionModule w.1 w.2 = .ok (g.painted [w]) := if_pos hin
    have hrest := ih (g := g.painted [w]) fun w' hw' => h w' (List.mem_cons_of_mem _ hw')
    unfold Grid.draw at hrest ⊢
    rw [List.foldlM_cons, hset, ok_bind, hrest, ← painted_append]
    rfl

theorem painted_isFunction (g : Grid) (writes : List ((ℤ × ℤ) × Bool)) (c : ℤ × ℤ) :
    (g.painted writes).isFunction c = true ↔ c ∈ writes.map Prod.fst ∨ g.isFunction c = true := by
  induction writes generalizing g with
  | nil => simp [Grid.painted]
  | cons w writes ih =>
    have hfirst : (g.painted [w]).isFunction c = true ↔ c = w.1 ∨ g.isFunction c = true := by
      show Function.update g.isFunction w.1 true c = true ↔ _
      by_cases h : c = w.1
      · rw [h, Function.update_self]
        simp
      · rw [Function.update_of_ne h]
        exact (or_iff_right h).symm
    have hrest := ih (g.painted [w])
    rw [← painted_append, List.singleton_append, hfirst] at hrest
    rw [hrest, List.map_cons, List.mem_cons]
    exact or_left_comm.trans or_assoc.symm

/-! ## Places -/

theorem mem_around {n : ℕ} {t : ℤ} : t ∈ around n ↔ -(n : ℤ) ≤ t ∧ t ≤ n := by
  unfold around
  simp only [List.mem_map, List.mem_range]
  constructor
  · rintro ⟨i, hi, rfl⟩
    omega
  · rintro ⟨h, h'⟩
    exact ⟨(t + n).toNat, by omega, by omega⟩

theorem mem_timingPatterns {size : ℕ} : c ∈ (timingPatterns size).map Prod.fst ↔
    (c.1 = 6 ∧ 0 ≤ c.2 ∧ c.2 < size) ∨ (c.2 = 6 ∧ 0 ≤ c.1 ∧ c.1 < size) := by
  obtain ⟨x, y⟩ := c
  unfold timingPatterns
  simp only [List.map_flatMap, List.map_cons, List.map_nil, List.mem_flatMap, List.mem_range, List.mem_cons,
    List.not_mem_nil, or_false, Prod.mk.injEq]
  constructor
  · rintro ⟨i, hi, ⟨rfl, rfl⟩ | ⟨rfl, rfl⟩⟩ <;> omega
  · rintro (⟨rfl, h, h'⟩ | ⟨rfl, h, h'⟩)
    · exact ⟨y.toNat, by omega, .inl ⟨rfl, by omega⟩⟩
    · exact ⟨x.toNat, by omega, .inr ⟨by omega, rfl⟩⟩

theorem mem_finderPattern {size : ℕ} {x y : ℤ} : c ∈ (finderPattern size x y).map Prod.fst ↔
    (0 ≤ c.1 ∧ c.1 < size ∧ 0 ≤ c.2 ∧ c.2 < size) ∧ x - 4 ≤ c.1 ∧ c.1 ≤ x + 4 ∧ y - 4 ≤ c.2 ∧ c.2 ≤ y + 4 := by
  obtain ⟨u, v⟩ := c
  unfold finderPattern
  simp only [List.map_flatMap, List.mem_flatMap, mem_around, apply_ite (List.map Prod.fst), List.map_cons,
    List.map_nil, List.mem_ite_nil_right, List.mem_singleton, Prod.mk.injEq]
  constructor
  · rintro ⟨i, hi, j, hj, hin, rfl, rfl⟩
    push_cast at hi hj
    omega
  · rintro ⟨hin, h⟩
    exact ⟨v - y, by push_cast; omega, u - x, by push_cast; omega, by omega, by omega, by omega⟩

theorem mem_alignmentPattern {x y : ℤ} : c ∈ (alignmentPattern x y).map Prod.fst ↔
    |c.1 - x| ≤ 2 ∧ |c.2 - y| ≤ 2 := by
  obtain ⟨u, v⟩ := c
  unfold alignmentPattern
  simp only [List.map_flatMap, List.map_map, List.mem_flatMap, List.mem_map, mem_around, Function.comp, Prod.mk.injEq,
    abs_le]
  constructor
  · rintro ⟨i, hi, j, hj, rfl, rfl⟩
    push_cast at hi hj
    omega
  · rintro h
    exact ⟨v - y, by push_cast; omega, u - x, by push_cast; omega, by omega, by omega⟩

theorem mem_alignmentPatterns {positions : List ℕ} :
    c ∈ (alignmentPatterns positions).map Prod.fst ↔ onAlignmentPattern positions c = true := by
  unfold alignmentPatterns onAlignmentPattern
  simp only [List.map_flatMap, List.mem_flatMap, List.any_eq_true, Bool.and_eq_true, Bool.not_eq_true',
    decide_eq_true_eq, decide_eq_false_iff_not, apply_ite (List.map Prod.fst), List.map_nil]
  refine exists_congr fun i => and_congr_right fun _ => exists_congr fun j => and_congr_right fun _ => ?_
  split_ifs with h
  · simp [h]
  · rw [mem_alignmentPattern]
    exact (and_iff_right h).symm

theorem mem_formatModules {size data : ℕ} (hsize : 21 ≤ size) : c ∈ (formatModules size data).map Prod.fst ↔
    (c.1 = 8 ∧ (0 ≤ c.2 ∧ c.2 ≤ 8 ∧ c.2 ≠ 6 ∨ (size : ℤ) - 8 ≤ c.2 ∧ c.2 < size)) ∨
      (c.2 = 8 ∧ (0 ≤ c.1 ∧ c.1 ≤ 8 ∧ c.1 ≠ 6 ∨ (size : ℤ) - 8 ≤ c.1 ∧ c.1 < size)) := by
  obtain ⟨x, y⟩ := c
  unfold formatModules
  simp only [List.map_append, List.map_cons, List.map_nil, List.map_map, List.mem_append, List.mem_map, List.mem_range,
    List.mem_cons, List.not_mem_nil, or_false, Function.comp, Prod.mk.injEq]
  constructor
  · rintro (((((⟨i, hi, rfl, rfl⟩ | h) | ⟨i, hi, rfl, rfl⟩) | ⟨i, hi, rfl, rfl⟩) | ⟨i, hi, rfl, rfl⟩) | ⟨rfl, rfl⟩) <;>
      omega
  · rintro (⟨rfl, h | h⟩ | ⟨rfl, h | h⟩)
    · by_cases hy : y ≤ 5
      · exact .inl (.inl (.inl (.inl (.inl ⟨y.toNat, by omega, rfl, by omega⟩))))
      · exact .inl (.inl (.inl (.inl (.inr (by omega)))))
    · by_cases hy : y = size - 8
      · exact .inr ⟨rfl, hy⟩
      · exact .inl (.inr ⟨(y - size + 7).toNat, by omega, rfl, by omega⟩)
    · by_cases hx : x ≤ 5
      · exact .inl (.inl (.inl (.inr ⟨(5 - x).toNat, by omega, by omega, rfl⟩)))
      · exact .inl (.inl (.inl (.inl (.inr (by omega)))))
    · exact .inl (.inl (.inr ⟨(size - 1 - x).toNat, by omega, by omega, rfl⟩))

theorem mem_versionModules {size data : ℕ} : c ∈ (versionModules size data).map Prod.fst ↔
    ((size : ℤ) - 11 ≤ c.1 ∧ c.1 ≤ size - 9 ∧ 0 ≤ c.2 ∧ c.2 ≤ 5) ∨
      ((size : ℤ) - 11 ≤ c.2 ∧ c.2 ≤ size - 9 ∧ 0 ≤ c.1 ∧ c.1 ≤ 5) := by
  obtain ⟨x, y⟩ := c
  unfold versionModules
  simp only [List.map_flatMap, List.map_cons, List.map_nil, List.mem_flatMap, List.mem_range, List.mem_cons,
    List.not_mem_nil, or_false, Prod.mk.injEq]
  constructor
  · rintro ⟨i, hi, ⟨rfl, rfl⟩ | ⟨rfl, rfl⟩⟩ <;> omega
  · rintro (h | h)
    · exact ⟨(y * 3 + (x - (size - 11))).toNat, by omega, .inl ⟨by omega, by omega⟩⟩
    · exact ⟨(x * 3 + (y - (size - 11))).toNat, by omega, .inr ⟨by omega, by omega⟩⟩

/-! ## Function patterns -/

/-- Where the alignment patterns of a version are. -/
def alignmentPositions (version : ℕ) : List ℕ := (getAlignmentPatternPositions version).toOption.getD []

/-- Everything that is drawn before the data. -/
def functionPatterns (version : ℕ) (ecl : Ecc) : List ((ℤ × ℤ) × Bool) :=
  let size := version * 4 + 17
  timingPatterns size ++ finderPattern size 3 3 ++ finderPattern size (size - 4) 3 ++ finderPattern size 3 (size - 4) ++
    alignmentPatterns (alignmentPositions version) ++ formatModules size (formatData ecl 0) ++
      if version < 7 then [] else versionModules size (versionData version)

theorem getAlignmentPatternPositions_ok (hv : 1 ≤ version) (hv' : version ≤ 40) :
    getAlignmentPatternPositions version = .ok (alignmentPositions version) := by
  unfold alignmentPositions getAlignmentPatternPositions
  rw [if_neg (by omega)]
  split_ifs <;> rfl

/-- The alignment patterns are inside, the first of them in the corner of a finder, and away
from the other finders. -/
theorem alignmentPositions_range (hv : 1 ≤ version) (hv' : version ≤ 40) {p : ℕ} (hp : p ∈ alignmentPositions version) :
    p = 6 ∨ p = version * 4 + 10 ∨ 18 ≤ p ∧ p ≤ version * 4 - 6 := by
  have hall : ∀ v < 41, 1 ≤ v → ∀ p ∈ alignmentPositions v,
      p = 6 ∨ p = v * 4 + 10 ∨ 18 ≤ p ∧ p ≤ v * 4 - 6 := by
    decide +kernel
  exact hall version (by omega) hv p hp

theorem formatData_lt (ecl : Ecc) {mask : ℕ} (hmask : mask < 8) : formatData ecl mask < 2 ^ 15 := by
  have hall : ∀ m < 8, ∀ ecl ∈ [Ecc.LOW, .MEDIUM, .QUARTILE, .HIGH], formatData ecl m < 2 ^ 15 := by
    decide +kernel
  exact hall mask hmask ecl (by cases ecl <;> decide)

theorem versionData_lt (hv' : version ≤ 40) : versionData version < 2 ^ 18 := by
  have hall : ∀ v < 41, versionData v < 2 ^ 18 := by decide +kernel
  exact hall version (by omega)

theorem drawFormatBits_ok (hsize : 21 ≤ g.size) (ecl : Ecc) {mask : ℕ} (hmask : mask < 8) :
    g.drawFormatBits ecl mask = .ok (g.painted (formatModules g.size (formatData ecl mask))) := by
  have hdata : formatData ecl mask >>> 15 = 0 := by
    rw [Nat.shiftRight_eq_div_pow]
    exact Nat.div_eq_of_lt (formatData_lt ecl hmask)
  have hin : ∀ w ∈ formatModules g.size (formatData ecl mask), g.Inside w.1 := by
    intro w hw
    have hmem := (mem_formatModules hsize).1 (List.mem_map_of_mem hw)
    unfold Grid.Inside
    omega
  exact (if_neg (not_not.2 hdata)).trans (draw_ok hin)

theorem onAlignmentPattern_inside (hv : 1 ≤ version) (hv' : version ≤ 40)
    (h : onAlignmentPattern (alignmentPositions version) c = true) :
    4 ≤ c.1 ∧ c.1 ≤ version * 4 + 12 ∧ 4 ≤ c.2 ∧ c.2 ≤ version * 4 + 12 := by
  unfold onAlignmentPattern at h
  simp only [List.any_eq_true, List.mem_range, Bool.and_eq_true, decide_eq_true_eq, abs_le] at h
  obtain ⟨i, hi, j, hj, -, hx, hy⟩ := h
  have hget : ∀ k < (alignmentPositions version).length, (alignmentPositions version).getD k 0 ∈
      alignmentPositions version := by
    intro k hk
    rw [List.getD_eq_getElem _ _ hk]
    exact List.getElem_mem hk
  have hxrange := alignmentPositions_range hv hv' (hget i hi)
  have hyrange := alignmentPositions_range hv hv' (hget j hj)
  omega

/-- **Nothing is drawn outside.** -/
theorem drawFunctionPatterns_ok (hv : 1 ≤ version) (hv' : version ≤ 40) (hsize : g.size = version * 4 + 17) (ecl : Ecc) :
    g.drawFunctionPatterns version ecl = .ok (g.painted (functionPatterns version ecl)) := by
  have hmore : ∀ drawn writes : List ((ℤ × ℤ) × Bool),
      (∀ c ∈ writes.map Prod.fst, 0 ≤ c.1 ∧ c.1 < (version * 4 + 17 : ℕ) ∧ 0 ≤ c.2 ∧ c.2 < (version * 4 + 17 : ℕ)) →
        (g.painted drawn).draw writes = .ok (g.painted (drawn ++ writes)) := by
    intro drawn writes hmem
    rw [painted_append]
    refine draw_ok fun w hw => ?_
    unfold Grid.Inside
    rw [painted_size, hsize]
    exact hmem _ (List.mem_map_of_mem hw)
  have hfinder : ∀ x y, ∀ c ∈ (finderPattern (version * 4 + 17) x y).map Prod.fst,
      0 ≤ c.1 ∧ c.1 < (version * 4 + 17 : ℕ) ∧ 0 ≤ c.2 ∧ c.2 < (version * 4 + 17 : ℕ) :=
    fun _ _ _ hc => (mem_finderPattern.1 hc).1
  have htiming : ∀ c ∈ (timingPatterns (version * 4 + 17)).map Prod.fst,
      0 ≤ c.1 ∧ c.1 < (version * 4 + 17 : ℕ) ∧ 0 ≤ c.2 ∧ c.2 < (version * 4 + 17 : ℕ) := by
    intro c hc
    have h := mem_timingPatterns.1 hc
    omega
  have halignment : ∀ c ∈ (alignmentPatterns (alignmentPositions version)).map Prod.fst,
      0 ≤ c.1 ∧ c.1 < (version * 4 + 17 : ℕ) ∧ 0 ≤ c.2 ∧ c.2 < (version * 4 + 17 : ℕ) := by
    intro c hc
    have h := onAlignmentPattern_inside hv hv' (mem_alignmentPatterns.1 hc)
    omega
  have hformat : ∀ drawn, (g.painted drawn).drawFormatBits ecl 0 =
      .ok (g.painted (drawn ++ formatModules (version * 4 + 17) (formatData ecl 0))) := by
    intro drawn
    rw [drawFormatBits_ok (by rw [painted_size, hsize]; omega) ecl (by omega), painted_size, hsize, painted_append]
  have hversion : ∀ drawn, (g.painted drawn).drawVersion version = .ok (g.painted (drawn ++
      if version < 7 then [] else versionModules (version * 4 + 17) (versionData version))) := by
    intro drawn
    unfold Grid.drawVersion
    by_cases h7 : version < 7
    · rw [if_pos h7, if_pos h7, List.append_nil]
    · have hdata : versionData version >>> 18 = 0 := by
        rw [Nat.shiftRight_eq_div_pow]
        exact Nat.div_eq_of_lt (versionData_lt hv')
      rw [if_neg h7, if_neg h7, painted_size, hsize]
      refine (if_neg (not_not.2 hdata)).trans (hmore _ _ fun c hc => ?_)
      have h := mem_versionModules.1 hc
      omega
  have hfirst := hmore [] _ htiming
  unfold Grid.drawFunctionPatterns
  rw [getAlignmentPatternPositions_ok hv hv', hsize]
  refine (congrArg (· >>= _) hfirst).trans ?_
  simp only [ok_bind, painted_size, hsize, hmore _ _ (hfinder _ _), hmore _ _ halignment, hformat, hversion]
  rfl

/-- **What is drawn** is what carries no data. -/
theorem mem_functionPatterns (hv : 1 ≤ version) (hv' : version ≤ 40) (ecl : Ecc)
    (hin : 0 ≤ c.1 ∧ c.1 < (version * 4 + 17 : ℕ) ∧ 0 ≤ c.2 ∧ c.2 < (version * 4 + 17 : ℕ)) :
    c ∈ (functionPatterns version ecl).map Prod.fst ↔ isFunctionModule version c = true := by
  have hversion : (c ∈ (if version < 7 then [] else versionModules (version * 4 + 17) (versionData version)).map
      Prod.fst) ↔ 7 ≤ version ∧ c ∈ (versionModules (version * 4 + 17) (versionData version)).map Prod.fst := by
    split_ifs with h
    · simp [h]
    · exact (and_iff_right (by omega)).symm
  unfold functionPatterns isFunctionModule
  simp only [List.map_append, List.mem_append, hversion, mem_timingPatterns, mem_finderPattern, mem_alignmentPatterns,
    mem_formatModules (show 21 ≤ version * 4 + 17 by omega), mem_versionModules, Bool.or_eq_true, Bool.and_eq_true,
    decide_eq_true_eq, alignmentPositions]
  by_cases ha : onAlignmentPattern ((getAlignmentPatternPositions version).toOption.getD []) c = true
  · simp [ha]
  · simp only [Bool.not_eq_true] at ha
    simp only [ha, Bool.false_eq_true, or_false]
    omega

end Noobs.Qrcodegen
