import Noobs.Proof.QrMask

/-!
# Symbols

What `QrCode::QrCode` draws, and what a scanner finds there.

* `drawCodewords_ok`: **the codewords fill the data modules**, and the assertion holds.
* `readCodewords_finished`: **they are read back**, under every mask.
* `readFormat_damaged`: **the format is found** with up to three of its modules wrong.
-/

namespace Noobs.Qrcodegen

open Bits Canvas

variable {version size mask : ℕ} {ecl : Ecc} {data codewords : List Byte} {c : ℤ × ℤ} {g : Grid}

/-! ## The drawn grid -/

/-- A symbol without data. -/
def drawn (version : ℕ) (ecl : Ecc) : Grid :=
  ({ size := version * 4 + 17 } : Grid).painted (functionPatterns version ecl)

theorem drawn_isFunction (hv : 1 ≤ version) (hv' : version ≤ 40) (ecl : Ecc)
    (hin : 0 ≤ c.1 ∧ c.1 < (version * 4 + 17 : ℕ) ∧ 0 ≤ c.2 ∧ c.2 < (version * 4 + 17 : ℕ)) :
    (drawn version ecl).isFunction c = isFunctionModule version c := by
  rw [Bool.eq_iff_iff, drawn, painted_isFunction, mem_functionPatterns hv hv' ecl hin]
  simp

theorem drawn_hasFormat (hv : 1 ≤ version) (ecl : Ecc) : (drawn version ecl).HasFormat := by
  refine ⟨show 21 ≤ version * 4 + 17 by omega, fun c hc => ?_⟩
  rw [formatModules_places _ 0 (formatData ecl 0)] at hc
  rw [drawn, painted_isFunction]
  refine .inl ?_
  unfold functionPatterns
  simp only [List.map_append, List.mem_append]
  exact .inl (.inr hc)

theorem filter_zigzag (hv : 1 ≤ version) (hv' : version ≤ 40) (ecl : Ecc) :
    (zigzag (version * 4 + 17)).filter (fun c => !(drawn version ecl).isFunction c) = dataModules version := by
  rw [@zigzag_eq version _ rfl]
  refine List.filter_congr fun c hc => ?_
  rw [drawn_isFunction hv hv' ecl ((@mem_scan version _ _ rfl).1 hc).2]

/-- **The room for data** is what the function patterns leave, and the scan comes to every module
of it once. -/
theorem free_modules (hv : 1 ≤ version) (hv' : version ≤ 40) (ecl : Ecc) :
    ∃ g, ({ size := version * 4 + 17 } : Grid).drawFunctionPatterns version ecl = .ok g ∧ (zigzag g.size).Nodup ∧
      (∀ c, g.Inside c → g.isFunction c = false → c ∈ zigzag g.size) ∧
        getNumRawDataModules version = .ok ((zigzag g.size).filter fun c => !g.isFunction c).length := by
  refine ⟨drawn version ecl, drawFunctionPatterns_ok hv hv' rfl ecl, ?_, ?_, ?_⟩
  · show (zigzag (version * 4 + 17)).Nodup
    rw [@zigzag_eq version _ rfl]
    exact @nodup_scan version _ rfl
  · intro c hin hfree
    have hdata : c ∈ dataModules version := mem_dataModules.2 ⟨hin, (drawn_isFunction hv hv' ecl hin).symm.trans hfree⟩
    rw [← filter_zigzag hv hv' ecl] at hdata
    exact (List.mem_filter.1 hdata).1
  · rw [getNumRawDataModules_ok hv hv', ← length_dataModules hv hv', ← filter_zigzag hv hv' ecl]
    rfl

theorem free_modules_seven : ∃ g,
    ({ size := 7 * 4 + 17 } : Grid).drawFunctionPatterns 7 .MEDIUM = .ok g ∧ (zigzag g.size).Nodup ∧
      (∀ c, g.Inside c → g.isFunction c = false → c ∈ zigzag g.size) ∧
        getNumRawDataModules 7 = .ok ((zigzag g.size).filter fun c => !g.isFunction c).length :=
  free_modules (by omega) (by omega) .MEDIUM

/-! ## Codewords -/

/-- With these bits in the modules that are no function modules, in this order. -/
def Grid.laid (g : Grid) (places : List (ℤ × ℤ)) (bits : List Bool) : Grid :=
  { g with modules := paint ((places.filter fun c => !g.isFunction c).zip bits) g.modules }

theorem foldl_drawBit (data : List Byte) (places : List (ℤ × ℤ)) (g : Grid) {i : ℕ} (hi : i ≤ data.length * 8) :
    places.foldl (drawBit data) (g, i) = (g.laid places ((bytesBits data).drop i),
      min (i + (places.filter fun c => !g.isFunction c).length) (data.length * 8)) := by
  induction places generalizing g i with
  | nil =>
    show (g, i) = (g, min (i + 0) (data.length * 8))
    rw [Nat.add_zero, Nat.min_eq_left hi]
  | cons c places ih =>
    rw [List.foldl_cons]
    by_cases hfunction : g.isFunction c = true
    · have hskip : drawBit data (g, i) c = (g, i) := if_neg (by simp [hfunction])
      have hfilter : (c :: places).filter (fun c => !g.isFunction c) = places.filter fun c => !g.isFunction c :=
        List.filter_cons_of_neg (by simp [hfunction])
      rw [hskip, ih g hi]
      unfold Grid.laid
      rw [hfilter]
    · have hfilter : (c :: places).filter (fun c => !g.isFunction c) = c :: places.filter fun c => !g.isFunction c :=
        List.filter_cons_of_pos (by simp [hfunction])
      by_cases hmore : i < data.length * 8
      · have hlen : i < (bytesBits data).length := by rw [length_bytesBits]; omega
        have hbit : (data.getD (i >>> 3) 0).getLsbD (7 - (i &&& 7)) = (bytesBits data)[i] := by
          have hmod : i &&& 7 = i % 8 := Nat.and_two_pow_sub_one_eq_mod i 3
          have hdiv : i >>> 3 = i / 8 := Nat.shiftRight_eq_div_pow i 3
          have hbyte : i / 8 < data.length := by omega
          have hat := getElem?_bytesBits data i
          rw [List.getElem?_eq_getElem hlen, List.getElem?_eq_getElem hbyte, Option.map_some] at hat
          rw [hmod, hdiv, List.getD_eq_getElem _ _ hbyte, Option.some.inj hat]
        have hdraw : drawBit data (g, i) c =
            ({ g with modules := Function.update g.modules c (bytesBits data)[i] }, i + 1) := by
          rw [← hbit]
          exact if_pos ⟨hfunction, hmore⟩
        rw [hdraw, ih _ hmore, List.drop_eq_getElem_cons hlen]
        unfold Grid.laid
        rw [hfilter, List.zip_cons_cons, paint_cons, List.length_cons]
        refine Prod.ext rfl ?_
        show min (i + 1 + (places.filter fun c => !g.isFunction c).length) _ = _
        congr 1
        omega
      · obtain rfl : i = data.length * 8 := by omega
        have hskip : drawBit data (g, data.length * 8) c = (g, data.length * 8) := if_neg (by simp)
        have hnone : (bytesBits data).drop (data.length * 8) = [] :=
          List.drop_eq_nil_of_le (by rw [length_bytesBits]; omega)
        rw [hskip, ih g hi, hnone]
        unfold Grid.laid
        rw [List.zip_nil_right, List.zip_nil_right, hfilter, List.length_cons]
        congr 1
        omega

/-- **The codewords fill the data modules.** -/
theorem drawCodewords_ok (hv : 1 ≤ version) (hv' : version ≤ 40) (ecl : Ecc)
    (hlen : codewords.length = rawModules version / 8) :
    (drawn version ecl).drawCodewords version codewords =
      .ok ((drawn version ecl).laid (zigzag (version * 4 + 17)) (bytesBits codewords)) := by
  have hloop := foldl_drawBit codewords (zigzag (version * 4 + 17)) (drawn version ecl) (Nat.zero_le _)
  rw [filter_zigzag hv hv' ecl, length_dataModules hv hv', Nat.zero_add, List.drop_zero] at hloop
  have hall : min (rawModules version) (codewords.length * 8) = codewords.length * 8 := Nat.min_eq_right (by omega)
  unfold Grid.drawCodewords
  rw [getNumRawDataModules_ok hv hv', ok_bind, if_neg (not_not.2 hlen)]
  rw [hall] at hloop
  show (if ((zigzag (version * 4 + 17)).foldl (drawBit codewords) (drawn version ecl, 0)).2 ≠ codewords.length * 8 then
    _ else Except.ok ((zigzag (version * 4 + 17)).foldl (drawBit codewords) (drawn version ecl, 0)).1) = _
  rw [hloop]
  exact if_neg (not_not.2 rfl)

/-- A symbol with these codewords, before its mask. -/
def laidOut (version : ℕ) (ecl : Ecc) (codewords : List Byte) : Grid :=
  (drawn version ecl).laid (zigzag (version * 4 + 17)) (bytesBits codewords)

theorem laidOut_hasFormat (hv : 1 ≤ version) (ecl : Ecc) (codewords : List Byte) :
    (laidOut version ecl codewords).HasFormat :=
  ⟨(drawn_hasFormat hv ecl).size, (drawn_hasFormat hv ecl).places⟩

theorem laidOut_isFunction (hv : 1 ≤ version) (hv' : version ≤ 40) (ecl : Ecc)
    (hin : 0 ≤ c.1 ∧ c.1 < (version * 4 + 17 : ℕ) ∧ 0 ≤ c.2 ∧ c.2 < (version * 4 + 17 : ℕ)) :
    (laidOut version ecl codewords).isFunction c = isFunctionModule version c := drawn_isFunction hv hv' ecl hin

/-! ## Construction -/

/-- The symbol with these data and this mask. -/
def symbol (version : ℕ) (ecl : Ecc) (data : List Byte) (mask : ℕ) : QrCode where
  version := version
  errorCorrectionLevel := ecl
  mask := mask
  grid := (laidOut version ecl ((blocksOf version ecl).codewords data)).finished ecl mask

theorem length_codewords (hv : 1 ≤ version) (hv' : version ≤ 40) (ecl : Ecc)
    (hdata : data.length = dataCodewords version ecl) :
    ((blocksOf version ecl).codewords data).length = rawModules version / 8 := by
  obtain ⟨hgood, -⟩ := blocksOf_good hv hv' ecl
  have hsum : data.length = (blocksOf version ecl).dataLens.sum := hdata.trans (dataLens_sum hv hv' ecl).symm
  exact length_interleave hgood all_length (all_headD hgood hsum)

section
variable (hv : 1 ≤ version) (hv' : version ≤ 40) (ecl : Ecc) (hdata : data.length = dataCodewords version ecl)
include hv hv' hdata

theorem new_eq {mask : ℤ} (hmask : -1 ≤ mask ∧ mask ≤ 7) : QrCode.new version ecl data mask = (do
    let s ← (laidOut version ecl ((blocksOf version ecl).codewords data)).handleConstructorMasking ecl mask
    return { version := version, errorCorrectionLevel := ecl, mask := s.2, grid := s.1 }) := by
  have hin : ¬(version < 1 ∨ 40 < version ∨ mask < -1 ∨ 7 < mask) := by omega
  have hdrawn : ({ size := version * 4 + 17 } : Grid).drawFunctionPatterns version ecl = .ok (drawn version ecl) :=
    drawFunctionPatterns_ok hv hv' rfl ecl
  unfold QrCode.new
  rw [if_neg hin, hdrawn, appendErrorCorrection_eq hv hv' ecl hdata, ok_bind, ok_bind,
    drawCodewords_ok hv hv' ecl (length_codewords hv hv' ecl hdata), ok_bind]
  rfl

theorem new_given (hmask : mask < 8) : QrCode.new version ecl data mask = .ok (symbol version ecl data mask) := by
  rw [new_eq hv hv' ecl hdata (by omega),
    handleConstructorMasking_given (laidOut_hasFormat hv ecl _) ecl hmask]
  rfl

theorem new_auto : ∃ best < 8, QrCode.new version ecl data (-1) = .ok (symbol version ecl data best) ∧
    (∀ mask < 8, (symbol version ecl data best).grid.getPenaltyScore ≤
      (symbol version ecl data mask).grid.getPenaltyScore) ∧
    ∀ mask < best, (symbol version ecl data best).grid.getPenaltyScore <
      (symbol version ecl data mask).grid.getPenaltyScore := by
  have hsize : (laidOut version ecl ((blocksOf version ecl).codewords data)).size ≤ 177 :=
    show version * 4 + 17 ≤ 177 by omega
  obtain ⟨best, hbest, hrun, hleast, hfirst⟩ :=
    handleConstructorMasking_auto (laidOut_hasFormat hv ecl ((blocksOf version ecl).codewords data)) hsize ecl
  refine ⟨best, hbest, ?_, hleast, hfirst⟩
  rw [new_eq hv hv' ecl hdata (by omega), hrun]
  rfl

/-- A symbol gets another mask as if it had been made with it. -/
theorem remask_symbol (hmask : mask < 8) {mask' : ℤ} (hmask' : -1 ≤ mask' ∧ mask' ≤ 7) :
    (symbol version ecl data mask).remask mask' = QrCode.new version ecl data mask' := by
  have hformat := laidOut_hasFormat hv ecl ((blocksOf version ecl).codewords data)
  have hformat' := hformat.formatted ecl mask
  have hin : ¬(mask' < -1 ∨ 7 < mask') := by omega
  have hundone : (symbol version ecl data mask).grid.applyMask (symbol version ecl data mask).mask =
      .ok ((laidOut version ecl ((blocksOf version ecl).codewords data)).formatted ecl mask) :=
    (applyMask_ok hmask).trans (congrArg _ (masked_masked _ mask))
  have hsame : ((laidOut version ecl ((blocksOf version ecl).codewords data)).formatted ecl mask).handleConstructorMasking
      ecl mask' = (laidOut version ecl ((blocksOf version ecl).codewords data)).handleConstructorMasking ecl mask' :=
    handleConstructorMasking_formatted hformat (show version * 4 + 17 ≤ 177 by omega) ecl mask hmask'
  rw [new_eq hv hv' ecl hdata hmask']
  unfold QrCode.remask
  rw [if_neg hin, hundone, ok_bind]
  show (Grid.handleConstructorMasking _ ecl mask' >>= _) = _
  rw [hsame]
  rfl

end

theorem version_of_codewords (h : getNumDataCodewords version ecl = .ok data.length) :
    1 ≤ version ∧ version ≤ 40 ∧ data.length = dataCodewords version ecl := by
  by_cases hrange : 1 ≤ version ∧ version ≤ 40
  · rw [getNumDataCodewords_ok hrange.1 hrange.2] at h
    exact ⟨hrange.1, hrange.2, (Except.ok.inj h).symm⟩
  · unfold getNumDataCodewords at h
    rw [if_pos (by omega)] at h
    cases h

/-- What is constructed is a symbol with one of the masks. -/
theorem new_symbol (hv : 1 ≤ version) (hv' : version ≤ 40) (ecl : Ecc) (hdata : data.length = dataCodewords version ecl)
    {mask : ℤ} (hmask : -1 ≤ mask ∧ mask ≤ 7) :
    ∃ best < 8, QrCode.new version ecl data mask = .ok (symbol version ecl data best) := by
  by_cases hauto : mask = -1
  · obtain ⟨best, hbest, hok, -⟩ := new_auto hv hv' ecl hdata
    exact ⟨best, hbest, hauto ▸ hok⟩
  · obtain ⟨m, rfl⟩ : ∃ m : ℕ, mask = m := ⟨mask.toNat, by omega⟩
    exact ⟨m, by omega, new_given hv hv' ecl hdata (by omega)⟩

/-- Nothing else is constructed. -/
theorem symbol_of_new {qr : QrCode} {mask : ℤ} (h : QrCode.new version ecl data mask = .ok qr) :
    1 ≤ version ∧ version ≤ 40 ∧ data.length = dataCodewords version ecl ∧
      ∃ best < 8, qr = symbol version ecl data best := by
  by_cases hin : version < 1 ∨ 40 < version ∨ mask < -1 ∨ 7 < mask
  · unfold QrCode.new at h
    rw [if_pos hin] at h
    cases h
  · have hv : 1 ≤ version := by omega
    have hv' : version ≤ 40 := by omega
    have hdrawn : ({ size := version * 4 + 17 } : Grid).drawFunctionPatterns version ecl = .ok (drawn version ecl) :=
      drawFunctionPatterns_ok hv hv' rfl ecl
    have hblocks : ∃ codewords, appendErrorCorrection version ecl data = .ok codewords := by
      cases hcodewords : appendErrorCorrection version ecl data with
      | ok codewords => exact ⟨codewords, rfl⟩
      | error e =>
        unfold QrCode.new at h
        rw [if_neg hin, hdrawn, ok_bind, hcodewords] at h
        cases h
    obtain ⟨codewords, hcodewords⟩ := hblocks
    obtain ⟨hdata, -⟩ := appendErrorCorrection_ok hv hv' ecl hcodewords
    obtain ⟨best, hbest, hok⟩ := new_symbol hv hv' ecl hdata (show -1 ≤ mask ∧ mask ≤ 7 by omega)
    rw [hok] at h
    exact ⟨hv, hv', hdata, best, hbest, (Except.ok.inj h).symm⟩

/-- **The automatic mask** is the one with the least penalty, the first of them: the symbol is
the one that asks for it. -/
theorem automatic_mask (h : getNumDataCodewords version ecl = .ok data.length) :
    ∃ best : ℕ, best < 8 ∧ QrCode.new version ecl data (-1) = QrCode.new version ecl data best ∧
      ∃ qr, QrCode.new version ecl data best = .ok qr ∧ qr.mask = best ∧ ∀ mask : ℕ, mask < 8 → ∃ qr',
        QrCode.new version ecl data mask = .ok qr' ∧ qr.grid.getPenaltyScore ≤ qr'.grid.getPenaltyScore ∧
          (mask < best → qr.grid.getPenaltyScore < qr'.grid.getPenaltyScore) := by
  obtain ⟨hv, hv', hdata⟩ := version_of_codewords h
  obtain ⟨best, hbest, hauto, hleast, hfirst⟩ := new_auto hv hv' ecl hdata
  have hgiven := new_given hv hv' ecl hdata hbest
  refine ⟨best, hbest, hauto.trans hgiven.symm, _, hgiven, rfl, fun mask hmask => ?_⟩
  exact ⟨_, new_given hv hv' ecl hdata hmask, hleast mask hmask, hfirst mask⟩

theorem automatic_mask_zeros : ∃ best : ℕ, best < 8 ∧
    QrCode.new 1 .HIGH (List.replicate 9 0) (-1) = QrCode.new 1 .HIGH (List.replicate 9 0) best ∧
      ∃ qr, QrCode.new 1 .HIGH (List.replicate 9 0) best = .ok qr ∧ qr.mask = best ∧ ∀ mask : ℕ, mask < 8 → ∃ qr',
        QrCode.new 1 .HIGH (List.replicate 9 0) mask = .ok qr' ∧ qr.grid.getPenaltyScore ≤ qr'.grid.getPenaltyScore ∧
          (mask < best → qr.grid.getPenaltyScore < qr'.grid.getPenaltyScore) := automatic_mask rfl

/-- **Another mask** makes the symbol that was to have it from the beginning. -/
theorem remask_new {qr : QrCode} {mask mask' : ℤ} (h : QrCode.new version ecl data mask = .ok qr)
    (hmask' : -1 ≤ mask' ∧ mask' ≤ 7) : qr.remask mask' = QrCode.new version ecl data mask' := by
  obtain ⟨hv, hv', hdata, best, hbest, rfl⟩ := symbol_of_new h
  exact remask_symbol hv hv' ecl hdata hbest hmask'

theorem remask_new_zeros : (symbol 1 .HIGH (List.replicate 9 0) 3).remask (-1) =
    QrCode.new 1 .HIGH (List.replicate 9 0) (-1) :=
  remask_new (new_given le_rfl (by omega) .HIGH rfl (show 3 < 8 by omega)) (by omega)

/-! ## Reading -/

/-- The modules that carry data show it under the mask. -/
theorem finished_data (hv : 1 ≤ version) (hv' : version ≤ 40) (ecl : Ecc) (mask : ℕ)
    (hc : c ∈ dataModules version) :
    ((laidOut version ecl codewords).finished ecl mask).modules c =
      ((laidOut version ecl codewords).modules c ^^ invert mask c.1.toNat c.2.toNat) := by
  obtain ⟨hin, hdata⟩ := mem_dataModules.1 hc
  have hformat := laidOut_hasFormat hv ecl codewords
  have hfunction : (laidOut version ecl codewords).isFunction c = false :=
    (laidOut_isFunction hv hv' ecl hin).trans hdata
  have hnot : c ∉ (formatModules (version * 4 + 17) (formatData ecl mask)).map Prod.fst := by
    intro hmem
    rw [formatModules_places _ _ 0] at hmem
    have htrue := hformat.places c hmem
    rw [hfunction] at htrue
    cases htrue
  have hformatted : ((laidOut version ecl codewords).formatted ecl mask).modules c =
      (laidOut version ecl codewords).modules c := paint_of_notMem hnot
  have hfunction' : ((laidOut version ecl codewords).formatted ecl mask).isFunction c = false := by
    rw [formatted_isFunction hformat, hfunction]
  have hinside : ((laidOut version ecl codewords).formatted ecl mask).Inside c := hin
  unfold Grid.finished Grid.masked
  simp only [if_pos hinside, hformatted, hfunction', Bool.not_false, Bool.and_true]

/-- **The codewords are read back** under every mask. -/
theorem readCodewords_finished (hv : 1 ≤ version) (hv' : version ≤ 40) (ecl : Ecc) (mask : ℕ)
    (hlen : codewords.length = rawModules version / 8) :
    readCodewords version mask ((laidOut version ecl codewords).finished ecl mask).modules = codewords := by
  have hcount := length_dataModules hv hv'
  have hbits : (bytesBits codewords).length ≤ (dataModules version).length := by
    rw [length_bytesBits]
    omega
  have hlaid : (laidOut version ecl codewords).modules =
      paint ((dataModules version).zip (bytesBits codewords)) (drawn version ecl).modules := by
    rw [← filter_zigzag hv hv' ecl]
    rfl
  have hread : ((dataModules version).map fun c => ((laidOut version ecl codewords).finished ecl mask).modules c ^^
      invert mask c.1.toNat c.2.toNat) = (dataModules version).map (laidOut version ecl codewords).modules := by
    refine List.map_congr_left fun c hc => ?_
    rw [finished_data hv hv' ecl mask hc, Bool.xor_assoc, Bool.xor_self, Bool.xor_false]
  unfold readCodewords
  rw [hread, hlaid, map_paint_zip (nodup_dataModules version) hbits]
  refine toBytes_bytesBits codewords ?_
  rw [List.length_map, List.length_drop, length_bytesBits]
  omega

/-- The second copy of the format, and the dark module. -/
def secondCopy (size data : ℕ) : List ((ℤ × ℤ) × Bool) :=
  ((List.range 8).map fun i : ℕ => (((size : ℤ) - 1 - i, 8), data.testBit i)) ++
  ((List.range 7).map fun i : ℕ => ((8, (size : ℤ) - 15 + ((i : ℤ) + 8)), data.testBit (i + 8))) ++
  [((8, (size : ℤ) - 8), true)]

theorem formatModules_eq (size data : ℕ) :
    formatModules size data = formatPlaces.zip ((List.range 15).map data.testBit) ++ secondCopy size data := by
  unfold formatModules secondCopy
  simp only [List.append_assoc]
  rfl

theorem notMem_secondCopy {data : ℕ} (hsize : 21 ≤ size) (hc : c ∈ formatPlaces) :
    c ∉ (secondCopy size data).map Prod.fst := by
  have hlow : ∀ c ∈ formatPlaces, c.1 ≤ 8 ∧ c.2 ≤ 8 := by decide
  have h := hlow c hc
  obtain ⟨x, y⟩ := c
  unfold secondCopy
  simp only [List.map_append, List.map_map, List.map_cons, List.map_nil, List.mem_append, List.mem_map, List.mem_range,
    List.mem_singleton, Function.comp, Prod.mk.injEq]
  rintro ((⟨i, hi, hx, hy⟩ | ⟨i, hi, hx, hy⟩) | ⟨hx, hy⟩) <;> omega

/-- **The format is read back.** -/
theorem formatPlaces_finished (h : g.HasFormat) (ecl : Ecc) (mask : ℕ) :
    formatPlaces.map (g.finished ecl mask).modules = (List.range 15).map (formatData ecl mask).testBit := by
  have hfirst : ∀ c ∈ formatPlaces, (g.finished ecl mask).modules c =
      paint (formatPlaces.zip ((List.range 15).map (formatData ecl mask).testBit)) g.modules c := by
    intro c hc
    have hformatted : (g.formatted ecl mask).modules c =
        paint (formatPlaces.zip ((List.range 15).map (formatData ecl mask).testBit)) g.modules c := by
      show paint (formatModules g.size (formatData ecl mask)) g.modules c = _
      rw [formatModules_eq, paint_append, paint_of_notMem (notMem_secondCopy h.size hc)]
    have hfunction : (g.formatted ecl mask).isFunction c = true := by
      have hplace : c ∈ (formatModules g.size 0).map Prod.fst := by
        have hall : ∀ c ∈ formatPlaces, c ∈ (formatPlaces.zip ((List.range 15).map (0 : ℕ).testBit)).map Prod.fst := by
          decide
        rw [formatModules_eq, List.map_append]
        exact List.mem_append_left _ (hall c hc)
      rw [formatted_isFunction h]
      exact h.places c hplace
    unfold Grid.finished Grid.masked
    simp only [hfunction, hformatted, Bool.not_true, Bool.and_false, Bool.xor_false, ite_self]
  have hnodup : formatPlaces.Nodup := by decide
  rw [List.map_congr_left hfirst, map_paint_zip hnodup (by simp [formatPlaces])]
  simp [formatPlaces]

theorem value_formatPlaces (h : g.HasFormat) (ecl : Ecc) (hmask : mask < 8) :
    value (formatPlaces.map (g.finished ecl mask).modules).reverse = formatData ecl mask := by
  rw [formatPlaces_finished h ecl mask, ← List.map_reverse]
  exact value_field (formatData_lt ecl hmask)

/-! ## Damaged formats -/

theorem bitDifferences_triangle (n a b c : ℕ) : bitDifferences n a c ≤ bitDifferences n a b + bitDifferences n b c := by
  unfold bitDifferences
  induction n with
  | zero => exact Nat.zero_le _
  | succ n ih =>
    have hlast : (if (a.testBit n != c.testBit n) = true then 1 else 0) ≤
        (if (a.testBit n != b.testBit n) = true then 1 else 0) + if (b.testBit n != c.testBit n) = true then 1 else 0 := by
      cases a.testBit n <;> cases b.testBit n <;> cases c.testBit n <;> decide
    rw [List.range_succ, List.countP_append, List.countP_append, List.countP_append, List.countP_singleton,
      List.countP_singleton, List.countP_singleton]
    omega

theorem bitDifferences_comm (n a b : ℕ) : bitDifferences n a b = bitDifferences n b a := by
  unfold bitDifferences
  exact List.countP_congr fun i _ => by rw [bne_comm]

theorem mem_formats (ecl : Ecc) (hmask : mask < 8) : (ecl, mask) ∈ formats := by
  have hall : ∀ m < 8, ∀ ecl ∈ [Ecc.LOW, .MEDIUM, .QUARTILE, .HIGH], (ecl, m) ∈ formats := by decide
  exact hall mask hmask ecl (by cases ecl <;> decide)

/-- **Formats are far from each other.** -/
theorem formats_far : ∀ f ∈ formats, ∀ f' ∈ formats, f ≠ f' →
    7 ≤ bitDifferences 15 (formatData f.1 f.2) (formatData f'.1 f'.2) := by
  decide +kernel

/-- **The format is found** with up to three of its bits wrong. -/
theorem readFormat_damaged (ecl : Ecc) (hmask : mask < 8) {data : ℕ}
    (hdamage : bitDifferences 15 (formatData ecl mask) data ≤ 3) : readFormat data = some (ecl, mask) := by
  have hmem := mem_formats ecl hmask
  have hsome : (readFormat data).isSome = true := by
    unfold readFormat
    rw [List.find?_isSome]
    exact ⟨_, hmem, decide_eq_true hdamage⟩
  obtain ⟨f, hf⟩ := Option.isSome_iff_exists.1 hsome
  have hfound : formats.find? (fun f => decide (bitDifferences 15 (formatData f.1 f.2) data ≤ 3)) = some f := hf
  have hnear := List.find?_some hfound
  rw [decide_eq_true_eq] at hnear
  have hsame : f = (ecl, mask) := by
    by_contra hne
    have hfar := formats_far f (List.mem_of_find?_eq_some hfound) (ecl, mask) hmem hne
    dsimp only at hfar
    have htriangle := bitDifferences_triangle 15 (formatData f.1 f.2) data (formatData ecl mask)
    rw [bitDifferences_comm 15 data] at htriangle
    omega
  rw [hf, hsame]

/-! ## Damaged symbols -/

/-- A picture from which the symbol can still be told: of the format no more than three modules
are wrong, and of each block no more codewords than half of those for error correction. -/
structure Recognizable (qr : QrCode) (picture : ℤ × ℤ → Bool) : Prop where
  format : bitDifferences 15 (value (formatPlaces.map qr.grid.modules).reverse)
    (value (formatPlaces.map picture).reverse) ≤ 3
  blocks : ∀ j < (blocksOf qr.version qr.errorCorrectionLevel).numBlocks,
    2 * ReedSolomon.differences
        ((blocksOf qr.version qr.errorCorrectionLevel).wordOf (readCodewords qr.version qr.mask qr.grid.modules) j)
        ((blocksOf qr.version qr.errorCorrectionLevel).wordOf (readCodewords qr.version qr.mask picture) j) ≤
      (blocksOf qr.version qr.errorCorrectionLevel).blockEccLen

/-- **A damaged symbol can be told** from every other of its size. -/
theorem recognizable_unique {ecl' : Ecc} {data' : List Byte} {mask mask' : ℤ} {qr qr' : QrCode}
    {picture : ℤ × ℤ → Bool} (hqr : QrCode.new version ecl data mask = .ok qr)
    (hqr' : QrCode.new version ecl' data' mask' = .ok qr') (h : Recognizable qr picture)
    (h' : Recognizable qr' picture) : qr = qr' ∧ data = data' := by
  obtain ⟨hv, hv', hdata, best, hbest, rfl⟩ := symbol_of_new hqr
  obtain ⟨-, -, hdata', best', hbest', rfl⟩ := symbol_of_new hqr'
  have hvalue : value (formatPlaces.map (symbol version ecl data best).grid.modules).reverse = formatData ecl best :=
    value_formatPlaces (laidOut_hasFormat hv ecl _) ecl hbest
  have hvalue' : value (formatPlaces.map (symbol version ecl' data' best').grid.modules).reverse = formatData ecl' best' :=
    value_formatPlaces (laidOut_hasFormat hv ecl' _) ecl' hbest'
  have hformat := h.format
  have hformat' := h'.format
  rw [hvalue] at hformat
  rw [hvalue'] at hformat'
  have hsame := (readFormat_damaged ecl hbest hformat).symm.trans (readFormat_damaged ecl' hbest' hformat')
  obtain ⟨rfl, rfl⟩ := Prod.mk.inj (Option.some.inj hsame)
  have hread : readCodewords version best (symbol version ecl data best).grid.modules =
      (blocksOf version ecl).codewords data :=
    readCodewords_finished hv hv' ecl best (length_codewords hv hv' ecl hdata)
  have hread' : readCodewords version best (symbol version ecl data' best).grid.modules =
      (blocksOf version ecl).codewords data' :=
    readCodewords_finished hv hv' ecl best (length_codewords hv hv' ecl hdata')
  have hblocks : ∀ j < (blocksOf version ecl).numBlocks,
      2 * ReedSolomon.differences ((blocksOf version ecl).wordOf ((blocksOf version ecl).codewords data) j)
        ((blocksOf version ecl).wordOf (readCodewords version best picture) j) ≤ (blocksOf version ecl).blockEccLen :=
    fun j hj => hread ▸ h.blocks j hj
  have hblocks' : ∀ j < (blocksOf version ecl).numBlocks,
      2 * ReedSolomon.differences ((blocksOf version ecl).wordOf (readCodewords version best picture) j)
        ((blocksOf version ecl).wordOf ((blocksOf version ecl).codewords data') j) ≤
          (blocksOf version ecl).blockEccLen := by
    intro j hj
    rw [ReedSolomon.differences_comm]
    exact hread' ▸ h'.blocks j hj
  obtain rfl := damaged_codewords hv hv' (appendErrorCorrection_eq hv hv' ecl hdata)
    (appendErrorCorrection_eq hv hv' ecl hdata') hblocks hblocks'
  exact ⟨rfl, rfl⟩

/-- A symbol of version 1. -/
def zeros : QrCode := symbol 1 .HIGH (List.replicate 9 0) 3

/-- The symbol with one module of its format wrong. -/
def stained : ℤ × ℤ → Bool := Function.update zeros.grid.modules (8, 0) (!zeros.grid.modules (8, 0))

theorem stained_recognizable : Recognizable zeros stained := by
  have hformat : formatPlaces.map zeros.grid.modules = (List.range 15).map (formatData .HIGH 3).testBit :=
    formatPlaces_finished (laidOut_hasFormat le_rfl .HIGH _) .HIGH 3
  have helsewhere : ∀ c, c ≠ (8, 0) → stained c = zeros.grid.modules c := fun c hc => Function.update_of_ne hc _ _
  have hstained : formatPlaces.map stained = (!zeros.grid.modules (8, 0)) :: (formatPlaces.map zeros.grid.modules).tail := by
    have hrest : ∀ c ∈ formatPlaces.tail, c ≠ (8, 0) := by decide
    have htail : formatPlaces.tail.map stained = formatPlaces.tail.map zeros.grid.modules :=
      List.map_congr_left fun c hc => helsewhere c (hrest c hc)
    have hhere : stained (8, 0) = !zeros.grid.modules (8, 0) := Function.update_self _ _ _
    rw [← List.map_tail, ← htail, ← hhere]
    rfl
  have hfirst : zeros.grid.modules (8, 0) = (formatData .HIGH 3).testBit 0 := (List.cons.inj hformat).1
  have hdata : readCodewords 1 3 stained = readCodewords 1 3 zeros.grid.modules := by
    unfold readCodewords
    refine congrArg Bits.toBytes (List.map_congr_left fun c hc => ?_)
    have hne : c ≠ (8, 0) := by
      rintro rfl
      exact absurd (mem_dataModules.1 hc).2 (by decide)
    rw [helsewhere c hne]
  refine ⟨?_, fun j _ => ?_⟩
  · rw [hstained, hformat, hfirst]
    decide
  · show 2 * ReedSolomon.differences (Blocks.wordOf _ (readCodewords 1 3 zeros.grid.modules) j)
      (Blocks.wordOf _ (readCodewords 1 3 stained) j) ≤ _
    rw [hdata]
    have hzero : ∀ xs : List Byte, ReedSolomon.differences xs xs = 0 := by
      intro xs
      induction xs with
      | nil => rfl
      | cons x xs ih => rw [ReedSolomon.differences_cons, ih, if_neg (not_not.2 rfl)]
    rw [hzero]
    exact Nat.zero_le _

/-- Nothing else looks like it. -/
theorem stained_unique : zeros = zeros ∧ List.replicate 9 (0 : Byte) = List.replicate 9 0 :=
  recognizable_unique (new_given le_rfl (by omega) .HIGH rfl (show 3 < 8 by omega))
    (new_given le_rfl (by omega) .HIGH rfl (show 3 < 8 by omega)) stained_recognizable stained_recognizable

end Noobs.Qrcodegen
