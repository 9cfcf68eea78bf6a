import Noobs.Proof.QrVersion

/-!
# Texts

* `scan_symbol`: a scanner reads the data of a symbol.
* `segments_scanned`: **whatever was encoded is read**, in segments of whatever modes.
* `encodeText_printed`: **the console shows the text**.
* `encodeText_smallest`: no other segment for the text makes a smaller symbol.
-/

namespace Noobs.Qrcodegen

open Bits

variable {version mask : ℕ} {ecl : Ecc} {segs : List QrSegment} {data : List Byte}

/-! ## Reading symbols -/

/-- **A scanner reads the segments** of a symbol. -/
theorem scan_symbol (hv : 1 ≤ version) (hv' : version ≤ 40) (ecl : Ecc) (hdata : data.length = dataCodewords version ecl)
    (hmask : mask < 8) : scan (version * 4 + 17) (symbol version ecl data mask).grid.modules =
      readSegments version data.length (bytesBits data) := by
  obtain ⟨hgood, -⟩ := blocksOf_good hv hv' ecl
  have hversion : (version * 4 + 17 - 17) / 4 = version := by omega
  have hsum : data.length = (blocksOf version ecl).dataLens.sum := hdata.trans (dataLens_sum hv hv' ecl).symm
  have hlen := length_codewords hv hv' ecl hdata
  have hformat : readFormat (value (formatPlaces.map (symbol version ecl data mask).grid.modules).reverse) =
      some (ecl, mask) := by
    have hvalue := value_formatPlaces (laidOut_hasFormat hv ecl ((blocksOf version ecl).codewords data)) ecl hmask
    refine (congrArg readFormat hvalue).trans (readFormat_damaged ecl hmask ?_)
    simp [bitDifferences]
  have hread : readCodewords version mask (symbol version ecl data mask).grid.modules =
      (blocksOf version ecl).codewords data := readCodewords_finished hv hv' ecl mask hlen
  unfold scan
  simp only [hversion, hformat, Option.bind_eq_bind, Option.bind_some, hread, readData_codewords hgood hsum]

theorem reads_known {texts : List (List Byte)} (h : List.Forall₂ Reads segs texts) : ∀ seg ∈ segs, seg.mode.Known := by
  induction h with
  | nil => exact fun _ h => absurd h List.not_mem_nil
  | cons hseg _ ih => exact List.forall_mem_cons.2 ⟨hseg.known.1, ih⟩

/-- **The segments that were encoded are read**, if they have room. -/
theorem scan_encoded {minVersion maxVersion : ℕ} {mask : ℤ} {texts : List (List Byte)}
    (hrange : 1 ≤ minVersion ∧ minVersion ≤ maxVersion ∧ maxVersion ≤ 40) (hmask : -1 ≤ mask ∧ mask ≤ 7)
    (hreads : List.Forall₂ Reads segs texts) (ecl : Ecc) (boostEcl : Bool) :
    (∃ qr v, encodeSegments segs ecl minVersion maxVersion mask boostEcl = .ok qr ∧ qr.grid.size = v * 4 + 17 ∧ 1 ≤ v ∧
        scan qr.grid.size qr.grid.modules = some texts.flatten) ∨
      ((∀ v, minVersion ≤ v → v ≤ maxVersion → ¬HasRoom v ecl segs) ∧
        encodeSegments segs ecl minVersion maxVersion mask boostEcl = .error "Data too long") := by
  have hknown := reads_known hreads
  rcases encodeSegments_spec hrange hmask hknown ecl boostEcl with
    ⟨v, level, data, tail, hv, hv', -, hlevel, hdata, hbits, hends, hnew⟩ | hfail
  · have hpos : 1 ≤ v := by omega
    have h40 : v ≤ 40 := by omega
    obtain ⟨best, hbest, hok⟩ := new_symbol hpos h40 level hdata hmask
    have hfuel : segs.length ≤ data.length := by
      have hbytes := length_le_encoded hpos h40 hknown
      have hlen := congrArg List.length hbits
      rw [length_bytesBits, List.length_append] at hlen
      omega
    refine .inl ⟨_, v, hnew.trans hok, rfl, hpos, (scan_symbol hpos h40 level hdata hbest).trans ?_⟩
    rw [hbits, readSegments_encoded hpos h40 hreads hlevel.room.1 hends hfuel]
  · exact .inr hfail

/-- A segment that was made for these bytes. -/
def Made (seg : QrSegment) (bytes : List Byte) : Prop :=
  (∃ text, isNumeric text = true ∧ makeNumeric text = .ok seg ∧ cBytes text = bytes) ∨
    (∃ text, isAlphanumeric text = true ∧ makeAlphanumeric text = .ok seg ∧ cBytes text = bytes) ∨
      makeBytes bytes = .ok seg

theorem Made.reads {seg : QrSegment} {bytes : List Byte} (h : Made seg bytes) : Reads seg bytes := by
  rcases h with ⟨text, hnumeric, hmake, rfl⟩ | ⟨text, halphanumeric, hmake, rfl⟩ | hmake
  · obtain ⟨seg', hmake', hreads⟩ := makeNumeric_reads hnumeric
    exact Except.ok.inj (hmake'.symm.trans hmake) ▸ hreads
  · obtain ⟨seg', hmake', hreads⟩ := makeAlphanumeric_reads halphanumeric
    exact Except.ok.inj (hmake'.symm.trans hmake) ▸ hreads
  · obtain ⟨seg', hmake', hreads⟩ := makeBytes_reads bytes
    exact Except.ok.inj (hmake'.symm.trans hmake) ▸ hreads

/-- Binary data is read as it is. -/
theorem encodeBinary_scanned (data : List Byte) (ecl : Ecc) :
    (∃ qr, encodeBinary data ecl = .ok qr ∧ scan qr.grid.size qr.grid.modules = some data) ∨
      encodeBinary data ecl = .error "Data too long" := by
  obtain ⟨seg, hmake, hreads⟩ := makeBytes_reads data
  have hencode : encodeBinary data ecl = encodeSegments [seg] ecl 1 40 (-1) true := by
    unfold encodeBinary
    rw [hmake, ok_bind]
  have hrange : 1 ≤ 1 ∧ 1 ≤ 40 ∧ 40 ≤ 40 := by omega
  have hmask : -1 ≤ (-1 : ℤ) ∧ (-1 : ℤ) ≤ 7 := by omega
  rw [hencode]
  rcases scan_encoded hrange hmask (.cons hreads .nil) ecl true with ⟨qr, -, hok, -, -, hscan⟩ | ⟨-, hfail⟩
  · exact .inl ⟨qr, hok, hscan.trans (by rw [List.flatten_singleton])⟩
  · exact .inr hfail

/-! ## The console -/

/-- **How many bits** some characters take. -/
theorem length_packedBits {a : Alphabet} (hgroup : 0 < a.group) (vs : List ℕ) : (packedBits a vs).length =
    a.width * (vs.length / a.group) + if vs.length % a.group = 0 then 0 else a.rest (vs.length % a.group) := by
  induction vs using packedBits.induct a with
  | case1 vs hmore ih =>
    obtain ⟨m, hm⟩ := Nat.exists_eq_add_of_le hmore.2
    have hdrop : vs.length - a.group = m := by omega
    rw [List.length_drop, hdrop] at ih
    rw [packedBits, if_pos hmore, List.length_append, length_field, ih, hm, Nat.add_mod_left, Nat.add_div_left m hgroup]
    ring
  | case2 vs hlast =>
    have hlt : vs.length < a.group := by omega
    rw [packedBits, if_neg hlast, Nat.div_eq_of_lt hlt, Nat.mod_eq_of_lt hlt, tailBits]
    by_cases hnil : vs = []
    · simp [hnil]
    · have hpos : 0 < vs.length := List.length_pos_iff.2 hnil
      rw [if_neg hnil, if_neg (by omega), length_field]
      omega

/-- The bits of a segment of so many characters, by its mode. -/
theorem Reads.bitLength {seg : QrSegment} {bytes : List Byte} (h : Reads seg bytes) : seg.numChars = bytes.length ∧
    (seg.mode = .NUMERIC → seg.bitLength = 10 * (bytes.length / 3) +
      if bytes.length % 3 = 0 then 0 else if bytes.length % 3 = 1 then 4 else 7) ∧
    (seg.mode = .ALPHANUMERIC → seg.bitLength = 11 * (bytes.length / 2) + if bytes.length % 2 = 0 then 0 else 6) ∧
      (seg.mode = .BYTE → seg.bitLength = 8 * bytes.length) := by
  obtain ⟨a, vs, hannounced, hwide, -, rfl, hnum, hbits⟩ := h
  have hlen : seg.bitLength = (packedBits a vs).length := by
    rw [← hbits]
    simp [QrSegment.bits]
  rw [length_packedBits hwide.group] at hlen
  rw [List.length_map, hnum, hlen]
  refine ⟨rfl, fun hmode => ?_, fun hmode => ?_, fun hmode => ?_⟩
  · obtain rfl : numericAlphabet = a := by
      rw [hmode] at hannounced
      exact congrArg Prod.snd (Option.some.inj hannounced)
    rfl
  · obtain rfl : alphanumericAlphabet = a := by
      rw [hmode] at hannounced
      exact congrArg Prod.snd (Option.some.inj hannounced)
    rfl
  · obtain rfl : byteAlphabet = a := by
      rw [hmode] at hannounced
      exact congrArg Prod.snd (Option.some.inj hannounced)
    show 8 * (vs.length / 1) + (if vs.length % 1 = 0 then 0 else 0) = 8 * vs.length
    rw [ite_self, Nat.div_one, Nat.add_zero]

theorem hasRoom_singleton {seg : QrSegment} : HasRoom version ecl [seg] ↔
    seg.Fits version ∧ 4 + seg.mode.countBits version + seg.bitLength ≤ dataCodewords version ecl * 8 := by
  unfold HasRoom
  rw [List.forall_mem_singleton, List.flatMap_singleton, length_encoded]

/-- Its segments are shorter: digits take fewer bits than characters, characters fewer than bytes. -/
def Mode.Shorter (md md' : Mode) : Prop :=
  (md = .NUMERIC ∧ (md' = .ALPHANUMERIC ∨ md' = .BYTE)) ∨ (md = .ALPHANUMERIC ∧ md' = .BYTE)

theorem capacity_bounds (hv' : version ≤ 40) (ecl : Ecc) :
    dataCodewords version ecl ≤ 2956 ∧ (version ≤ 26 → dataCodewords version ecl ≤ 1370) := by
  have hall : ∀ v < 41, ∀ e ∈ [Ecc.LOW, .MEDIUM, .QUARTILE, .HIGH],
      dataCodewords v e ≤ 2956 ∧ (v ≤ 26 → dataCodewords v e ≤ 1370) := by
    decide +kernel
  exact hall version (by omega) ecl (by cases ecl <;> decide)

/-- The length fields of the modes. -/
theorem countBits_cases (hv : 1 ≤ version) (hv' : version ≤ 40) :
    (version ≤ 26 ∧ Mode.countBits version .NUMERIC = 10 ∧ Mode.countBits version .ALPHANUMERIC = 9 ∧
        Mode.countBits version .BYTE = 8) ∨
      (version ≤ 26 ∧ Mode.countBits version .NUMERIC = 12 ∧ Mode.countBits version .ALPHANUMERIC = 11 ∧
        Mode.countBits version .BYTE = 16) ∨
      (Mode.countBits version .NUMERIC = 14 ∧ Mode.countBits version .ALPHANUMERIC = 13 ∧
        Mode.countBits version .BYTE = 16) := by
  unfold Mode.countBits Mode.numCharCountBits
  split_ifs
  · exact .inl ⟨by omega, rfl, rfl, rfl⟩
  · exact .inr (.inl ⟨by omega, rfl, rfl, rfl⟩)
  · exact .inr (.inr ⟨rfl, rfl, rfl⟩)
  · omega

/-- **A shorter mode has room** where a longer one has. -/
theorem hasRoom_shorter (hv : 1 ≤ version) (hv' : version ≤ 40) {seg seg' : QrSegment} {bytes : List Byte}
    (h : Reads seg bytes) (h' : Reads seg' bytes) (hmode : seg.mode.Shorter seg'.mode)
    (hroom : HasRoom version ecl [seg']) : HasRoom version ecl [seg] := by
  obtain ⟨hnum, hnumeric, halphanumeric, hbyte⟩ := h.bitLength
  obtain ⟨hnum', hnumeric', halphanumeric', hbyte'⟩ := h'.bitLength
  obtain ⟨hcapacity, hcapacity'⟩ := capacity_bounds hv' ecl
  obtain ⟨hfits, hbits⟩ := hasRoom_singleton.1 hroom
  have hcounts := countBits_cases hv hv'
  have hfit : seg.Fits version ∧ 4 + seg.mode.countBits version + seg.bitLength ≤ dataCodewords version ecl * 8 := by
    unfold QrSegment.Fits at hfits ⊢
    rw [hnum'] at hfits
    rw [hnum]
    rcases hmode with ⟨hmd, hmd' | hmd'⟩ | ⟨hmd, hmd'⟩
    · have hlen := hnumeric hmd
      have hlen' := halphanumeric' hmd'
      rw [hmd'] at hfits hbits
      rw [hmd]
      rcases hcounts with ⟨hle, hN, hA, hB⟩ | ⟨hle, hN, hA, hB⟩ | ⟨hN, hA, hB⟩ <;> rw [hA] at hfits hbits <;> rw [hN] <;>
        split_ifs at hlen hlen' <;> omega
    · have hlen := hnumeric hmd
      have hlen' := hbyte' hmd'
      rw [hmd'] at hfits hbits
      rw [hmd]
      rcases hcounts with ⟨hle, hN, hA, hB⟩ | ⟨hle, hN, hA, hB⟩ | ⟨hN, hA, hB⟩ <;> rw [hB] at hfits hbits <;> rw [hN] <;>
        split_ifs at hlen <;> omega
    · have hlen := halphanumeric hmd
      have hlen' := hbyte' hmd'
      rw [hmd'] at hfits hbits
      rw [hmd]
      rcases hcounts with ⟨hle, hN, hA, hB⟩ | ⟨hle, hN, hA, hB⟩ | ⟨hN, hA, hB⟩ <;> rw [hB] at hfits hbits <;> rw [hA] <;>
        split_ifs at hlen <;> omega
  exact hasRoom_singleton.2 hfit

theorem new_mode {md : Mode} {n bitLen : ℕ} {b : List Byte} {seg : QrSegment}
    (h : QrSegment.new md n b bitLen = .ok seg) : seg.mode = md := by
  unfold QrSegment.new at h
  split_ifs at h
  rw [← Except.ok.inj h]

theorem make_mode {k : Packing} {text : List Byte} {seg : QrSegment} (h : k.make text = .ok seg) : seg.mode = k.mode := by
  unfold Packing.make at h
  cases hloop : (cBytes text).foldlM (Packed.step k) {} with
  | error e =>
    rw [hloop] at h
    cases h
  | ok s =>
    rw [hloop, ok_bind] at h
    cases hflush : s.flush k with
    | error e =>
      rw [hflush] at h
      cases h
    | ok bb =>
      rw [hflush, ok_bind] at h
      exact new_mode h

/-- What is made for a text depends on what is in front of its NUL. -/
theorem make_congr {text text' : List Byte} (h : cBytes text' = cBytes text) : makeNumeric text' = makeNumeric text ∧
    makeAlphanumeric text' = makeAlphanumeric text ∧ isNumeric text' = isNumeric text ∧
      isAlphanumeric text' = isAlphanumeric text := by
  unfold makeNumeric makeAlphanumeric Packing.make isNumeric isAlphanumeric
  rw [h]
  exact ⟨rfl, rfl, rfl, rfl⟩

/-- `makeSegments` makes the shortest segment that the text can have. -/
theorem makeSegments_shortest {text : List Byte} {seg : QrSegment} (hmade : Made seg (cBytes text)) :
    ∃ segs, makeSegments text = .ok segs ∧ (∀ s ∈ segs, Reads s (cBytes text)) ∧
      (segs = [] ∨ segs = [seg] ∨ ∃ s, segs = [s] ∧ s.mode.Shorter seg.mode) := by
  have hone : ∀ {e : Except String QrSegment} {s : QrSegment}, e = .ok s → Reads s (cBytes text) →
      (s = seg ∨ s.mode.Shorter seg.mode) → ∃ segs, (e >>= fun s => pure [s]) = .ok segs ∧
        (∀ s ∈ segs, Reads s (cBytes text)) ∧ (segs = [] ∨ segs = [seg] ∨ ∃ s, segs = [s] ∧ s.mode.Shorter seg.mode) := by
    rintro e s rfl hreads hsame
    refine ⟨[s], rfl, fun s' hs' => List.mem_singleton.1 hs' ▸ hreads, .inr ?_⟩
    exact hsame.imp (fun h => by rw [h]) fun h => ⟨s, rfl, h⟩
  have hbytes : ∀ {s}, makeBytes (cBytes text) = .ok s → s.mode = .BYTE := new_mode
  unfold makeSegments
  split_ifs with hempty hnumeric halphanumeric
  · exact ⟨[], rfl, fun s hs => absurd hs List.not_mem_nil, .inl rfl⟩
  · obtain ⟨s, hmake, hreads⟩ := makeNumeric_reads hnumeric
    refine hone hmake hreads ?_
    rcases hmade with ⟨text', -, hmake', htext⟩ | ⟨text', -, hmake', -⟩ | hmake'
    · rw [(make_congr htext).1, hmake] at hmake'
      exact .inl (Except.ok.inj hmake')
    · exact .inr (.inl ⟨make_mode hmake, .inl (make_mode hmake')⟩)
    · exact .inr (.inl ⟨make_mode hmake, .inr (hbytes hmake')⟩)
  · obtain ⟨s, hmake, hreads⟩ := makeAlphanumeric_reads halphanumeric
    refine hone hmake hreads ?_
    rcases hmade with ⟨text', hnumeric', -, htext⟩ | ⟨text', -, hmake', htext⟩ | hmake'
    · exact absurd ((make_congr htext).2.2.1.symm.trans hnumeric') hnumeric
    · rw [(make_congr htext).2.1, hmake] at hmake'
      exact .inl (Except.ok.inj hmake')
    · exact .inr (.inr ⟨make_mode hmake, hbytes hmake'⟩)
  · obtain ⟨s, hmake, hreads⟩ := makeBytes_reads (cBytes text)
    refine hone hmake hreads ?_
    rcases hmade with ⟨text', hnumeric', -, htext⟩ | ⟨text', halphanumeric', -, htext⟩ | hmake'
    · exact absurd ((make_congr htext).2.2.1.symm.trans hnumeric') hnumeric
    · exact absurd ((make_congr htext).2.2.2.symm.trans halphanumeric') halphanumeric
    · rw [hmake] at hmake'
      exact .inl (Except.ok.inj hmake')

/-- **No other segment for the text** makes a smaller symbol. -/
theorem encodeText_smallest (hv : 1 ≤ version) (hv' : version ≤ 40) {text : List Byte} {seg : QrSegment}
    (hmade : Made seg (cBytes text)) (hroom : HasRoom version ecl [seg]) :
    ∃ qr, encodeText text ecl = .ok qr ∧ qr.version ≤ version := by
  obtain ⟨segs, hmake, hreads, hcases⟩ := makeSegments_shortest hmade
  have hfits : HasRoom version ecl segs := by
    rcases hcases with rfl | rfl | ⟨s, rfl, hshorter⟩
    · exact ⟨fun _ h => absurd h List.not_mem_nil, Nat.zero_le _⟩
    · exact hroom
    · exact hasRoom_shorter hv hv' (hreads s List.mem_cons_self) hmade.reads hshorter hroom
  have hencode : encodeText text ecl = encodeSegments segs ecl 1 40 (-1) true := by
    unfold encodeText
    rw [hmake, ok_bind]
  have hrange : 1 ≤ 1 ∧ 1 ≤ 40 ∧ 40 ≤ 40 := by omega
  have hmask : -1 ≤ (-1 : ℤ) ∧ (-1 : ℤ) ≤ 7 := by omega
  rcases encodeSegments_spec hrange hmask (fun s hs => (hreads s hs).known.1) ecl true with
    ⟨v, level, data, tail, hpos, h40, hleast, -, hdata, -, -, hnew⟩ | ⟨hnone, -⟩
  · obtain ⟨best, -, hok⟩ := new_symbol hpos h40 level hdata hmask
    exact ⟨_, hencode.trans (hnew.trans hok), not_lt.1 fun hlt => hleast version hv hlt hfits⟩
  · exact absurd hfits (hnone version hv hv')

theorem encodeText_smallest_fortyTwo : ∃ qr, encodeText [0x34, 0x32] .HIGH = .ok qr ∧ qr.version ≤ 1 :=
  encodeText_smallest le_rfl (by omega) (show Made fortyTwo (cBytes [0x34, 0x32]) from .inr (.inr rfl))
    (hasRoom_singleton.2 ⟨show 2 < 2 ^ 8 by omega, by decide +kernel⟩)

end Noobs.Qrcodegen
