import Noobs.Proof.QrSymbol

/-!
# Versions and levels

* `chooseVersion_spec`: the versions are tried one after the other.
* `boost_level`: **the highest level that has room** is taken.
* `encodeSegments_spec`: the symbol that is constructed, and what it is given.
* `least_version`: **the least version that has room** is taken; if none has, there is no symbol.
-/

namespace Noobs.Qrcodegen

open Bits

variable {version : ℕ} {ecl level : Ecc} {segs : List QrSegment}

/-! ## Versions -/

/-- The segments fit into a symbol. -/
def HasRoom (version : ℕ) (ecl : Ecc) (segs : List QrSegment) : Prop :=
  (∀ seg ∈ segs, seg.Fits version) ∧ (segs.flatMap (QrSegment.encoded version)).length ≤ dataCodewords version ecl * 8

theorem chooseVersion_step (hv : 1 ≤ version) (hv' : version ≤ 40) (segs : List QrSegment) (ecl : Ecc) (left : ℕ) :
    (HasRoom version ecl segs ∧ chooseVersion segs ecl left version =
        .ok (version, ((segs.flatMap (QrSegment.encoded version)).length : ℤ))) ∨
      (¬HasRoom version ecl segs ∧ chooseVersion segs ecl left version = match left with
        | 0 => .error "Data too long"
        | left + 1 => chooseVersion segs ecl left (version + 1)) := by
  unfold HasRoom
  rcases getTotalBits_spec hv hv' segs with ⟨htotal, hnot⟩ | ⟨htotal, hall⟩
  · refine .inr ⟨fun h => hnot h.1, ?_⟩
    conv_lhs => unfold chooseVersion
    rw [getNumDataCodewords_ok hv hv', ok_bind, htotal, ok_bind, if_neg (by simp)]
    cases left <;> rfl
  · by_cases hroom : (segs.flatMap (QrSegment.encoded version)).length ≤ dataCodewords version ecl * 8
    · refine .inl ⟨⟨hall, hroom⟩, ?_⟩
      unfold chooseVersion
      rw [getNumDataCodewords_ok hv hv', ok_bind, htotal, ok_bind, if_pos ⟨by omega, by exact_mod_cast hroom⟩]
      rfl
    · refine .inr ⟨fun h => hroom h.2, ?_⟩
      conv_lhs => unfold chooseVersion
      rw [getNumDataCodewords_ok hv hv', ok_bind, htotal, ok_bind, if_neg fun h => hroom (by exact_mod_cast h.2)]
      cases left <;> rfl

theorem chooseVersion_spec (segs : List QrSegment) (ecl : Ecc) {left : ℕ} (hv : 1 ≤ version)
    (hv' : version + left ≤ 40) :
    (∃ v, version ≤ v ∧ v ≤ version + left ∧ HasRoom v ecl segs ∧
        (∀ u, version ≤ u → u < v → ¬HasRoom u ecl segs) ∧
        chooseVersion segs ecl left version = .ok (v, ((segs.flatMap (QrSegment.encoded v)).length : ℤ))) ∨
      ((∀ u, version ≤ u → u ≤ version + left → ¬HasRoom u ecl segs) ∧
        chooseVersion segs ecl left version = .error "Data too long") := by
  induction left generalizing version with
  | zero =>
    rcases chooseVersion_step hv (by omega) segs ecl 0 with ⟨hroom, hrun⟩ | ⟨hroom, hrun⟩
    · exact .inl ⟨version, le_rfl, le_rfl, hroom, fun u hu hu' => by omega, hrun⟩
    · refine .inr ⟨fun u hu hu' => ?_, hrun⟩
      obtain rfl : u = version := by omega
      exact hroom
  | succ left ih =>
    rcases chooseVersion_step hv (by omega) segs ecl (left + 1) with ⟨hroom, hrun⟩ | ⟨hroom, hrun⟩
    · exact .inl ⟨version, le_rfl, by omega, hroom, fun u hu hu' => by omega, hrun⟩
    · have hbefore : ∀ u, version ≤ u → ¬version + 1 ≤ u → ¬HasRoom u ecl segs := by
        intro u hu hu'
        obtain rfl : u = version := by omega
        exact hroom
      rcases ih (show 1 ≤ version + 1 by omega) (by omega) with ⟨v, hle, hle', hv, hleast, hrest⟩ | ⟨hnone, hrest⟩
      · refine .inl ⟨v, by omega, by omega, hv, fun u hu hu' => ?_, hrun.trans hrest⟩
        by_cases hnext : version + 1 ≤ u
        · exact hleast u hnext hu'
        · exact hbefore u hu hnext
      · refine .inr ⟨fun u hu hu' => ?_, hrun.trans hrest⟩
        by_cases hnext : version + 1 ≤ u
        · exact hnone u hnext (by omega)
        · exact hbefore u hu hnext

/-! ## Levels -/

/-- `Ecc::ordinal`. -/
def Ecc.ordinal : Ecc → ℕ
  | LOW => 0
  | MEDIUM => 1
  | QUARTILE => 2
  | HIGH => 3

/-- Higher levels have less room. -/
theorem dataCodewords_le (hv' : version ≤ 40) (h : ecl.ordinal ≤ level.ordinal) :
    dataCodewords version level ≤ dataCodewords version ecl := by
  have hall : ∀ v < 41, ∀ e ∈ [Ecc.LOW, .MEDIUM, .QUARTILE, .HIGH], ∀ e' ∈ [Ecc.LOW, .MEDIUM, .QUARTILE, .HIGH],
      e.ordinal ≤ e'.ordinal → dataCodewords v e' ≤ dataCodewords v e := by
    decide +kernel
  exact hall version (by omega) ecl (by cases ecl <;> decide) level (by cases level <;> decide) h

theorem HasRoom.lower (hv' : version ≤ 40) (h : ecl.ordinal ≤ level.ordinal) (hroom : HasRoom version level segs) :
    HasRoom version ecl segs := by
  have hle := dataCodewords_le hv' h
  exact ⟨hroom.1, hroom.2.trans (by omega)⟩

/-- The level that is taken: the highest with room, or the given one. -/
structure Level (version : ℕ) (ecl : Ecc) (boostEcl : Bool) (segs : List QrSegment) (level : Ecc) : Prop where
  room : HasRoom version level segs
  le : ecl.ordinal ≤ level.ordinal
  highest : boostEcl = true → ∀ e, HasRoom version e segs → e.ordinal ≤ level.ordinal
  given : boostEcl = false → level = ecl

theorem boost_eq (hv : 1 ≤ version) (hv' : version ≤ 40) (n : ℕ) (ecl level : Ecc) :
    boost version n ecl level = .ok (if n ≤ dataCodewords version level * 8 then level else ecl) := by
  unfold boost
  rw [getNumDataCodewords_ok hv hv', ok_bind]
  split_ifs with h h' h' <;> first | rfl | omega

/-- **The highest level that has room** is taken. -/
theorem boost_level (hv : 1 ≤ version) (hv' : version ≤ 40) (hroom : HasRoom version ecl segs) (boostEcl : Bool) :
    ∃ level, Level version ecl boostEcl segs level ∧
      chooseEcl version (segs.flatMap (QrSegment.encoded version)).length ecl boostEcl = .ok level := by
  unfold chooseEcl
  cases boostEcl with
  | false => exact ⟨ecl, ⟨hroom, le_rfl, fun h => absurd h Bool.false_ne_true, fun _ => rfl⟩, rfl⟩
  | true =>
    have hlow := fun e e' => @HasRoom.lower version e e' segs hv'
    have hboosted : ∀ level, HasRoom version level segs → (∀ e, level.ordinal < e.ordinal → ¬HasRoom version e segs) →
        Level version ecl true segs level := by
      intro level hlevel hnext
      exact ⟨hlevel, not_lt.1 fun h => hnext ecl h hroom, fun _ e he => not_lt.1 fun h => hnext e h he,
        fun h => absurd h (by decide)⟩
    have hif : ∀ e e' : Ecc, (HasRoom version e segs →
        (if (segs.flatMap (QrSegment.encoded version)).length ≤ dataCodewords version e * 8 then e else e') = e) ∧
          (¬HasRoom version e segs →
            (if (segs.flatMap (QrSegment.encoded version)).length ≤ dataCodewords version e * 8 then e else e') = e') :=
      fun e e' => ⟨fun h => if_pos h.2, fun h => if_neg fun hle => h ⟨hroom.1, hle⟩⟩
    rw [if_pos rfl, boost_eq hv hv', ok_bind, boost_eq hv hv', ok_bind, boost_eq hv hv']
    by_cases hhigh : HasRoom version .HIGH segs
    · refine ⟨.HIGH, hboosted .HIGH hhigh fun e h => ?_, congrArg _ ((hif _ _).1 hhigh)⟩
      cases e <;> exact absurd h (by decide)
    rw [(hif .HIGH _).2 hhigh]
    by_cases hquartile : HasRoom version .QUARTILE segs
    · refine ⟨.QUARTILE, hboosted .QUARTILE hquartile fun e h he => hhigh (hlow .HIGH e ?_ he),
        congrArg _ ((hif _ _).1 hquartile)⟩
      exact h
    rw [(hif .QUARTILE _).2 hquartile]
    by_cases hmedium : HasRoom version .MEDIUM segs
    · refine ⟨.MEDIUM, hboosted .MEDIUM hmedium fun e h he => hquartile (hlow .QUARTILE e ?_ he),
        congrArg _ ((hif _ _).1 hmedium)⟩
      exact h
    rw [(hif .MEDIUM _).2 hmedium]
    refine ⟨ecl, hboosted ecl hroom fun e h he => hmedium (hlow .MEDIUM e ?_ he), rfl⟩
    exact (Nat.zero_le ecl.ordinal).trans_lt h

/-! ## Symbols -/

/-- Every segment takes a byte at least. -/
theorem length_le_encoded (hv : 1 ≤ version) (hv' : version ≤ 40) (hknown : ∀ seg ∈ segs, seg.mode.Known) :
    segs.length * 8 ≤ (segs.flatMap (QrSegment.encoded version)).length := by
  induction segs with
  | nil => exact Nat.zero_le _
  | cons seg segs ih =>
    obtain ⟨hseg, hrest⟩ := List.forall_mem_cons.1 hknown
    have hcount : 8 ≤ seg.mode.countBits version := by
      unfold Mode.countBits Mode.numCharCountBits
      rcases hseg with hmode | hmode | hmode | hmode <;> rw [hmode] <;> split_ifs <;> first | decide | omega
    have hsegs := ih hrest
    rw [List.length_cons, List.flatMap_cons, List.length_append, length_encoded]
    omega

/-- **The symbol of some segments**, if there is one: the least version with room, the highest
level, and the segments' bits with an end behind them. -/
theorem encodeSegments_spec {minVersion maxVersion : ℕ} (hrange : 1 ≤ minVersion ∧ minVersion ≤ maxVersion ∧ maxVersion ≤ 40)
    {mask : ℤ} (hmask : -1 ≤ mask ∧ mask ≤ 7) (hknown : ∀ seg ∈ segs, seg.mode.Known) (ecl : Ecc) (boostEcl : Bool) :
    (∃ v level data tail, minVersion ≤ v ∧ v ≤ maxVersion ∧ (∀ u, minVersion ≤ u → u < v → ¬HasRoom u ecl segs) ∧
        Level v ecl boostEcl segs level ∧ data.length = dataCodewords v level ∧
        bytesBits data = segs.flatMap (QrSegment.encoded v) ++ tail ∧ Ends tail ∧
        encodeSegments segs ecl minVersion maxVersion mask boostEcl = QrCode.new v level data mask) ∨
      ((∀ u, minVersion ≤ u → u ≤ maxVersion → ¬HasRoom u ecl segs) ∧
        encodeSegments segs ecl minVersion maxVersion mask boostEcl = .error "Data too long") := by
  obtain ⟨hmin, hle, hmax⟩ := hrange
  have hvalid : ¬(¬(1 ≤ minVersion ∧ minVersion ≤ maxVersion ∧ maxVersion ≤ 40) ∨ mask < -1 ∨ 7 < mask) := by omega
  have hlast : minVersion + (maxVersion - minVersion) = maxVersion := by omega
  rcases chooseVersion_spec segs ecl hmin (show minVersion + (maxVersion - minVersion) ≤ 40 by omega) with
    ⟨v, hv, hv', hroom, hleast, hchoose⟩ | ⟨hnone, hchoose⟩
  · have hpos : 1 ≤ v := by omega
    have h40 : v ≤ 40 := by omega
    obtain ⟨level, hlevel, hboost⟩ := boost_level hpos h40 hroom boostEcl
    obtain ⟨bb, hsegs, hbits⟩ := holds_empty.appendSegments hpos h40 hknown hroom.1
    rw [List.nil_append] at hbits
    obtain ⟨bb', tail, hfinish, hfull, hlen, hends⟩ := hbits.finish
      (show _ ≤ 8 * dataCodewords v level by have := hlevel.room.2; omega)
    have hdata : bb'.data.length = dataCodewords v level := by
      have htight := hfull.tight
      omega
    have hall : bytesBits bb'.data = segs.flatMap (QrSegment.encoded v) ++ tail := by
      rw [hfull.data, hlen, hdata, Nat.sub_self, List.replicate_zero, List.append_nil]
    refine .inl ⟨v, level, bb'.data, tail, hv, by omega, hleast, hlevel, hdata, hall, hends, ?_⟩
    unfold encodeSegments
    rw [if_neg hvalid, hchoose, ok_bind]
    have hused : ¬((segs.flatMap (QrSegment.encoded v)).length : ℤ) = -1 := by omega
    refine (if_neg hused).trans ?_
    have hbytes : bb'.getBitLength % 8 = 0 := by
      have hbit := hfull.length
      unfold BitBuffer.getBitLength
      omega
    have hcapacity : dataCodewords v level * 8 = 8 * dataCodewords v level := Nat.mul_comm _ _
    simp only [hboost, ok_bind, getNumDataCodewords_ok hpos h40, hsegs, hcapacity, hfinish]
    exact if_neg (not_not.2 hbytes)
  · rw [hlast] at hnone
    refine .inr ⟨hnone, ?_⟩
    unfold encodeSegments
    rw [if_neg hvalid, hchoose]
    rfl

/-- A number in a byte segment. -/
def fortyTwo : QrSegment := ⟨.BYTE, 2, [0x34, 0x32], 16, rfl⟩

end Noobs.Qrcodegen
