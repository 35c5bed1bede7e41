import Starfilm.Proofs.Arith.Products

/-!
# Doubles as the machine computes with them

The machine takes its operands apart into a sign, a whole mantissa and an exponent
(`Double.unpacked`), computes, and puts the result together again (`Double.ofUnpacked`). An operand
is told by its sign and by what its magnitude is read as (`Double.unpacked_eq`). The magnitude of a
result counts the places of its format: one more place is one more in the last bit, also across a
change of exponent (`Double.place`).
-/

namespace Starfilm

open Float.Model (Format UnpackedFloat)
open Float.Model.UnpackedFloat

/-- What a magnitude is read as, with a sign, as the machine takes it apart. -/
def Binary.Reading.unpacked (s : Sign) : Binary.Reading → UnpackedFloat
  | .finite m e => if h : m = 0 then .zero s else .finite s m e (Nat.pos_of_ne_zero h)
  | .infinite => .infinity s
  | .nan => .notANumber

namespace Double

/-- The sign of a double. -/
def sign (x : Double) : Sign := if x.negative then .negative else .positive

/-- A double as the machine takes it apart. -/
def unpacked (x : Double) : UnpackedFloat := x.toFloat.toModel.unpack

/-- The double that the machine puts together. -/
def ofUnpacked (u : UnpackedFloat) : Double := ⟨UInt64.ofBitVec (pack Format.binary64 u)⟩

section Operations

variable (x y : Double)

theorem add_eq : x + y = ofUnpacked (UnpackedFloat.add Format.binary64 x.unpacked y.unpacked) := rfl

theorem sub_eq : x - y = ofUnpacked (UnpackedFloat.sub Format.binary64 x.unpacked y.unpacked) := rfl

theorem mul_eq : x * y = ofUnpacked (UnpackedFloat.mul Format.binary64 x.unpacked y.unpacked) := rfl

theorem div_eq : x / y = ofUnpacked (UnpackedFloat.div Format.binary64 x.unpacked y.unpacked) := rfl

end Operations

theorem negative_iff_sign {x : Double} : x.negative = true ↔ x.sign = .negative := by
  rw [sign]
  split_ifs with h <;> simp [h]

/-! ## Fields of a pattern -/

theorem magnitude_eq_fields (x : Double) :
    x.magnitude = (@unpackExponent Format.binary64 x.bits.toBitVec).toNat * 2 ^ 52 +
      (@unpackMantissa Format.binary64 x.bits.toBitVec).toNat := by
  have hbits := x.bits.toNat_lt
  rw [magnitude_eq_mod, toNat_unpackExponent, toNat_unpackMantissa, UInt64.toNat_toBitVec]
  omega

theorem toNat_unpackSign (b : BitVec Format.binary64.numBits) :
    (unpackSign b).toNat = b.toNat / 2 ^ 63 % 2 := by
  rw [unpackSign, BitVec.toNat_cast, BitVec.extractLsb_toNat, Nat.shiftRight_eq_div_pow]
  rfl

theorem ofBitVec_unpackSign (x : Double) :
    Sign.ofBitVec (@unpackSign Format.binary64 x.bits.toBitVec) = x.sign := by
  have hbits := x.bits.toNat_lt
  have hsign : @unpackSign Format.binary64 x.bits.toBitVec = 0#1 ↔ ¬ x.negative = true := by
    rw [← BitVec.toNat_inj, toNat_unpackSign, UInt64.toNat_toBitVec, negative_iff]
    change _ = 0 ↔ _
    omega
  rw [Sign.ofBitVec, sign]
  by_cases h : x.negative = true
  · rw [if_neg (mt hsign.1 (not_not.2 h)), if_pos h]
  · rw [if_pos (hsign.2 h), if_neg h]

/-- The sign and the magnitude tell all bits. -/
theorem ext_of_sign {x y : Double} (hs : x.sign = y.sign) (hm : x.magnitude = y.magnitude) :
    x = y := by
  apply placeKey_injective
  have hn : x.negative = y.negative := by
    rw [sign, sign] at hs
    cases hx : x.negative <;> cases hy : y.negative <;> simp [hx, hy] at hs ⊢
  rw [placeKey, placeKey, hn, hm]

/-! ## Places -/

/-- A whole mantissa and an exponent as the format keeps them: no leading place is left empty unless
the exponent is the smallest one. -/
structure Canonical (m : ℕ) (e : ℤ) : Prop where
  lt : m < 2 ^ 53
  le : -1074 ≤ e
  normal : 2 ^ 52 ≤ m ∨ e = -1074

/-- The magnitude of `m * 2 ^ e`. -/
def place (m : ℕ) (e : ℤ) : ℕ := (e + 1074).toNat * 2 ^ 52 + m

theorem Canonical.place_lt_iff {m : ℕ} {e : ℤ} (h : Canonical m e) :
    place m e < 0x7FF0000000000000 ↔ e ≤ 971 := by
  obtain ⟨hlt, hle, hnormal⟩ := h
  unfold place
  omega

/-- Every finite magnitude is the place of one mantissa and one exponent. -/
theorem exists_place {n : ℕ} (hn : n < 0x7FF0000000000000) :
    ∃ m e, Canonical m e ∧ place m e = n := by
  by_cases h : n < 2 ^ 52
  · exact ⟨n, -1074, ⟨by omega, le_rfl, .inr rfl⟩, by simp [place]⟩
  · refine ⟨2 ^ 52 + n % 2 ^ 52, n / 2 ^ 52 - 1075, ⟨by omega, by omega, .inl (by omega)⟩, ?_⟩
    unfold place
    omega

theorem read_place {m : ℕ} {e : ℤ} (h : Canonical m e) (he : e ≤ 971) :
    format.read (place m e) = .finite m e := by
  have hlt := h.place_lt_iff.2 he
  obtain ⟨hm, hle, hnormal⟩ := h
  have hinfinity : format.infinity = 0x7FF0000000000000 := rfl
  have hfraction : 1 <<< format.fractionWidth = 2 ^ 52 := rfl
  have hlowest : format.lowest = -1074 := rfl
  have hshift : place m e >>> format.fractionWidth = place m e / 2 ^ 52 :=
    Nat.shiftRight_eq_div_pow _ 52
  rw [Binary.Format.read, hinfinity, if_pos hlt, hfraction, hlowest, hshift]
  dsimp only
  unfold place
  split_ifs with hzero
  · congr 1 <;> omega
  · congr 1 <;> omega

/-! ## Taking apart -/

theorem read_of_eq_place {x : Double} {m : ℕ} {e : ℤ} (h : Canonical m e) (he : e ≤ 971)
    (hx : x.magnitude = place m e) : x.read = .finite m e := by
  rw [read, hx, read_place h he]

theorem read_of_magnitude_eq_zero {x : Double} (hx : x.magnitude = 0) :
    x.read = .finite 0 (-1074) := by
  rw [read, hx]
  rfl

theorem unpacked_finite (s : Sign) {m : ℕ} (hm : 0 < m) (e : ℤ) :
    (Binary.Reading.finite m e).unpacked s = .finite s m e hm :=
  dif_neg hm.ne'

theorem toNat_pos_of_ne_zero {w : ℕ} {v : BitVec w} (h : v ≠ 0#w) : 0 < v.toNat :=
  Nat.pos_of_ne_zero fun h0 => h (BitVec.eq_of_toNat_eq h0)

theorem unpack_bits (x : Double) :
    unpack Format.binary64 x.bits.toBitVec = x.read.unpacked x.sign := by
  have hmag := magnitude_eq_fields x
  have hF : (@unpackMantissa Format.binary64 x.bits.toBitVec).toNat < 2 ^ 52 :=
    BitVec.isLt _
  rw [unpack]
  dsimp only
  rw [ofBitVec_unpackSign]
  split_ifs with hones hzero hsubnormal hzero
  · -- infinity
    have hinf : x.magnitude = 0x7FF0000000000000 := by
      rw [hmag, hones, hzero]
      rfl
    rw [read, hinf]
    rfl
  · -- no number
    have hpos := toNat_pos_of_ne_zero hzero
    have hread : x.read = .nan := by
      rw [hones] at hmag
      change x.magnitude = 2047 * 2 ^ 52 + _ at hmag
      have hinfinity : format.infinity = 0x7FF0000000000000 := rfl
      rw [read, Binary.Format.read, hinfinity, if_neg (by omega), if_neg (by omega)]
    rw [hread]
    rfl
  · -- zero
    have hmag₀ : x.magnitude = 0 := by
      rw [hmag, hsubnormal, hzero]
      rfl
    rw [read_of_magnitude_eq_zero hmag₀]
    rfl
  · -- smaller than the normal numbers
    have hpos := toNat_pos_of_ne_zero hzero
    have hread :
        x.read = .finite (@unpackMantissa Format.binary64 x.bits.toBitVec).toNat (-1074) := by
      refine read_of_eq_place ⟨by omega, le_rfl, .inr rfl⟩ (by omega) ?_
      rw [hmag, hsubnormal]
      rfl
    rw [hread, unpacked_finite _ hpos]
    congr 1
    rw [hsubnormal]
    rfl
  · -- normal numbers
    have hones' := ne_allOnes_iff.1 hones
    have hpos := toNat_pos_of_ne_zero hsubnormal
    have hm : (1#1 ++ @unpackMantissa Format.binary64 x.bits.toBitVec).toNat =
        2 ^ 52 + (@unpackMantissa Format.binary64 x.bits.toBitVec).toNat := by
      rw [BitVec.toNat_append, ← Nat.shiftLeft_add_eq_or_of_lt hF]
      rfl
    have hread : x.read = .finite (1#1 ++ @unpackMantissa Format.binary64 x.bits.toBitVec).toNat
        ((@unpackExponent Format.binary64 x.bits.toBitVec).toNat - 1075) := by
      refine read_of_eq_place ⟨?_, by omega, .inl ?_⟩ (by omega) ?_
      · rw [hm]
        omega
      · rw [hm]
        omega
      · rw [hmag, place, hm]
        omega
    rw [hread, unpacked_finite _ (by rw [hm]; omega)]
    congr 1

/-- **What the machine computes with** is the sign of a double and what its magnitude is read as. -/
theorem unpacked_eq (x : Double) : x.unpacked = x.read.unpacked x.sign := by
  rw [← unpack_bits]
  change unpack Format.binary64 (pack Format.binary64 (unpack Format.binary64 x.bits.toBitVec)) = _
  rw [pack_unpack]
  split_ifs with hnan
  · -- all patterns that are no number are taken apart alike
    rw [isNaNBits, decide_eq_true_iff] at hnan
    rw [unpack_packedNaN, unpack]
    dsimp only
    rw [if_pos hnan.1, if_neg hnan.2]
  · rfl

/-! ## Putting together -/

theorem sign_eq_of_unpackSign {x : Double} {s : Sign}
    (h : @unpackSign Format.binary64 x.bits.toBitVec = s.toBitVec) : x.sign = s := by
  rw [← ofBitVec_unpackSign, h, Sign.ofBitVec_toBitVec]

theorem sign_ofUnpacked_zero (s : Sign) : (ofUnpacked (.zero s)).sign = s :=
  sign_eq_of_unpackSign (unpackSign_packComponents s _ _)

theorem magnitude_ofUnpacked_zero (s : Sign) : (ofUnpacked (.zero s)).magnitude = 0 := by
  cases s <;> rfl

theorem sign_ofUnpacked_infinity (s : Sign) : (ofUnpacked (.infinity s)).sign = s :=
  sign_eq_of_unpackSign (unpackSign_packComponents s _ _)

theorem magnitude_ofUnpacked_infinity (s : Sign) :
    (ofUnpacked (.infinity s)).magnitude = 0x7FF0000000000000 := by
  cases s <;> rfl

theorem sign_ofUnpacked_finite (s : Sign) {m : ℕ} {e : ℤ} (hm : 0 < m) :
    (ofUnpacked (.finite s m e hm)).sign = s := by
  apply sign_eq_of_unpackSign
  change unpackSign (pack Format.binary64 (.finite s m e hm)) = _
  rw [pack]
  dsimp only
  split_ifs <;> exact unpackSign_packComponents s _ _

theorem log2_eq_iff {m : ℕ} (hlt : m < 2 ^ 53) (hm : 0 < m) : m.log2 = 52 ↔ 2 ^ 52 ≤ m := by
  rw [Nat.log2_eq_iff hm.ne']
  exact and_iff_left hlt

theorem magnitude_packComponents (s : Sign) (E : BitVec Format.binary64.exponentBits)
    (f : BitVec Format.binary64.mantissaBitsWithoutImplicit) :
    (⟨UInt64.ofBitVec (packComponents Format.binary64 s E f)⟩ : Double).magnitude =
      E.toNat * 2 ^ 52 + f.toNat := by
  rw [magnitude_eq_fields, UInt64.toBitVec_ofBitVec, unpackExponent_packComponents,
    unpackMantissa_packComponents]

theorem magnitude_ofUnpacked_finite (s : Sign) {m : ℕ} {e : ℤ} (hm : 0 < m) (h : Canonical m e) :
    (ofUnpacked (.finite s m e hm)).magnitude = min 0x7FF0000000000000 (place m e) := by
  have hlog := log2_eq_iff h.lt hm
  obtain ⟨hlt, hle, hnormal⟩ := h
  have hbiased : (e + Format.binary64.exponentBias +
      Format.binary64.mantissaBitsWithoutImplicit).toNat = (e + 1075).toNat := by
    change (e + (1023 : ℕ) + (52 : ℕ)).toNat = _
    omega
  have hexponents : 2 ^ Format.binary64.exponentBits = 2048 := rfl
  have hbits : Format.binary64.mantissaBits = 53 := rfl
  have hfractions : 2 ^ Format.binary64.mantissaBitsWithoutImplicit = 2 ^ 52 := rfl
  rw [ofUnpacked, pack]
  dsimp only
  rw [hbiased, hexponents, hbits]
  unfold place
  split_ifs with hlarge hlong
  · -- too large
    have hinfinity := magnitude_ofUnpacked_infinity s
    rw [ofUnpacked, pack] at hinfinity
    rw [hinfinity]
    omega
  · -- normal: the leading place is that of the exponent
    rw [magnitude_packComponents, BitVec.toNat_ofNat, BitVec.toNat_ofNat, hexponents, hfractions]
    clear hexponents hfractions hbits hbiased
    have hm' : 2 ^ 52 ≤ m := hlog.1 (by omega)
    omega
  · rw [magnitude_packComponents, BitVec.toNat_ofNat, BitVec.toNat_ofNat, hfractions, Nat.zero_mod]
    omega

/-- A number is put together as it was taken apart. -/
theorem ofUnpacked_unpacked {x : Double} (hx : x.isNumber = true) : ofUnpacked x.unpacked = x := by
  have hnan : ¬ @isNaNBits Format.binary64 x.bits.toBitVec = true := by
    rw [isNaNBits, decide_eq_true_iff]
    rintro ⟨hones, hzero⟩
    rcases (isNumber_iff x).1 hx with hlt | hfraction
    · exact ne_allOnes_iff.2 hlt hones
    · exact hzero (BitVec.eq_of_toNat_eq hfraction)
  rw [unpacked_eq, ← unpack_bits, ofUnpacked, pack_unpack, if_neg hnan]

end Double

end Starfilm
