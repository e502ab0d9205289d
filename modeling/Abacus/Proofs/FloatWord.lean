import Mathlib.Tactic.Ring
import Abacus.Decimal.Binary

/-!
# The word of a float

Floats are calculated with, doubles are kept.  The logic knows a float as a word too,
and its operations as operations on what the word unpacks to: a sign, a mantissa and a
power of two.  This module relates that unpacked form to the fields of a double, so that
what is shown of the arithmetic of floats can be said of the words that are kept.

## Which unpacked floats are words

A word leaves no choice of mantissa and exponent: the mantissa has all of its 53 bits
unless the exponent is already the least one.  An unpacked float of this form is called
canonical.  Every finite word unpacks to a canonical float, every canonical float whose
exponent fits is packed without loss, and this makes packing and unpacking inverse to
each other (`magnitude_ofUnpacked`, `ofUnpacked_unpacked`).
-/

namespace Abacus

open Float.Model (Format)
open Float.Model.UnpackedFloat (Sign pack packComponents packedInfinity unpack unpackExponent
  unpackMantissa unpackSign unpackExponent_packComponents unpackMantissa_packComponents)

namespace Decimal.Binary

/-- The form in which every double is given: no unit is smaller than the least one, and
the mantissa is as long as it can be or the unit is the least one. -/
structure Canonical (b : Binary) : Prop where
  lt : b.mantissa < 2 ^ 53
  least_le : -1074 ≤ b.exponent
  long : 2 ^ 52 ≤ b.mantissa ∨ b.exponent = -1074
  closeBelow_iff : b.closeBelow = true ↔ b.mantissa = 2 ^ 52 ∧ -1074 < b.exponent

/-- The unpacked float with this sign and magnitude. -/
def unpacked (s : Sign) (b : Binary) : Float.Model.UnpackedFloat :=
  if h : b.mantissa = 0 then .zero s
  else .finite s b.mantissa b.exponent (Nat.pos_of_ne_zero h)

theorem Canonical.ext {b c : Binary} (hb : b.Canonical) (hc : c.Canonical)
    (hm : b.mantissa = c.mantissa) (he : b.exponent = c.exponent) : b = c := by
  have hclose : b.closeBelow = c.closeBelow := by
    rw [Bool.eq_iff_iff, hb.closeBelow_iff, hc.closeBelow_iff, hm, he]
  obtain ⟨m, e, close⟩ := b
  simp only at hm he hclose
  subst hm he hclose
  rfl

end Decimal.Binary

namespace Double

open Decimal (Binary)

/-- The sign as floats have it. -/
def sign (x : Double) : Sign := if x.isNegative then .negative else .positive

/-! ## The fields of a word -/

theorem unpackSign_packComponents {format : Format} (s : Sign) (e : BitVec format.exponentBits)
    (m : BitVec format.mantissaBitsWithoutImplicit) :
    unpackSign (packComponents format s e m) = s.toBitVec := by
  refine BitVec.eq_of_getLsbD_eq fun i hi => ?_
  obtain rfl : i = 0 := by omega
  unfold unpackSign
  simp [packComponents, BitVec.getLsbD_append, BitVec.getElem_append]

theorem toNat_unpackExponent (x : Double) :
    (@unpackExponent Format.binary64 x.bits.toBitVec).toNat = x.exponentField := by
  simp [unpackExponent, exponentField, leadingBit, BitVec.extractLsb_toNat,
    Nat.shiftRight_eq_div_pow]

theorem toNat_unpackMantissa (x : Double) :
    (@unpackMantissa Format.binary64 x.bits.toBitVec).toNat = x.fractionField := by
  simp [unpackMantissa, fractionField, leadingBit, BitVec.extractLsb_toNat]

theorem ofBitVec_unpackSign (x : Double) :
    Sign.ofBitVec (@unpackSign Format.binary64 x.bits.toBitVec) = x.sign := by
  have h : (@unpackSign Format.binary64 x.bits.toBitVec).toNat =
      x.bits.toNat / 0x8000000000000000 % 2 := by
    unfold unpackSign
    simp [BitVec.extractLsb_toNat, Nat.shiftRight_eq_div_pow]
  unfold Sign.ofBitVec sign isNegative
  simp only [← BitVec.toNat_inj, h]
  rcases Nat.mod_two_eq_zero_or_one (x.bits.toNat / 0x8000000000000000) with h0 | h0 <;>
    simp [h0]

/-- A word is put together from its fields. -/
theorem toNat_bits (x : Double) :
    x.bits.toNat = (if x.isNegative then 1 else 0) * 2 ^ 63 + x.exponentField * 2 ^ 52 +
      x.fractionField := by
  have hlt := x.bits.toNat_lt
  unfold isNegative exponentField fractionField leadingBit
  rcases Nat.mod_two_eq_zero_or_one (x.bits.toNat / 0x8000000000000000) with h0 | h0 <;>
    simp [h0] <;> omega

theorem fractionField_lt (x : Double) : x.fractionField < 2 ^ 52 :=
  Nat.mod_lt _ (by decide)

theorem exponentField_lt (x : Double) : x.exponentField < 2048 :=
  Nat.mod_lt _ (by decide)

theorem ofDouble_subnormal {x : Double} (h : x.exponentField = 0) :
    Binary.ofDouble x = ⟨x.fractionField, -1074, false⟩ := by
  simp only [Binary.ofDouble, h, if_true]

theorem ofDouble_normal {x : Double} (h : x.exponentField ≠ 0) :
    Binary.ofDouble x = ⟨2 ^ 52 + x.fractionField, (x.exponentField : Int) - 1075,
      x.fractionField == 0 && 1 < x.exponentField⟩ := by
  simp only [Binary.ofDouble, leadingBit, if_neg h]
  rfl

/-- The magnitude of a finite double is canonical, and its unit is not too large. -/
theorem canonical_ofDouble {x : Double} (hx : x.isFinite) :
    (Binary.ofDouble x).Canonical ∧ (Binary.ofDouble x).exponent ≤ 971 := by
  have hf := x.fractionField_lt
  have he := x.exponentField_lt
  have hfinite : x.exponentField ≠ 2047 := by simpa [isFinite] using hx
  rcases Nat.eq_zero_or_pos x.exponentField with h | h
  · rw [ofDouble_subnormal h]
    refine ⟨⟨by simp only; omega, Int.le_refl _, .inr rfl, by simp⟩, by simp only; omega⟩
  · rw [ofDouble_normal (Nat.ne_of_gt h)]
    refine ⟨⟨?_, ?_, .inl ?_, ?_⟩, ?_⟩ <;>
      simp only [Bool.and_eq_true, beq_iff_eq, decide_eq_true_eq] <;> omega

/-- Finite doubles of the same sign and magnitude are the same word. -/
theorem ext_magnitude {x y : Double} (hs : x.isNegative = y.isNegative)
    (h : Binary.ofDouble x = Binary.ofDouble y) : x = y := by
  have hx := x.fractionField_lt
  have hy := y.fractionField_lt
  have hfields : x.exponentField = y.exponentField ∧ x.fractionField = y.fractionField := by
    rcases Nat.eq_zero_or_pos x.exponentField with hx0 | hx0 <;>
      rcases Nat.eq_zero_or_pos y.exponentField with hy0 | hy0
    · rw [ofDouble_subnormal hx0, ofDouble_subnormal hy0] at h
      exact ⟨by omega, congrArg Binary.mantissa h⟩
    · rw [ofDouble_subnormal hx0, ofDouble_normal (Nat.ne_of_gt hy0)] at h
      have := congrArg Binary.mantissa h
      simp only at this
      omega
    · rw [ofDouble_normal (Nat.ne_of_gt hx0), ofDouble_subnormal hy0] at h
      have := congrArg Binary.mantissa h
      simp only at this
      omega
    · rw [ofDouble_normal (Nat.ne_of_gt hx0), ofDouble_normal (Nat.ne_of_gt hy0)] at h
      have hm := congrArg Binary.mantissa h
      have he := congrArg Binary.exponent h
      simp only at hm he
      omega
  have hbits : x.bits.toNat = y.bits.toNat := by
    rw [toNat_bits x, toNat_bits y, hs, hfields.1, hfields.2]
  obtain ⟨w⟩ := x
  obtain ⟨v⟩ := y
  exact congrArg Double.mk (UInt64.toNat_inj.mp hbits)

/-! ## Unpacking -/

theorem toNat_append_one (m : BitVec 52) : (1#1 ++ m).toNat = 2 ^ 52 + m.toNat := by
  rw [BitVec.toNat_append, ← Nat.shiftLeft_add_eq_or_of_lt m.isLt]
  rfl

/-- A finite word unpacks to its sign and magnitude. -/
theorem unpack_bits {x : Double} (hx : x.isFinite) :
    unpack Format.binary64 x.bits.toBitVec = (Binary.ofDouble x).unpacked x.sign := by
  have hfinite : x.exponentField ≠ 2047 := by simpa [isFinite] using hx
  have hexponent := toNat_unpackExponent x
  have hmantissa := toNat_unpackMantissa x
  have hones : @unpackExponent Format.binary64 x.bits.toBitVec ≠ -1#_ := by
    intro h
    rw [h] at hexponent
    exact hfinite hexponent.symm
  have hbias : ((Format.binary64.exponentBias : Int) + (52 : Nat)) = 1075 := rfl
  unfold unpack
  rw [if_neg hones, ofBitVec_unpackSign, hexponent]
  rcases Nat.eq_zero_or_pos x.exponentField with h | h
  · have hzero : @unpackExponent Format.binary64 x.bits.toBitVec = 0#_ :=
      BitVec.eq_of_toNat_eq (hexponent.trans h)
    rw [if_pos hzero, ofDouble_subnormal h, h]
    unfold Binary.unpacked
    by_cases hf : x.fractionField = 0
    · have hnone : @unpackMantissa Format.binary64 x.bits.toBitVec = 0#_ :=
        BitVec.eq_of_toNat_eq (hmantissa.trans hf)
      rw [dif_pos hnone, dif_pos hf]
    · have hsome : @unpackMantissa Format.binary64 x.bits.toBitVec ≠ 0#_ := by
        intro hnone
        rw [hnone] at hmantissa
        exact hf hmantissa.symm
      rw [dif_neg hsome, dif_neg hf]
      congr 1
  · have hsome : @unpackExponent Format.binary64 x.bits.toBitVec ≠ 0#_ := by
      intro hzero
      rw [hzero] at hexponent
      exact absurd hexponent.symm (Nat.ne_of_gt h)
    rw [if_neg hsome, ofDouble_normal (Nat.ne_of_gt h)]
    unfold Binary.unpacked
    rw [dif_neg (by simp only; omega)]
    congr 1
    rw [toNat_append_one, hmantissa]

/-! ## Packing -/

/-- The double that an unpacked float is packed to. -/
def ofUnpacked (u : Float.Model.UnpackedFloat) : Double :=
  ⟨UInt64.ofBitVec (pack Format.binary64 u)⟩

theorem fields_of_pack {u : Float.Model.UnpackedFloat} {s : Sign} {e : BitVec 11} {m : BitVec 52}
    (h : pack Format.binary64 u = packComponents Format.binary64 s e m) :
    (ofUnpacked u).sign = s ∧ (ofUnpacked u).exponentField = e.toNat ∧
      (ofUnpacked u).fractionField = m.toNat := by
  have hbits : (ofUnpacked u).bits.toBitVec = packComponents Format.binary64 s e m := h
  refine ⟨?_, ?_, ?_⟩
  · rw [← ofBitVec_unpackSign, hbits, @unpackSign_packComponents Format.binary64]
    cases s <;> rfl
  · rw [← toNat_unpackExponent, hbits, unpackExponent_packComponents]
  · rw [← toNat_unpackMantissa, hbits, unpackMantissa_packComponents]

theorem log2_eq_of_long {m : Nat} (hlt : m < 2 ^ 53) (hle : 2 ^ 52 ≤ m) : m.log2 = 52 := by
  have hne : m ≠ 0 := by omega
  have hlow := (Nat.le_log2 hne).mpr hle
  have hhigh := (Nat.log2_lt hne).mpr hlt
  omega

/-- The three ways in which the magnitude of a canonical float is packed. -/
theorem pack_unpacked {b : Binary} (hb : b.Canonical) (s : Sign) :
    pack Format.binary64 (b.unpacked s) =
      if 971 < b.exponent then packedInfinity Format.binary64 s
      else if 2 ^ 52 ≤ b.mantissa then
        packComponents Format.binary64 s (BitVec.ofNat 11 (b.exponent + 1075).toNat)
          (BitVec.ofNat 52 b.mantissa)
      else packComponents Format.binary64 s 0 (BitVec.ofNat 52 b.mantissa) := by
  have hlt := hb.lt
  have hleast := hb.least_le
  have hbias : b.exponent + Format.binary64.exponentBias + (52 : Nat) = b.exponent + 1075 := by
    rw [Int.add_assoc]
    rfl
  by_cases hzero : b.mantissa = 0
  · have hlong := hb.long
    rw [Binary.unpacked, dif_pos hzero, if_neg (by omega), if_neg (by omega), hzero]
    rfl
  · rw [Binary.unpacked, dif_neg hzero]
    unfold pack
    simp only [hbias]
    by_cases hlarge : 971 < b.exponent
    · rw [if_pos hlarge, if_pos (by omega)]
    · rw [if_neg hlarge, if_neg (by omega)]
      by_cases hlong : 2 ^ 52 ≤ b.mantissa
      · rw [if_pos hlong, if_pos (by rw [log2_eq_of_long hlt hlong]; rfl)]
      · have hshort := (Nat.log2_lt hzero).mpr (Nat.lt_of_not_le hlong)
        rw [if_neg hlong, if_neg (by intro h; have : b.mantissa.log2 + 1 = 53 := h; omega)]
        rfl

/-- **A canonical float whose unit is not too large is packed without loss.** -/
theorem magnitude_ofUnpacked {b : Binary} (hb : b.Canonical) (he : b.exponent ≤ 971) (s : Sign) :
    (ofUnpacked (b.unpacked s)).sign = s ∧ (ofUnpacked (b.unpacked s)).isFinite ∧
      Binary.ofDouble (ofUnpacked (b.unpacked s)) = b := by
  have hlt := hb.lt
  have hleast := hb.least_le
  have hpack := pack_unpacked hb s
  rw [if_neg (by omega)] at hpack
  by_cases hlong : 2 ^ 52 ≤ b.mantissa
  · rw [if_pos hlong] at hpack
    obtain ⟨hsign, hexponent, hfraction⟩ := fields_of_pack hpack
    rw [BitVec.toNat_ofNat, Nat.mod_eq_of_lt (by omega)] at hexponent
    rw [BitVec.toNat_ofNat] at hfraction
    have hfinite : (ofUnpacked (b.unpacked s)).isFinite := by
      simp only [isFinite, hexponent, bne_iff_ne]
      omega
    refine ⟨hsign, hfinite, (canonical_ofDouble hfinite).1.ext hb ?_ ?_⟩ <;>
      rw [ofDouble_normal (by omega)] <;> simp only [hexponent, hfraction] <;> omega
  · rw [if_neg hlong] at hpack
    obtain ⟨hsign, hexponent, hfraction⟩ := fields_of_pack hpack
    rw [BitVec.toNat_ofNat, Nat.mod_eq_of_lt (by omega)] at hfraction
    have hzero : (ofUnpacked (b.unpacked s)).exponentField = 0 := hexponent
    have hfinite : (ofUnpacked (b.unpacked s)).isFinite := by
      simp [isFinite, hzero]
    have hunit := hb.long.resolve_left hlong
    refine ⟨hsign, hfinite, (canonical_ofDouble hfinite).1.ext hb ?_ ?_⟩ <;>
      rw [ofDouble_subnormal hzero]
    · exact hfraction
    · exact hunit.symm

theorem sign_inj {x y : Double} (h : x.sign = y.sign) : x.isNegative = y.isNegative := by
  unfold sign at h
  cases hx : x.isNegative <;> cases hy : y.isNegative <;> simp [hx, hy] at h ⊢

/-- Packing what a finite word unpacks to gives the word again. -/
theorem ofUnpacked_unpacked {x : Double} (hx : x.isFinite) :
    ofUnpacked ((Binary.ofDouble x).unpacked x.sign) = x := by
  obtain ⟨hcanonical, he⟩ := canonical_ofDouble hx
  obtain ⟨hsign, -, hmagnitude⟩ := magnitude_ofUnpacked hcanonical he x.sign
  exact ext_magnitude (sign_inj hsign) hmagnitude

/-- A float whose unit is too large is packed as infinite. -/
theorem isFinite_ofUnpacked_of_lt {b : Binary} (hb : b.Canonical) (he : 971 < b.exponent)
    (s : Sign) : (ofUnpacked (b.unpacked s)).isFinite = false := by
  have hpack := pack_unpacked hb s
  rw [if_pos he] at hpack
  obtain ⟨-, hexponent, -⟩ := fields_of_pack hpack
  simp [isFinite, hexponent]

/-! ## The sign by itself -/

theorem toNat_negate (x : Double) : x.negate.bits.toNat = x.bits.toNat ^^^ 2 ^ 63 :=
  UInt64.toNat_xor ..

theorem toNat_abs (x : Double) : x.abs.bits.toNat = x.bits.toNat % 2 ^ 63 := by
  have h : x.abs.bits.toNat = x.bits.toNat &&& (2 ^ 63 - 1) := UInt64.toNat_and ..
  rw [h, Nat.and_two_pow_sub_one_eq_mod]

theorem ofDouble_congr {x y : Double} (he : x.exponentField = y.exponentField)
    (hf : x.fractionField = y.fractionField) : Binary.ofDouble x = Binary.ofDouble y := by
  simp only [Binary.ofDouble, he, hf]

theorem exponentField_negate (x : Double) : x.negate.exponentField = x.exponentField := by
  have hzero : 2 ^ 63 / 2 ^ 52 % 2 ^ 11 = 0 := rfl
  show x.negate.bits.toNat / 2 ^ 52 % 2 ^ 11 = x.bits.toNat / 2 ^ 52 % 2 ^ 11
  rw [toNat_negate, Nat.xor_div_two_pow, Nat.xor_mod_two_pow, hzero, Nat.xor_zero]

theorem fractionField_negate (x : Double) : x.negate.fractionField = x.fractionField := by
  have hzero : 2 ^ 63 % 2 ^ 52 = 0 := rfl
  show x.negate.bits.toNat % 2 ^ 52 = x.bits.toNat % 2 ^ 52
  rw [toNat_negate, Nat.xor_mod_two_pow, hzero, Nat.xor_zero]

/-- Changing the sign leaves the magnitude. -/
theorem ofDouble_negate (x : Double) : Binary.ofDouble x.negate = Binary.ofDouble x :=
  ofDouble_congr x.exponentField_negate x.fractionField_negate

theorem isNegative_negate (x : Double) : x.negate.isNegative = !x.isNegative := by
  have hone : 2 ^ 63 / 2 ^ 63 % 2 ^ 1 = 1 := rfl
  have hflip : x.negate.bits.toNat / 2 ^ 63 % 2 ^ 1 = x.bits.toNat / 2 ^ 63 % 2 ^ 1 ^^^ 1 := by
    rw [toNat_negate, Nat.xor_div_two_pow, Nat.xor_mod_two_pow, hone]
  show (x.negate.bits.toNat / 2 ^ 63 % 2 ^ 1 == 1) = !(x.bits.toNat / 2 ^ 63 % 2 ^ 1 == 1)
  rw [hflip]
  rcases Nat.mod_two_eq_zero_or_one (x.bits.toNat / 2 ^ 63) with h | h <;> rw [pow_one, h] <;> rfl

theorem exponentField_abs (x : Double) : x.abs.exponentField = x.exponentField := by
  have h := toNat_abs x
  show x.abs.bits.toNat / 2 ^ 52 % 2 ^ 11 = x.bits.toNat / 2 ^ 52 % 2 ^ 11
  omega

theorem fractionField_abs (x : Double) : x.abs.fractionField = x.fractionField := by
  have h := toNat_abs x
  show x.abs.bits.toNat % 2 ^ 52 = x.bits.toNat % 2 ^ 52
  omega

/-- So does dropping the sign. -/
theorem ofDouble_abs (x : Double) : Binary.ofDouble x.abs = Binary.ofDouble x :=
  ofDouble_congr x.exponentField_abs x.fractionField_abs

theorem isNegative_abs (x : Double) : x.abs.isNegative = false := by
  have h := toNat_abs x
  show (x.abs.bits.toNat / 2 ^ 63 % 2 == 1) = false
  rw [beq_eq_false_iff_ne]
  omega

theorem isFinite_negate (x : Double) : x.negate.isFinite = x.isFinite := by
  rw [isFinite, isFinite, exponentField_negate]

theorem isFinite_abs (x : Double) : x.abs.isFinite = x.isFinite := by
  rw [isFinite, isFinite, exponentField_abs]

theorem abs_eq (x : Double) : x.abs = if x.isNegative then x.negate else x := by
  cases hx : x.isNegative with
  | false =>
    rw [if_neg (by decide)]
    refine ext_magnitude ?_ (ofDouble_abs x)
    rw [isNegative_abs, hx]
  | true =>
    rw [if_pos rfl]
    refine ext_magnitude ?_ ((ofDouble_abs x).trans (ofDouble_negate x).symm)
    rw [isNegative_abs, isNegative_negate, hx]
    rfl

/-! ## Floats as doubles -/

theorem unpack_toModel (f : Float) :
    f.toModel.unpack = unpack Format.binary64 (ofFloat f).bits.toBitVec := rfl

/-- A float is finite when the double it is kept as is. -/
theorem isFinite_ofFloat (f : Float) : (ofFloat f).isFinite = f.isFinite := by
  have hfloat : f.isFinite = f.toModel.unpack.isFinite := rfl
  rw [hfloat, unpack_toModel]
  cases hx : (ofFloat f).isFinite with
  | true =>
    rw [unpack_bits hx, Binary.unpacked]
    by_cases hzero : (Binary.ofDouble (ofFloat f)).mantissa = 0
    · rw [dif_pos hzero]
      rfl
    · rw [dif_neg hzero]
      rfl
  | false =>
    have hfield : (ofFloat f).exponentField = 2047 := by simpa [isFinite] using hx
    have hones : @unpackExponent Format.binary64 (ofFloat f).bits.toBitVec = -1#_ :=
      BitVec.eq_of_toNat_eq ((toNat_unpackExponent _).trans hfield)
    unfold unpack
    rw [if_pos hones]
    split <;> rfl

/-- A finite float unpacks to the sign and the magnitude of its double. -/
theorem unpack_of_isFinite {f : Float} (hf : f.isFinite) :
    f.toModel.unpack = (Binary.ofDouble (ofFloat f)).unpacked (ofFloat f).sign := by
  rw [unpack_toModel, unpack_bits (by rw [isFinite_ofFloat, hf])]

/-- The sign of a finite float is changed without rounding. -/
theorem ofFloat_neg {f : Float} (hf : f.isFinite) : ofFloat (-f) = (ofFloat f).negate := by
  have hneg : ofFloat (-f) = ofUnpacked f.toModel.unpack.neg := rfl
  have hflip : ((Binary.ofDouble (ofFloat f)).unpacked (ofFloat f).sign).neg =
      (Binary.ofDouble (ofFloat f).negate).unpacked (ofFloat f).negate.sign := by
    rw [ofDouble_negate, sign, sign, isNegative_negate]
    unfold Binary.unpacked
    by_cases hzero : (Binary.ofDouble (ofFloat f)).mantissa = 0
    · rw [dif_pos hzero, dif_pos hzero]
      cases (ofFloat f).isNegative <;> rfl
    · rw [dif_neg hzero, dif_neg hzero]
      cases (ofFloat f).isNegative <;> rfl
  rw [hneg, unpack_of_isFinite hf, hflip, ofUnpacked_unpacked]
  rw [isFinite_negate, isFinite_ofFloat, hf]

end Double

end Abacus
