import Mathlib
import GatedExpr.Proofs.Number.Finite

/-! # The bits of a double

A double is its sign bit, its exponent field and its fraction. The value read off them is the one
that the operations of the doubles unpack, and packing the value of a double gives it back.
-/

namespace GatedExpr

namespace Binary64

open Float.Model (UnpackedFloat)
open Float.Model.UnpackedFloat
open Float.Model.Format (binary64)

theorem twoTo_eq (k : Nat) : twoTo k = 2 ^ k :=
  rfl

/-- Bits that are not those of not-a-number are kept when they are made into a double. -/
theorem toNat_toBits_ofBits {bits : Nat} (hsize : bits < 2 ^ 64)
    (hnumber : bits / 2 ^ 52 % 2 ^ 11 = 2047 → bits % 2 ^ 52 = 0) :
    (Float.ofBits (UInt64.ofNat bits)).toBits.toNat = bits := by
  have hbits : (UInt64.ofNat bits).toBitVec.toNat = bits := by
    rw [UInt64.toNat_toBitVec, UInt64.toNat_ofNat_of_lt' hsize]
  have hnumber' : ¬ @isNaNBits binary64 (UInt64.ofNat bits).toBitVec = true := by
    rw [isNaNBits, decide_eq_true_eq, unpackExponent_eq_full, ne_eq, unpackMantissa_eq_zero, hbits]
    exact fun ⟨hfield, hfraction⟩ => hfraction (hnumber hfield)
  change (pack binary64 (unpack binary64 (UInt64.ofNat bits).toBitVec)).toNat = bits
  rw [pack_unpack, if_neg hnumber', hbits]

/-- The value of a double with a sign, an exponent field and a fraction. -/
theorem ofFloat_of_toBits {x : Float} {negative : Bool} {field fraction : Nat}
    (hbits : x.toBits.toNat = (if negative then signBit else 0) + (field * 2 ^ 52 + fraction))
    (hfield : field < 2 ^ 11) (hfraction : fraction < 2 ^ 52) :
    ofFloat x = if field = 2047 then if fraction = 0 then .infinite negative else .nan
      else if field = 0 then .finite negative fraction minExponent
      else .finite negative (2 ^ 52 + fraction) (field - 1075) := by
  have hsign : signBit = 2 ^ 63 := rfl
  have hfield' : x.toBits.toNat / 2 ^ 52 % 2 ^ 11 = field := by split_ifs at hbits <;> omega
  have hfraction' : x.toBits.toNat % 2 ^ 52 = fraction := by split_ifs at hbits <;> omega
  have hnegative : decide (signBit ≤ x.toBits.toNat) = negative := by
    cases negative <;> simp only [Bool.false_eq_true, if_false, if_true] at hbits
    · exact decide_eq_false (by omega)
    · exact decide_eq_true (by omega)
  simp only [ofFloat, twoTo_eq, hfield', hfraction', hnegative]

/-! ## Unpacked doubles -/

def isNegativeSign : Sign → Bool
  | .negative => true
  | .positive => false

/-- The value of an unpacked double. -/
def ofUnpacked : UnpackedFloat → Binary64
  | .notANumber => .nan
  | .infinity sign => .infinite (isNegativeSign sign)
  | .zero sign => .finite (isNegativeSign sign) 0 minExponent
  | .finite sign mantissa exponent _ => .finite (isNegativeSign sign) mantissa exponent

theorem unpackExponent_eq_zero {b : BitVec 64} :
    @unpackExponent binary64 b = 0#11 ↔ b.toNat / 2 ^ 52 % 2 ^ 11 = 0 := by
  rw [← BitVec.toNat_inj, toNat_unpackExponent]
  rfl

theorem isNegativeSign_unpackSign (b : BitVec 64) :
    isNegativeSign (.ofBitVec (@unpackSign binary64 b)) = decide (2 ^ 63 ≤ b.toNat) := by
  have hlt := b.isLt
  have hsign : @unpackSign binary64 b = 0#1 ↔ b.toNat < 2 ^ 63 := by
    rw [unpackSign_def, ← BitVec.toNat_inj, BitVec.extractLsb'_toNat, Nat.shiftRight_eq_div_pow]
    change b.toNat / 2 ^ 63 % 2 ^ 1 = 0 ↔ _
    omega
  by_cases hzero : @unpackSign binary64 b = 0#1
  · rw [Sign.ofBitVec, if_pos hzero]
    exact (decide_eq_false (Nat.not_le.mpr (hsign.mp hzero))).symm
  · rw [Sign.ofBitVec, if_neg hzero]
    exact (decide_eq_true (Nat.not_lt.mp (hzero ∘ hsign.mpr))).symm

/-- The value read off the bits is the one that is unpacked from them. -/
theorem ofFloat_eq (x : Float) : ofFloat x = ofUnpacked x.toModel.unpack := by
  obtain ⟨b, hb⟩ : ∃ b, x.toBits.toBitVec = b := ⟨_, rfl⟩
  have hnat : x.toBits.toNat = b.toNat := by rw [← hb, UInt64.toNat_toBitVec]
  have hsign : signBit = 2 ^ 63 := rfl
  have hmin : minExponent = -1074 := rfl
  change _ = ofUnpacked (unpack binary64 x.toBits.toBitVec)
  rw [hb]
  unfold unpack
  simp only [ofFloat, twoTo_eq, hnat, hsign, ← isNegativeSign_unpackSign]
  by_cases hfull : @unpackExponent binary64 b = -1#11
  · rw [if_pos hfull, if_pos (unpackExponent_eq_full.mp hfull)]
    by_cases hzero : @unpackMantissa binary64 b = 0#52
    · rw [if_pos hzero, if_pos (unpackMantissa_eq_zero.mp hzero)]
      rfl
    · rw [if_neg hzero, if_neg (mt unpackMantissa_eq_zero.mpr hzero)]
      rfl
  · rw [if_neg hfull, if_neg (mt unpackExponent_eq_full.mpr hfull)]
    by_cases hleast : @unpackExponent binary64 b = 0#11
    · rw [if_pos hleast, if_pos (unpackExponent_eq_zero.mp hleast)]
      by_cases hzero : @unpackMantissa binary64 b = 0#52
      · rw [dif_pos hzero, unpackMantissa_eq_zero.mp hzero]
        rfl
      · rw [dif_neg hzero, ofUnpacked, toNat_unpackMantissa, hleast]
        rfl
    · rw [if_neg hleast, if_neg (mt unpackExponent_eq_zero.mpr hleast), ofUnpacked,
        toNat_unpackExponent]
      have hmantissa : (1#1 ++ @unpackMantissa binary64 b).toNat = 2 ^ 52 + b.toNat % 2 ^ 52 := by
        rw [BitVec.toNat_append, ← Nat.shiftLeft_add_eq_or_of_lt (BitVec.isLt _),
          toNat_unpackMantissa]
        rfl
      rw [hmantissa]
      rfl

/-- There is only one not-a-number. -/
theorem eq_notANumber {x : Float} (h : isNaN x = true) : x = notANumber := by
  have hbits (y : Float) (hy : isNaN y = true) : y.toBits.toBitVec = packedNaN binary64 :=
    (unpack_eq_notANumber_iff_of_valid y.toModel.valid).mp ((isNaN_iff y).mp hy)
  rw [← Float.toBits_inj, ← UInt64.toBitVec_inj, hbits x h, hbits notANumber (by decide +kernel)]

/-! ## Packed doubles -/

theorem toNat_packComponents (sign : Sign) (field : BitVec 11) (fraction : BitVec 52) :
    (packComponents binary64 sign field fraction).toNat =
      (if isNegativeSign sign then signBit else 0) + (field.toNat * 2 ^ 52 + fraction.toNat) := by
  have hsign : (sign.toBitVec).toNat * 2 ^ 63 = if isNegativeSign sign then signBit else 0 := by
    cases sign <;> rfl
  rw [packComponents, BitVec.toNat_append, BitVec.toNat_append,
    ← Nat.shiftLeft_add_eq_or_of_lt (BitVec.isLt _),
    ← Nat.shiftLeft_add_eq_or_of_lt (BitVec.isLt _), Nat.shiftLeft_eq, Nat.shiftLeft_eq, ← hsign]
  ring

theorem toNat_pack_infinity (sign : Sign) :
    (pack binary64 (.infinity sign)).toNat =
      (if isNegativeSign sign then signBit else 0) + infinityBits :=
  toNat_packComponents sign (-1#11) 0#52

theorem toNat_pack_zero (sign : Sign) :
    (pack binary64 (.zero sign)).toNat = if isNegativeSign sign then signBit else 0 :=
  toNat_packComponents sign 0#11 0#52

/-- A mantissa that the doubles can hold, with an exponent that may be too large for them. -/
theorem toNat_pack_finite (sign : Sign) {mantissa : Nat} {exponent : Int} (hpos : 0 < mantissa)
    (hleast : minExponent ≤ exponent) (hsmall : mantissa < 2 ^ 53)
    (hfull : 2 ^ 52 ≤ mantissa ∨ exponent = minExponent) :
    (pack binary64 (.finite sign mantissa exponent hpos)).toNat =
      (if isNegativeSign sign then signBit else 0) +
        if exponent ≤ 971 then (exponent - minExponent).toNat * 2 ^ 52 + mantissa
        else infinityBits := by
  have hmin : minExponent = -1074 := rfl
  obtain ⟨field, hfield⟩ : ∃ field, (exponent + 1023 + 52).toNat = field := ⟨_, rfl⟩
  have hlog : mantissa.log2 + 1 = 53 ↔ 2 ^ 52 ≤ mantissa := by
    rw [← Nat.le_log2 hpos.ne']
    have := (Nat.log2_lt hpos.ne').mpr hsmall
    omega
  change BitVec.toNat (if 2 ^ 11 ≤ (exponent + 1023 + 52).toNat + 1 then
      packedInfinity binary64 sign
    else if mantissa.log2 + 1 = 53 then
      packComponents binary64 sign (BitVec.ofNat 11 (exponent + 1023 + 52).toNat)
        (BitVec.ofNat 52 mantissa)
    else packComponents binary64 sign 0#11 (BitVec.ofNat 52 mantissa)) = _
  rw [hfield]
  by_cases hlarge : 2 ^ 11 ≤ field + 1
  · have hbeyond : ¬ exponent ≤ 971 := by omega
    rw [if_pos hlarge, if_neg hbeyond]
    exact toNat_packComponents sign (-1#11) 0#52
  · have hwithin : exponent ≤ 971 := by omega
    rw [if_neg hlarge, if_pos hwithin]
    by_cases hnormal : 2 ^ 52 ≤ mantissa
    · rw [if_pos (hlog.mpr hnormal), toNat_packComponents, BitVec.toNat_ofNat, BitVec.toNat_ofNat]
      omega
    · rw [if_neg (mt hlog.mp hnormal), toNat_packComponents, BitVec.toNat_ofNat, BitVec.toNat_ofNat]
      omega

end Binary64

end GatedExpr
