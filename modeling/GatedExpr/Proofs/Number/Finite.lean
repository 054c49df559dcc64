import Mathlib
import GatedExpr.Number.Numeral

/-! # Numbers that equal themselves

Every number but not-a-number equals itself, and no number token has not-a-number for its value.
-/

namespace GatedExpr

namespace Binary64

open Float.Model (UnpackedFloat)
open Float.Model.UnpackedFloat
open Float.Model.Format (binary64)

theorem toNat_unpackExponent (b : BitVec 64) :
    (@unpackExponent binary64 b).toNat = b.toNat / 2 ^ 52 % 2 ^ 11 := by
  simp [unpackExponent, BitVec.extractLsb, Nat.shiftRight_eq_div_pow]

theorem toNat_unpackMantissa (b : BitVec 64) :
    (@unpackMantissa binary64 b).toNat = b.toNat % 2 ^ 52 := by
  simp [unpackMantissa, BitVec.extractLsb]

theorem unpackExponent_eq_full {b : BitVec 64} :
    @unpackExponent binary64 b = -1#11 ↔ b.toNat / 2 ^ 52 % 2 ^ 11 = 2047 := by
  have hfull : (-1#11).toNat = 2047 := by decide
  rw [← BitVec.toNat_inj, toNat_unpackExponent, hfull]

theorem unpackMantissa_eq_zero {b : BitVec 64} :
    @unpackMantissa binary64 b = 0#52 ↔ b.toNat % 2 ^ 52 = 0 := by
  rw [← BitVec.toNat_inj, toNat_unpackMantissa]
  rfl

/-- The bits of not-a-number: a full exponent and a mantissa that is not zero. -/
theorem unpack_eq_notANumber {b : BitVec 64} :
    unpack binary64 b = .notANumber ↔
      b.toNat / 2 ^ 52 % 2 ^ 11 = 2047 ∧ b.toNat % 2 ^ 52 ≠ 0 := by
  rw [← unpackExponent_eq_full, ne_eq, ← unpackMantissa_eq_zero]
  unfold unpack
  simp only
  split
  · split <;> simp_all
  · split
    · split <;> simp_all
    · simp_all

theorem isNaN_iff (x : Float) :
    isNaN x = true ↔ unpack binary64 x.toBits.toBitVec = .notANumber := by
  rw [unpack_eq_notANumber, isNaN, ofFloat]
  have hfraction : twoTo 52 = 2 ^ 52 := rfl
  have hfield : twoTo 11 = 2 ^ 11 := rfl
  rw [hfraction, hfield, UInt64.toNat_toBitVec]
  split_ifs <;> simp_all

theorem unpack_pack {f : UnpackedFloat} (h : f ≠ .notANumber) :
    unpack binary64 (pack binary64 f) ≠ .notANumber := by
  rw [ne_eq, unpack_eq_notANumber, ← unpackExponent_eq_full, ne_eq, ← unpackMantissa_eq_zero]
  rintro ⟨he, hm⟩
  revert he hm
  fun_cases pack with
  | case1 => exact absurd rfl h
  | case2 s => simp [packedInfinity]
  | case3 s => simp [packedZero]
  | case4 s m e hm biasedExponent h => simp [packedInfinity]
  | case5 s m e hm actualMantissaBits biasedExponent h₁ h₂ =>
    intro he
    have hlt : biasedExponent + 1 < 2 ^ 11 := Nat.not_le.mp h₁
    have hfull : (-1#11).toNat = 2047 := by decide
    rw [unpackExponent_packComponents, ← BitVec.toNat_inj, BitVec.toNat_ofNat,
      Nat.mod_eq_of_lt (by omega), hfull] at he
    omega
  | case6 s m e hm actualMantissaBits biasedExponent h₁ h₂ => simp

theorem isNaN_ofModel_pack {f : UnpackedFloat} (h : f ≠ .notANumber) :
    isNaN (.ofModel (.pack f)) = false := by
  rw [← Bool.not_eq_true, isNaN_iff]
  exact unpack_pack h

theorem isNaN_neg {x : Float} (h : isNaN x = false) : isNaN (-x) = false := by
  rw [← Bool.not_eq_true, isNaN_iff] at h
  have hneg : x.toModel.unpack.neg ≠ .notANumber := by
    change x.toModel.unpack ≠ .notANumber at h
    cases hu : x.toModel.unpack with
    | notANumber => exact absurd hu h
    | _ => nofun
  exact isNaN_ofModel_pack hneg

theorem isNaN_ofBits {bits : Nat} (h : bits ≤ infinityBits) :
    isNaN (Float.ofBits (UInt64.ofNat bits)) = false := by
  apply isNaN_ofModel_pack
  rw [ne_eq, unpack_eq_notANumber, UInt64.toNat_toBitVec]
  have hbits : infinityBits = 2047 * 2 ^ 52 := rfl
  rw [UInt64.toNat_ofNat_of_lt' (by rw [UInt64.size]; omega)]
  omega

theorem isNaN_ofDecimal (mantissa : Nat) (exponent : Int) :
    isNaN (ofDecimal mantissa exponent) = false := by
  have hinfinity : isNaN infinity = false := isNaN_ofBits (Nat.le_refl _)
  unfold ofDecimal
  simp only
  split_ifs with hzero hlarge
  · exact isNaN_ofBits (Nat.zero_le _)
  · exact hinfinity
  · unfold nearest?
    simp only [if_neg Bool.false_ne_true]
    split_ifs with hbits
    · exact isNaN_ofBits (Nat.le_of_lt hbits)
    · exact hinfinity

end Binary64

theorem Numeral.isNaN_toSignedFloat (numeral : Numeral) (negative : Bool) :
    Binary64.isNaN (numeral.toSignedFloat negative) = false := by
  have h : Binary64.isNaN numeral.toFloat = false := Binary64.isNaN_ofDecimal _ _
  cases negative with
  | false => exact h
  | true => exact Binary64.isNaN_neg h

namespace Number

theorem isNaN_ofToken {raw : List Char} {n : Number} (h : ofToken? raw = some n) :
    n.isNaN = false := by
  unfold ofToken? at h
  split_ifs at h
  · obtain ⟨k, -, rfl⟩ := Option.map_eq_some_iff.mp h
    rfl
  · obtain ⟨x, hx, rfl⟩ := Option.map_eq_some_iff.mp h
    unfold Numeral.float? at hx
    simp only [bind, Option.bind_eq_some_iff] at hx
    obtain ⟨plain, -, hx⟩ := hx
    split at hx
    · cases hx
      exact Numeral.isNaN_toSignedFloat _ _
    · cases hx
  · obtain ⟨k, -, rfl⟩ := Option.map_eq_some_iff.mp h
    rfl

theorem equals_self {n : Number} (h : n.isNaN = false) : n.equals n = true := by
  have hpoint (a : Binary64.Dyadic) : a.compare a = .eq :=
    Std.ReflOrd.compare_self
  have hself (x : Extended) : x.compare x = .eq := by
    cases x with
    | bottom | top => rfl
    | point a => exact hpoint a
  have hplace : ∃ x, n.extended? = some x := by
    cases n with
    | int n => exact ⟨_, rfl⟩
    | float x =>
      rw [isNaN, Binary64.isNaN] at h
      rw [extended?]
      cases hx : Binary64.ofFloat x with
      | nan =>
        rw [hx] at h
        cases h
      | infinite | finite => exact ⟨_, rfl⟩
  obtain ⟨x, hx⟩ := hplace
  simp [equals, compare?, hx, hself]

end Number

end GatedExpr
