import Mathlib
import GatedExpr.Proofs.Number.Nearest

/-! # Rounding of unpacked doubles

The operations of the doubles cut an exact result off and keep residual bits that say what was cut
off. Rounding by these bits gives the double nearest to the exact result, and the infinity of its
sign where that lies beyond the largest one.
-/

namespace GatedExpr

namespace Binary64

open Float.Model (UnpackedFloat totalExponent)
open Float.Model.UnpackedFloat
open Float.Model.Format (binary64 targetExponent)

/-! ## Mantissas with residual bits -/

/-- The rational that a mantissa was cut off from: the residual bits say where it lies between the
mantissa and the next one. -/
def Represents (m : ExtendedMantissa) (t : ℚ) : Prop :=
  match m.roundBit, m.stickyBit with
  | false, false => t = m.mantissa
  | false, true => m.mantissa < t ∧ t < m.mantissa + 1 / 2
  | true, false => t = m.mantissa + 1 / 2
  | true, true => m.mantissa + 1 / 2 < t ∧ t < m.mantissa + 1

theorem represents_exact (mantissa : Nat) :
    Represents (.ofMantissaAndAccuracy mantissa .exact) mantissa :=
  rfl

theorem represents_quotient (n : Nat) {d : Nat} (hd : 0 < d) :
    Represents (.ofMantissaAndAccuracy (n / d) (accuracyOfFraction (n % d) d)) (n / d) := by
  have hd' : (0 : ℚ) < d := by exact_mod_cast hd
  have hlt : ((n % d : Nat) : ℚ) / d < 1 := by
    rw [div_lt_one hd']
    exact_mod_cast Nat.mod_lt n hd
  have hhalf : 2 * (((n % d : Nat) : ℚ) / d) = (2 * (n % d) : Nat) / d := by
    push_cast
    ring
  rw [cast_div_add_mod n hd]
  rcases Nat.eq_zero_or_pos (n % d) with hzero | hpos
  · rw [hzero]
    simp [accuracyOfFraction, ExtendedMantissa.ofMantissaAndAccuracy, Represents]
  · have hpos' : (0 : ℚ) < (n % d : Nat) / d := by positivity
    rw [accuracyOfFraction, if_neg hpos.ne']
    rcases Nat.lt_trichotomy (2 * (n % d)) d with hless | heq | hmore
    · have hless' : 2 * (((n % d : Nat) : ℚ) / d) < 1 := by
        rw [hhalf, div_lt_one hd']
        exact_mod_cast hless
      rw [Nat.compare_eq_lt.mpr hless]
      simp only [ExtendedMantissa.ofMantissaAndAccuracy, Represents]
      exact ⟨by linarith, by linarith⟩
    · have heq' : 2 * (((n % d : Nat) : ℚ) / d) = 1 := by
        rw [hhalf, heq, div_self hd'.ne']
      rw [Nat.compare_eq_eq.mpr heq]
      simp only [ExtendedMantissa.ofMantissaAndAccuracy, Represents]
      linarith
    · have hmore' : 1 < 2 * (((n % d : Nat) : ℚ) / d) := by
        rw [hhalf, one_lt_div hd']
        exact_mod_cast hmore
      rw [Nat.compare_eq_gt.mpr hmore]
      simp only [ExtendedMantissa.ofMantissaAndAccuracy, Represents]
      exact ⟨by linarith, by linarith⟩

namespace Represents

variable {m : ExtendedMantissa} {t : ℚ}

theorem le (h : Represents m t) : (m.mantissa : ℚ) ≤ t := by
  rcases m with ⟨mantissa, round | round, sticky | sticky⟩ <;> simp only [Represents] at h <;>
    linarith

theorem lt (h : Represents m t) : t < m.mantissa + 1 := by
  rcases m with ⟨mantissa, round | round, sticky | sticky⟩ <;> simp only [Represents] at h <;>
    linarith

/-- Rounding by the residual bits is rounding to the nearest. -/
theorem roundsTo (h : Represents m t) : RoundsTo t m.roundedMantissa := by
  have hclear {k : Nat} (hlt : |(k : ℚ) - t| < 1 / 2) : RoundsTo t k :=
    ⟨hlt.le, fun htie => absurd htie hlt.ne⟩
  rcases m with ⟨mantissa, round | round, sticky | sticky⟩ <;> simp only [Represents] at h
  · exact hclear (k := mantissa) (by rw [h]; norm_num)
  · exact hclear (k := mantissa) (abs_lt.mpr ⟨by linarith, by linarith⟩)
  · change RoundsTo t (mantissa + mantissa % 2)
    rcases Nat.mod_two_eq_zero_or_one mantissa with heven | hodd
    · rw [heven, h]
      exact ⟨by norm_num, fun _ => Nat.even_iff.mpr heven⟩
    · rw [hodd, h]
      exact ⟨by norm_num [abs_le], fun _ => Nat.even_add_one.mpr (Nat.not_even_iff.mpr hodd)⟩
  · refine hclear (k := mantissa + 1) ?_
    push_cast
    exact abs_lt.mpr ⟨by linarith, by linarith⟩

theorem shiftRightOne (h : Represents m t) : Represents m.shiftRightOne (t / 2) := by
  have hsplit : (m.mantissa : ℚ) = 2 * (m.mantissa / 2 : Nat) + (m.mantissa % 2 : Nat) := by
    exact_mod_cast (Nat.div_add_mod m.mantissa 2).symm
  rcases Nat.mod_two_eq_zero_or_one m.mantissa with hlow | hlow <;>
    rcases m with ⟨mantissa, round | round, sticky | sticky⟩ <;>
    simp only [Represents, ExtendedMantissa.shiftRightOne] at h hlow hsplit ⊢ <;>
    simp only [hlow, Nat.cast_zero, Nat.cast_one, Nat.reduceBNe, Bool.or_false] at hsplit ⊢ <;>
    first
    | exact ⟨by linarith, by linarith⟩
    | linarith

theorem shiftRight (h : Represents m t) (k : Nat) : Represents (m >>> k) (t / 2 ^ k) := by
  change Represents (k.repeat ExtendedMantissa.shiftRightOne m) _
  induction k with
  | zero => simpa [Nat.repeat] using h
  | succ k ih =>
    rw [Nat.repeat, pow_succ, ← div_div]
    exact ih.shiftRightOne

end Represents

/-! ## Rounding -/

theorem targetExponent_eq (mantissa : Nat) (exponent : Int) :
    binary64.targetExponent (totalExponent mantissa exponent) =
      max (mantissa.log2 + exponent - 52) minExponent := by
  change max ((mantissa.log2 : Int) + 1 + exponent - 53) (-1074) = _
  rw [minExponent]
  congr 1
  ring

/-- A rounded mantissa as an unpacked double. -/
def settle (sign : Sign) (mantissa : Nat) (exponent : Int) : UnpackedFloat :=
  if h : mantissa = 0 then .zero sign else .finite sign mantissa exponent (Nat.pos_of_ne_zero h)

theorem toNat_pack_settle (sign : Sign) {mantissa : Nat} {exponent : Int}
    (hleast : minExponent ≤ exponent) (hsmall : mantissa < 2 ^ 53)
    (hfull : 2 ^ 52 ≤ mantissa ∨ exponent = minExponent) :
    (pack binary64 (settle sign mantissa exponent)).toNat =
      (if isNegativeSign sign then signBit else 0) +
        if exponent ≤ 971 then (exponent - minExponent).toNat * 2 ^ 52 + mantissa
        else infinityBits := by
  rcases Nat.eq_zero_or_pos mantissa with rfl | hpos
  · obtain rfl : exponent = minExponent := hfull.resolve_left (by decide)
    exact toNat_pack_zero sign
  · rw [settle, dif_neg hpos.ne']
    exact toNat_pack_finite sign hpos hleast hsmall hfull

/-- A mantissa with a carry is shifted once more, which does not change the bits. -/
theorem toNat_pack_shift (sign : Sign) {mantissa : Nat} {exponent : Int}
    (hleast : minExponent ≤ exponent) (hle : mantissa ≤ 2 ^ 53)
    (hfull : 2 ^ 52 ≤ mantissa ∨ exponent = minExponent) :
    (pack binary64 (settle sign (shiftToTargetExponent binary64 mantissa exponent .exact).1.mantissa
      (shiftToTargetExponent binary64 mantissa exponent .exact).2)).toNat =
      (if isNegativeSign sign then signBit else 0) +
        if 971 < exponent ∨ exponent = 971 ∧ mantissa = 2 ^ 53 then infinityBits
        else (exponent - minExponent).toNat * 2 ^ 52 + mantissa := by
  have hinfinity : infinityBits = 2047 * 2 ^ 52 := rfl
  have hmin : minExponent = -1074 := rfl
  simp only [shiftToTargetExponent, shiftToExponent, targetExponent_eq]
  rcases Nat.lt_or_eq_of_le hle with hlt | rfl
  · have hlog : mantissa.log2 ≤ 52 := by
      rcases Nat.eq_zero_or_pos mantissa with rfl | hpos
      · decide
      · exact Nat.le_of_lt_succ ((Nat.log2_lt hpos.ne').mpr hlt)
    have hstay :
        (max ((mantissa.log2 : Int) + exponent - 52) minExponent - exponent).toNat = 0 := by
      omega
    rw [hstay]
    change (pack binary64 (settle sign mantissa (exponent + (0 : Nat)))).toNat = _
    rw [Nat.cast_zero, add_zero, toNat_pack_settle sign hleast hlt hfull]
    split_ifs <;> omega
  · have hlog : Nat.log2 (2 ^ 53) = 53 := Nat.log2_two_pow
    have hstep :
        (max ((Nat.log2 (2 ^ 53) : Int) + exponent - 52) minExponent - exponent).toNat = 1 := by
      omega
    rw [hstep]
    change (pack binary64 (settle sign (2 ^ 53 / 2) (exponent + (1 : Nat)))).toNat = _
    rw [toNat_pack_settle sign (by omega) (by omega) (by omega)]
    split_ifs <;> omega

section

variable {mantissa : Nat} {exponent : Int} {accuracy : Accuracy} {t : ℚ}

theorem mantissa_ofMantissaAndAccuracy (mantissa : Nat) (accuracy : Accuracy) :
    ExtendedMantissa.mantissa (.ofMantissaAndAccuracy mantissa accuracy) = mantissa := by
  fun_cases ExtendedMantissa.ofMantissaAndAccuracy <;> rfl

/-- What is cut off leaves the number of bits. -/
theorem Represents.two_pow_log2_le (h : Represents (.ofMantissaAndAccuracy mantissa accuracy) t)
    (hpos : 0 < mantissa) : 2 ^ (mantissa.log2 : Int) ≤ t :=
  (Binary64.two_pow_log2_le hpos).trans (mantissa_ofMantissaAndAccuracy mantissa accuracy ▸ h.le)

theorem Represents.lt_two_pow_log2 (h : Represents (.ofMantissaAndAccuracy mantissa accuracy) t) :
    t < 2 ^ ((mantissa.log2 : Int) + 1) := by
  have hlt : mantissa + 1 ≤ 2 ^ (mantissa.log2 + 1) := Nat.lt_log2_self
  calc t < mantissa + 1 := mantissa_ofMantissaAndAccuracy mantissa accuracy ▸ h.lt
    _ ≤ 2 ^ (mantissa.log2 + 1) := by exact_mod_cast hlt
    _ = _ := by norm_cast

theorem approximates_shift (h : Represents (.ofMantissaAndAccuracy mantissa accuracy) t)
    (hbits : 2 ^ 52 ≤ mantissa ∨ exponent ≤ minExponent) :
    Approximates (t * 2 ^ exponent)
      (shiftToTargetExponent binary64 mantissa exponent accuracy).1.roundedMantissa
      (shiftToTargetExponent binary64 mantissa exponent accuracy).2 := by
  obtain ⟨target, htarget⟩ : ∃ target,
    max ((mantissa.log2 : Int) + exponent - 52) minExponent = target := ⟨_, rfl⟩
  have hlow : 2 ^ 52 ≤ mantissa → 52 ≤ mantissa.log2 := fun hle =>
    (Nat.le_log2 (by omega)).mpr hle
  have hexponent : exponent + (target - exponent).toNat = target := by omega
  have hscale : t * 2 ^ exponent / 2 ^ target = t / 2 ^ (target - exponent).toNat := by
    rw [zpow_eq_mul (show exponent ≤ target by omega)]
    field_simp
  simp only [shiftToTargetExponent, shiftToExponent, targetExponent_eq, htarget, hexponent]
  refine ⟨by omega, ?_, ?_, ?_⟩
  · rw [div_lt_iff₀ (by positivity)]
    calc t * 2 ^ exponent < 2 ^ ((mantissa.log2 : Int) + 1) * 2 ^ exponent := by
          gcongr
          exact h.lt_two_pow_log2
      _ = 2 ^ ((mantissa.log2 : Int) + 1 + exponent) := by rw [← zpow_add₀ two_ne_zero]
      _ ≤ 2 ^ (53 + target) := zpow_le_zpow_right₀ one_le_two (by omega)
      _ = 2 ^ 53 * 2 ^ target := by rw [zpow_add₀ two_ne_zero]; norm_cast
  · rcases eq_or_ne target minExponent with hleast | hmore
    · exact .inr hleast
    · have hpos : 0 < mantissa := by
        by_contra hzero
        obtain rfl : mantissa = 0 := by omega
        have hlog : Nat.log2 0 = 0 := by decide
        omega
      refine .inl ?_
      rw [le_div_iff₀ (by positivity)]
      calc (2 : ℚ) ^ 52 * 2 ^ target = 2 ^ (52 + target) := by
            rw [zpow_add₀ two_ne_zero]; norm_cast
        _ = 2 ^ (mantissa.log2 : Int) * 2 ^ exponent := by
            rw [← zpow_add₀ two_ne_zero]
            congr 1
            omega
        _ ≤ t * 2 ^ exponent := by gcongr; exact h.two_pow_log2_le hpos
  · rw [hscale]
    exact (h.shiftRight _).roundsTo

/-- Rounding an unpacked double is rounding its mantissa to the nearest. -/
theorem isRounding_roundWithAccuracy (sign : Sign)
    (h : Represents (.ofMantissaAndAccuracy mantissa accuracy) t)
    (hbits : 2 ^ 52 ≤ mantissa ∨ exponent ≤ minExponent) :
    IsRounding (.ofModel (.pack (roundWithAccuracy binary64 sign mantissa exponent accuracy)))
      (withSign (isNegativeSign sign) (t * 2 ^ exponent)) := by
  have happroximates := approximates_shift h hbits
  have ht : 0 ≤ t := (Nat.cast_nonneg _).trans h.le
  refine happroximates.isRounding (by positivity) ?_
  simp only [happroximates.bound_le_iff]
  exact toNat_pack_shift sign happroximates.least happroximates.mantissa_le
    happroximates.le_mantissa

end

/-! ## Operands -/

/-- What an unpacked double stands for. -/
def exactUnpacked : UnpackedFloat → Option Number.Exact
  | .notANumber => none
  | .infinity sign => some (.infinite (isNegativeSign sign))
  | .zero _ => some (.rational 0)
  | .finite sign mantissa exponent _ =>
    some (.rational (withSign (isNegativeSign sign) (mantissa * 2 ^ exponent)))

theorem exactValue?_float (x : Float) :
    (Number.float x).exactValue? = exactUnpacked x.toModel.unpack := by
  have hvalue := ofFloat_eq x
  cases hx : x.toModel.unpack with
  | notANumber => exact Number.exactValue?_nan (hvalue.trans (congrArg ofUnpacked hx))
  | infinity sign => exact Number.exactValue?_infinite (hvalue.trans (congrArg ofUnpacked hx))
  | zero sign =>
    rw [Number.exactValue?_finite (hvalue.trans (congrArg ofUnpacked hx)), rational_zero]
    rfl
  | finite sign mantissa exponent hpos =>
    exact Number.exactValue?_finite (hvalue.trans (congrArg ofUnpacked hx))

/-- A finite unpacked double that packing keeps. -/
structure Fits (mantissa : Nat) (exponent : Int) : Prop where
  least : minExponent ≤ exponent
  most : exponent ≤ 971
  small : mantissa < 2 ^ 53
  full : 2 ^ 52 ≤ mantissa ∨ exponent = minExponent

/-- Whether packing keeps an unpacked double. -/
def IsPacked : UnpackedFloat → Prop
  | .finite _ mantissa exponent _ => Fits mantissa exponent
  | _ => True

theorem isPacked_unpack (x : Float) : IsPacked x.toModel.unpack := by
  have hvalue := ofFloat_eq x
  cases hx : x.toModel.unpack with
  | notANumber | infinity | zero => trivial
  | finite sign mantissa exponent hpos =>
    rw [hx] at hvalue
    obtain ⟨hsmall, hleast, hmost⟩ := bounds_of_ofFloat hvalue
    exact ⟨hleast, hmost, hsmall, full_of_ofFloat hvalue⟩

theorem exactValue?_pack {a : UnpackedFloat} (h : IsPacked a) :
    (Number.float (.ofModel (.pack a))).exactValue? = exactUnpacked a := by
  cases a with
  | notANumber => exact Number.exactValue?_notANumber
  | infinity sign => exact exactValue?_of_toBits_infinity (toNat_pack_infinity sign)
  | zero sign =>
    have hbits : (Float.ofModel (.pack (.zero sign))).toBits.toNat =
        (if isNegativeSign sign then signBit else 0) +
          ((minExponent - minExponent).toNat * 2 ^ 52 + 0) := toNat_pack_zero sign
    rw [exactValue?_of_toBits hbits le_rfl (by decide) (.inr rfl) (by decide), rational_zero]
    rfl
  | finite sign mantissa exponent hpos =>
    have hinfinity : infinityBits = 2047 * 2 ^ 52 := rfl
    have hmin : minExponent = -1074 := rfl
    obtain ⟨hleast, hmost, hsmall, hfull⟩ := h
    have hbits := toNat_pack_finite sign hpos hleast hsmall hfull
    rw [if_pos hmost] at hbits
    exact exactValue?_of_toBits hbits hleast hsmall.le hfull (by omega)

theorem isPacked_neg {a : UnpackedFloat} (h : IsPacked a) : IsPacked a.neg := by
  cases a with
  | finite sign mantissa exponent hpos => exact h
  | _ => trivial

end Binary64

end GatedExpr
