import Mathlib
import GatedExpr.Proofs.Number.Nearest

/-! # Decimals and integers among the doubles

A decimal becomes the double nearest to it, although decimals that are far too large or far too
small are not looked at closely. An integer is a double if its binary digits fit into a mantissa;
cutting off the fraction of a double gives such an integer.
-/

namespace GatedExpr

namespace Binary64

theorem tenTo_eq (k : Nat) : tenTo k = 10 ^ k :=
  rfl

/-! ## Decimals -/

theorem isNearest_infinity {q : ℚ} (h : (bound : ℚ) ≤ q) : IsNearest infinity q := by
  have hbits : infinity.toBits.toNat = (if false = true then signBit else 0) + infinityBits := by
    rw [infinity, toNat_toBits_ofBits (by decide) (by decide), if_neg Bool.false_ne_true,
      Nat.zero_add]
  have hpos : 0 < q := lt_of_lt_of_le (by rw [cast_bound]; positivity) h
  refine ⟨fun _ => ?_, fun hwithin => absurd (h.trans (le_abs_self q)) hwithin.not_ge⟩
  rw [exactValue?_of_toBits_infinity hbits, decide_eq_false hpos.not_gt]

/-- What lies less than half of the least double from zero is nearest to zero. -/
theorem isNearest_zero {q : ℚ} (hq : 0 ≤ q) (h : q / 2 ^ minExponent < 1 / 2) :
    IsNearest (Float.ofBits 0) q := by
  have hnonneg : 0 ≤ q / 2 ^ minExponent := by positivity
  have happroximates : Approximates q 0 minExponent := by
    refine ⟨le_rfl, h.trans (by norm_num), .inr rfl, ?_, ?_⟩ <;>
      rw [Nat.cast_zero, zero_sub, abs_neg, abs_of_nonneg hnonneg]
    · exact h.le
    · exact fun _ => ⟨0, rfl⟩
  have hbelow : ¬ (bound : ℚ) ≤ q := by
    rw [happroximates.bound_le_iff, minExponent]
    norm_num
  have hbits : (Float.ofBits 0).toBits.toNat = (if false = true then signBit else 0) +
      if bound ≤ q then infinityBits else (minExponent - minExponent).toNat * 2 ^ 52 + 0 := by
    rw [if_neg hbelow, sub_self]
    exact toNat_toBits_ofBits (by decide) (by decide)
  exact (happroximates.isRounding hq hbits).isNearest

theorem isNearest_getD (n : Nat) {d : Nat} (hd : 0 < d) :
    IsNearest ((nearest? false n d).getD infinity) (n / d) := by
  cases h : nearest? false n d with
  | none => exact isNearest_infinity ((nearest?_eq_none_iff false hd).mp h)
  | some x => exact isNearest_of_nearest? hd h

theorem scaled_tenTo (mantissa : Nat) (exponent : Int) :
    ((mantissa * tenTo exponent.toNat : Nat) : ℚ) / (tenTo (-exponent).toNat : Nat) =
      mantissa * 10 ^ exponent := by
  rw [zpow_eq_div (by norm_num : (10 : ℚ) ≠ 0), tenTo_eq, tenTo_eq]
  push_cast
  ring

/-- A number has at most a decimal digit for every three binary ones. -/
theorem lt_ten_pow_log2 (n : Nat) : n < 10 ^ (n.log2 / 3 + 1) :=
  calc n < 2 ^ (n.log2 + 1) := Nat.lt_log2_self
    _ ≤ 2 ^ (3 * (n.log2 / 3 + 1)) := Nat.pow_le_pow_right (by decide) (by omega)
    _ = 8 ^ (n.log2 / 3 + 1) := Nat.pow_mul 2 3 _
    _ ≤ 10 ^ (n.log2 / 3 + 1) := Nat.pow_le_pow_left (by decide) _

/-- A number has at least a decimal digit for every four binary ones. -/
theorem ten_pow_log2_le {n : Nat} (hn : n ≠ 0) : 10 ^ (n.log2 / 4) ≤ n :=
  calc 10 ^ (n.log2 / 4) ≤ 16 ^ (n.log2 / 4) := Nat.pow_le_pow_left (by decide) _
    _ = 2 ^ (4 * (n.log2 / 4)) := (Nat.pow_mul 2 4 _).symm
    _ ≤ 2 ^ n.log2 := Nat.pow_le_pow_right (by decide) (by omega)
    _ ≤ n := Nat.log2_self_le hn

/-- A decimal becomes the double nearest to it. -/
theorem isNearest_ofDecimal (mantissa : Nat) (exponent : Int) :
    IsNearest (ofDecimal mantissa exponent) (mantissa * 10 ^ exponent) := by
  have hten : (0 : ℚ) < 10 ^ exponent := by positivity
  unfold ofDecimal
  simp only
  split_ifs with hsmall hlarge
  · refine isNearest_zero (by positivity) ?_
    rcases hsmall with rfl | hsmall
    · norm_num
    · have hlt : (mantissa : ℚ) < 10 ^ ((mantissa.log2 / 3 + 1 : Nat) : Int) := by
        rw [zpow_natCast]
        exact_mod_cast lt_ten_pow_log2 mantissa
      rw [div_lt_iff₀ (by positivity)]
      calc (mantissa : ℚ) * 10 ^ exponent
          < 10 ^ ((mantissa.log2 / 3 + 1 : Nat) : Int) * 10 ^ exponent := by gcongr
        _ = 10 ^ (((mantissa.log2 / 3 + 1 : Nat) : Int) + exponent) :=
            (zpow_add₀ (by norm_num) _ _).symm
        _ ≤ 10 ^ (-330 : Int) := zpow_le_zpow_right₀ (by norm_num) (by push_cast; omega)
        _ < 1 / 2 * 2 ^ minExponent := by
          have hpowers : 2 * 2 ^ 1074 < 10 ^ 330 := by decide +kernel
          rw [minExponent, zpow_neg, zpow_neg, zpow_ofNat, zpow_ofNat, one_div, ← mul_inv]
          exact inv_strictAnti₀ (by positivity) (by exact_mod_cast hpowers)
  · refine isNearest_infinity ?_
    have hge : (10 : ℚ) ^ ((mantissa.log2 / 4 : Nat) : Int) ≤ mantissa := by
      rw [zpow_natCast]
      exact_mod_cast ten_pow_log2_le (not_or.mp hsmall).1
    calc (bound : ℚ) ≤ 10 ^ (311 : Int) := by
          have hbound : bound ≤ 10 ^ 311 := by decide +kernel
          rw [zpow_ofNat]
          exact_mod_cast hbound
      _ ≤ 10 ^ (((mantissa.log2 / 4 : Nat) : Int) + exponent) :=
          zpow_le_zpow_right₀ (by norm_num) (by push_cast; omega)
      _ = 10 ^ ((mantissa.log2 / 4 : Nat) : Int) * 10 ^ exponent := zpow_add₀ (by norm_num) _ _
      _ ≤ mantissa * 10 ^ exponent := by gcongr
  · rw [← scaled_tenTo]
    exact isNearest_getD _ (by rw [tenTo_eq]; positivity)

theorem Dyadic.truncate_of_toRat {a : Dyadic} {n : Int} (h : a.toRat = n) : a.truncate = n := by
  rw [toRat, div_eq_iff (by positivity)] at h
  have hnumerator : a.numerator = n * 2 ^ a.shift := by exact_mod_cast h
  rw [truncate, hnumerator, twoTo_eq]
  push_cast
  exact Int.mul_tdiv_cancel _ (by positivity)

theorem Dyadic.toRat_of_shift {a : Dyadic} (h : a.shift = 0) : a.toRat = a.truncate := by
  simp [toRat, truncate, h, twoTo_eq]

theorem Dyadic.natAbs_truncate_le (a : Dyadic) : a.truncate.natAbs ≤ a.numerator.natAbs := by
  rw [truncate, Int.natAbs_tdiv]
  exact Nat.div_le_self _ _

end Binary64

namespace Number

open Binary64

/-! ## Integers -/

/-- A double stands for exactly the integer. -/
def IsDouble (n : Int) : Prop :=
  ∃ x, (Number.float x).exactValue? = some (.rational n)

theorem natAbs_eq_abs (n : Int) : (n.natAbs : ℚ) = |(n : ℚ)| := by
  rw [Nat.cast_natAbs, Int.cast_abs]

/-- The doubles hold the integers of 53 bits and their multiples by powers of two, as far as they
reach. -/
theorem isDouble_iff {n : Int} : IsDouble n ↔ ∃ (k : Nat) (f : Int),
    (n.natAbs : ℚ) = k * 2 ^ f ∧ k < 2 ^ 53 ∧ minExponent ≤ f ∧ f ≤ 971 := by
  constructor
  · rintro ⟨x, hx⟩
    rw [natAbs_eq_abs]
    exact abs_of_exactValue? hx
  · rintro ⟨k, f, hn, hk, hleast, hmost⟩
    have hbelow : n.natAbs < bound := by
      have hlt : (n.natAbs : ℚ) < bound := by
        rw [hn]
        exact mul_zpow_lt_bound hk hmost
      exact_mod_cast hlt
    obtain ⟨x, hx⟩ := exists_ofInt? hbelow
    obtain ⟨mantissa, exponent, happroximates, hbelow', hbits⟩ :=
      exists_approximates_of_nearest? Nat.one_pos hx
    have hclosest := happroximates.closest hk hleast
    rw [Nat.cast_one, div_one, hn, sub_self, abs_zero, abs_nonpos_iff, sub_eq_zero, ← hn]
      at hclosest
    refine ⟨x, ?_⟩
    rw [exactValue?_of_toBits hbits happroximates.least happroximates.mantissa_le
      happroximates.le_mantissa (happroximates.lt_infinityBits_iff.mpr hbelow'), rational,
      hclosest, withSign_natAbs]

/-- The double nearest to an integer that is one stands for it. -/
theorem IsDouble.exactValue? {n : Int} (h : IsDouble n) {x : Float} (hx : IsNearest x n) :
    (Number.float x).exactValue? = some (.rational n) := by
  obtain ⟨y, hy⟩ := h
  obtain ⟨v, hv, hclosest⟩ := hx.within (abs_lt_bound hy)
  have hle := hclosest y n hy
  rw [sub_self, abs_zero, abs_nonpos_iff, sub_eq_zero] at hle
  rwa [hle] at hv

theorem isDouble_of_lt {n : Int} (h : n.natAbs < 2 ^ 53) : IsDouble n :=
  isDouble_iff.mpr ⟨n.natAbs, 0, by simp, h, by decide, by decide⟩

/-- From `2 ^ 53` on, odd integers lie between the doubles. -/
theorem not_isDouble_of_odd {n : Int} (hodd : Odd n) (h : 2 ^ 53 ≤ n.natAbs) : ¬ IsDouble n := by
  intro hdouble
  obtain ⟨k, f, hn, hk, -, -⟩ := isDouble_iff.mp hdouble
  rcases lt_or_ge 0 f with hpos | hneg
  · obtain ⟨i, rfl⟩ : ∃ i : Nat, f = i + 1 := ⟨(f - 1).toNat, by omega⟩
    have heq : n.natAbs = k * 2 ^ (i + 1) := by
      rw [← Nat.cast_succ, zpow_natCast] at hn
      exact_mod_cast hn
    refine Nat.not_even_iff_odd.mpr (Int.natAbs_odd.mpr hodd) ⟨k * 2 ^ i, ?_⟩
    rw [heq, pow_succ]
    ring
  · have hle : (n.natAbs : ℚ) ≤ k :=
      hn.trans_le (mul_le_of_le_one_right (Nat.cast_nonneg k)
        (zpow_le_one_of_nonpos₀ one_le_two hneg))
    have : n.natAbs ≤ k := by exact_mod_cast hle
    omega

theorem truncate_of_exactValue? {x : Float} {n : Int}
    (h : (Number.float x).exactValue? = some (.rational n)) :
    (Number.float x).truncate = .ok n := by
  obtain ⟨negative, mantissa, exponent, hx, hvalue⟩ := exists_finite h
  rw [← toRat_dyadic] at hvalue
  simp only [truncate, hx]
  rw [Dyadic.truncate_of_toRat hvalue]

/-- Cutting off the fraction of a double gives an integer that is a double. -/
theorem isDouble_of_truncate {x : Float} {n : Int} (h : (Number.float x).truncate = .ok n) :
    IsDouble n := by
  cases hx : ofFloat x with
  | nan => simp [truncate, hx] at h
  | infinite negative => simp [truncate, hx] at h
  | finite negative mantissa exponent =>
    obtain rfl : (dyadic negative mantissa exponent).truncate = n := by simpa [truncate, hx] using h
    rcases le_or_gt 0 exponent with hwhole | hfraction
    · have hshift : (dyadic negative mantissa exponent).shift = 0 := by
        simp only [dyadic]
        omega
      exact ⟨x, by rw [exactValue?_finite hx, ← toRat_dyadic, Dyadic.toRat_of_shift hshift]⟩
    · have hnumerator : (dyadic negative mantissa exponent).numerator.natAbs = mantissa := by
        have hscale : exponent.toNat = 0 := by omega
        cases negative <;> simp [dyadic, hscale, twoTo_eq]
      refine isDouble_of_lt (lt_of_le_of_lt (Dyadic.natAbs_truncate_le _) ?_)
      rw [hnumerator]
      exact (bounds_of_ofFloat hx).1

/-- Reading digits as a double first keeps the integers that are doubles, and no others. -/
theorem truncate_ofDecimal_iff {n : Nat} :
    (Number.float (ofDecimal n 0)).truncate = .ok n ↔ IsDouble n := by
  refine ⟨isDouble_of_truncate, fun hdouble => ?_⟩
  have hnearest := isNearest_ofDecimal n 0
  rw [zpow_zero, mul_one] at hnearest
  exact truncate_of_exactValue? (hdouble.exactValue? hnearest)

/-- A natural number that is read as a double first: what it is if it is cut off again. -/
def throughDouble (n : Nat) : Number :=
  match truncate (.float (ofDecimal n 0)) with
  | .ok m => .int m
  | .error _ => .float (ofDecimal n 0)

theorem throughDouble_of_isDouble {n : Nat} (h : IsDouble n) : throughDouble n = .int n := by
  rw [throughDouble, truncate_ofDecimal_iff.mpr h]

/-- A number that is no double comes back as another one. -/
theorem throughDouble_of_not_isDouble {n : Nat} (h : ¬ IsDouble n) :
    (throughDouble n).equals (.int n) = false := by
  rw [Bool.eq_false_iff, ne_eq, equals_iff]
  rintro ⟨p, hp, hn⟩
  rw [exactValue?_int] at hn
  cases hn
  unfold throughDouble at hp
  split at hp
  · next m hm =>
    rw [exactValue?_int] at hp
    obtain rfl : m = n := by exact_mod_cast Exact.rational.inj (Option.some.inj hp)
    exact h (isDouble_of_truncate hm)
  · exact h ⟨_, hp⟩

end Number

end GatedExpr
