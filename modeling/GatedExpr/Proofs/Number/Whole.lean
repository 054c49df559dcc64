import Mathlib
import GatedExpr.Proofs.Number.Decimals

/-! # Whole doubles

The double nearest to an integer is an integer. From `2 ^ 52` on all doubles are, and below it the
integers are doubles themselves.
-/

namespace GatedExpr

namespace Binary64

open Number (IsDouble isDouble_of_lt)

variable {x : Float} {m n : Int}

theorem Dyadic.floor_eq (a : Dyadic) : a.floor = ⌊a.toRat⌋ := by
  have hpower : (2 : ℚ) ^ a.shift = ((2 ^ a.shift : Nat) : ℚ) := by push_cast; rfl
  rw [floor, toRat, hpower, Rat.floor_intCast_div_natCast, twoTo_eq,
    Int.fdiv_eq_ediv_of_nonneg _ (Int.natCast_nonneg _)]

theorem isInteger_of_exactValue? (h : (Number.float x).exactValue? = some (.rational m)) :
    isInteger x = true := by
  obtain ⟨negative, mantissa, exponent, hx, hvalue⟩ := Number.exists_finite h
  rw [← toRat_dyadic, Dyadic.toRat, div_eq_iff (by positivity)] at hvalue
  have hnumerator : (dyadic negative mantissa exponent).numerator =
      m * 2 ^ (dyadic negative mantissa exponent).shift := by exact_mod_cast hvalue
  simp [isInteger, hx, Dyadic.isInteger, hnumerator, twoTo_eq]

/-- Doubles that are not whole lie below `2 ^ 52`. -/
theorem exists_int_or_lt {v : ℚ} (h : (Number.float x).exactValue? = some (.rational v)) :
    (∃ m : Int, v = m) ∨ |v| < 2 ^ 52 := by
  obtain ⟨k, f, habs, hk, -, -⟩ := abs_of_exactValue? h
  rcases le_or_gt 0 f with hwhole | hfraction
  · obtain ⟨i, rfl⟩ := Int.eq_ofNat_of_zero_le hwhole
    refine .inl ?_
    rcases abs_choice v with hv | hv <;> rw [hv] at habs
    · exact ⟨(k * 2 ^ i : Nat), by rw [habs]; push_cast; norm_cast⟩
    · exact ⟨-(k * 2 ^ i : Nat), by rw [← neg_neg v, habs]; push_cast; norm_cast⟩
  · refine .inr ?_
    have hhalf : (2 : ℚ) ^ f ≤ 2 ^ (-1 : Int) := zpow_le_zpow_right₀ one_le_two (by omega)
    have hk' : (k : ℚ) < 2 ^ 53 := by exact_mod_cast hk
    rw [habs]
    calc (k : ℚ) * 2 ^ f ≤ k * 2 ^ (-1 : Int) := by gcongr
      _ < 2 ^ 53 * 2 ^ (-1 : Int) := by gcongr
      _ = 2 ^ 52 := by norm_num

/-- The double nearest to an integer is an integer. -/
theorem exists_int_of_isNearest (h : IsNearest x n) (hn : n.natAbs < bound) :
    ∃ m : Int, (Number.float x).exactValue? = some (.rational m) := by
  have hn' : |(n : ℚ)| < bound := by
    rw [← Number.natAbs_eq_abs]
    exact_mod_cast hn
  obtain ⟨v, hv, hclosest⟩ := h.within hn'
  rcases exists_int_or_lt hv with ⟨m, rfl⟩ | hsmall
  · exact ⟨m, hv⟩
  -- The integers around a small double are doubles, and one of them would be closer.
  obtain ⟨m, hm⟩ : ∃ m, ⌊v⌋ = m := ⟨_, rfl⟩
  obtain ⟨hle, hlt⟩ := Int.floor_eq_iff.mp hm
  rcases hle.eq_or_lt with heq | hless
  · exact ⟨m, heq ▸ hv⟩
  have hdouble (i : Int) (hi : |(i : ℚ) - v| < 1) : IsDouble i := by
    refine isDouble_of_lt ?_
    have habs : |(i : ℚ)| < 2 ^ 53 := by
      calc |(i : ℚ)| ≤ |(i : ℚ) - v| + |v| := by simpa using abs_add_le ((i : ℚ) - v) v
        _ < 1 + 2 ^ 52 := add_lt_add hi hsmall
        _ < 2 ^ 53 := by norm_num
    rw [← Number.natAbs_eq_abs] at habs
    exact_mod_cast habs
  exfalso
  rcases le_or_gt n m with hbelow | habove
  · obtain ⟨y, hy⟩ := hdouble m (abs_lt.mpr ⟨by linarith, by linarith⟩)
    have hcloser := hclosest y m hy
    have hbelow' : (n : ℚ) ≤ m := by exact_mod_cast hbelow
    rw [abs_of_pos (by linarith), abs_of_nonneg (by linarith)] at hcloser
    linarith
  · obtain ⟨y, hy⟩ := hdouble (m + 1) (abs_lt.mpr ⟨by push_cast; linarith, by push_cast; linarith⟩)
    have hcloser := hclosest y _ hy
    have habove' : (m : ℚ) + 1 ≤ n := by exact_mod_cast habove
    push_cast at hcloser
    rw [abs_of_neg (by linarith), abs_of_nonpos (by linarith)] at hcloser
    linarith

/-- An integer that is not beyond the doubles becomes a double without a fractional part. -/
theorem exists_whole_of_ofInt? (h : ofInt? n = some x) :
    ∃ m : Int, (Number.float x).exactValue? = some (.rational m) := by
  refine exists_int_of_isNearest (isNearest_of_ofInt? h) (Nat.lt_of_not_le fun hbound => ?_)
  rw [ofInt?_eq_none_iff.mpr hbound] at h
  cases h

end Binary64

namespace Number

theorem isInteger_int {n : Int} (h : n.natAbs < Binary64.bound) :
    (int n).isInteger = .ok true := by
  obtain ⟨x, hx⟩ := Binary64.exists_ofInt? h
  obtain ⟨m, hm⟩ := Binary64.exists_whole_of_ofInt? hx
  rw [isInteger, toFloat, hx, ← Binary64.isInteger_of_exactValue? hm]
  rfl

end Number

end GatedExpr
