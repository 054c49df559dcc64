import Mathlib
import GatedExpr.Operator
import GatedExpr.Proofs.Value.Arithmetic

/-! # Remainders of integers

The remainder of integers is the one of division rounded towards zero: it is smaller than the
divisor, has the sign of the dividend unless it is zero, and is told by that. There is none by zero.
-/

namespace GatedExpr

/-- What is left of a dividend when the quotient by a divisor is rounded towards zero. -/
structure IsRemainder (dividend divisor rest : Int) : Prop where
  smaller : |rest| < |divisor|
  sameSign : rest = 0 ∨ rest.sign = dividend.sign
  divides : divisor ∣ dividend - rest

namespace IsRemainder

variable {a b r s : Int}

theorem nonneg (h : IsRemainder a b r) (ha : 0 ≤ a) : 0 ≤ r := by
  rcases h.sameSign with rfl | hsign
  · exact le_rfl
  · rw [← Int.sign_nonneg_iff, hsign]
    exact Int.sign_nonneg_iff.mpr ha

theorem neg (h : IsRemainder a b r) : IsRemainder (-a) b (-r) where
  smaller := by
    rw [abs_neg]
    exact h.smaller
  sameSign := by
    rw [Int.sign_neg, Int.sign_neg, neg_inj, neg_eq_zero]
    exact h.sameSign
  divides := by
    rw [← neg_sub', dvd_neg]
    exact h.divides

theorem nonpos (h : IsRemainder a b r) (ha : a ≤ 0) : r ≤ 0 :=
  Int.neg_nonneg.mp (h.neg.nonneg (Int.neg_nonneg.mpr ha))

/-- The rests of a dividend are on one side of zero, so that they differ by less than the
divisor. -/
theorem unique (hr : IsRemainder a b r) (hs : IsRemainder a b s) : r = s := by
  have hdivides : b ∣ r - s := by
    have h := Int.dvd_sub hs.divides hr.divides
    rwa [sub_sub_sub_cancel_left] at h
  have hsmaller : |r - s| < |b| := by
    have hr' := abs_lt.mp hr.smaller
    have hs' := abs_lt.mp hs.smaller
    rw [abs_lt]
    rcases Int.le_total 0 a with ha | ha
    · have := hr.nonneg ha
      have := hs.nonneg ha
      omega
    · have := hr.nonpos ha
      have := hs.nonpos ha
      omega
  have hzero : r - s = 0 := Int.eq_zero_of_abs_lt_dvd ((abs_dvd _ _).mpr hdivides) hsmaller
  exact sub_eq_zero.mp hzero

theorem tmod (a : Int) (hb : b ≠ 0) : IsRemainder a b (a.tmod b) where
  smaller := by
    rw [Int.abs_eq_natAbs, Int.abs_eq_natAbs, Int.natAbs_tmod]
    exact_mod_cast Nat.mod_lt _ (Int.natAbs_pos.mpr hb)
  sameSign := by
    by_cases hdvd : b ∣ a
    · exact .inl (Int.tmod_eq_zero_of_dvd hdvd)
    · right
      rw [Int.sign_tmod, if_neg hdvd]
  divides := Int.dvd_self_sub_tmod

theorem iff_eq_tmod (hb : b ≠ 0) : IsRemainder a b r ↔ r = a.tmod b := by
  constructor
  · exact fun h => h.unique (tmod a hb)
  · rintro rfl
    exact tmod a hb

end IsRemainder

namespace BinaryOperator

variable {v w : Value} {a b : Int}

theorem apply_remainder_eq (hv : v.toNumber = .int a) (hw : w.toNumber = .int b) :
    remainder.apply v w = .ok (if b = 0 then .notANumber else .int (a.tmod b)) := by
  have hfinite : (Number.int a).isInfinite = false := rfl
  simp only [apply, Value.remainder, Number.remainder, hv, hw, hfinite, Bool.or_false]
  split_ifs with hzero hb hb
  · rfl
  · exact absurd (Number.isZero_int.mp hzero) hb
  · exact absurd (Number.isZero_int.mpr hb) hzero
  · rfl

/-- The remainder of two values that count as integers is the only rest that there is, which changes
its sign with the dividend and not with the divisor, and by zero it is not-a-number. -/
theorem apply_remainder_ints (hv : v.toNumber = .int a) (hw : w.toNumber = .int b) :
    (b = 0 → remainder.apply v w = .ok .notANumber) ∧
      (b ≠ 0 → ∃ r, remainder.apply v w = .ok (.int r) ∧ (∀ s, IsRemainder a b s ↔ s = r) ∧
        (∀ v', v'.toNumber = .int (-a) → remainder.apply v' w = .ok (.int (-r))) ∧
        ∀ w', w'.toNumber = .int (-b) → remainder.apply v w' = .ok (.int r)) := by
  refine ⟨fun hb => ?_, fun hb => ⟨a.tmod b, ?_, fun s => IsRemainder.iff_eq_tmod hb,
    fun v' hv' => ?_, fun w' hw' => ?_⟩⟩
  · rw [apply_remainder_eq hv hw, if_pos hb]
  · rw [apply_remainder_eq hv hw, if_neg hb]
  · rw [apply_remainder_eq hv' hw, if_neg hb, Int.neg_tmod]
  · rw [apply_remainder_eq hv hw', if_neg (neg_ne_zero.mpr hb), Int.tmod_neg]

/-- A list of a negative integer, by a text. -/
theorem apply_remainder_ints_coerced :
    remainder.apply (.ofList [.int (-7)]) (.text " 0x4 ") = .ok (.int (-3)) ∧
      remainder.apply (.int 7) (.text " 0x4 ") = .ok (.int 3) ∧
      remainder.apply (.ofList [.int (-7)]) (.int (-4)) = .ok (.int (-3)) := by
  have hrest : IsRemainder (-7) 4 (-3) := ⟨by decide, by decide, by decide⟩
  obtain ⟨-, hrests⟩ := apply_remainder_ints (v := .ofList [.int (-7)]) (w := .text " 0x4 ")
    (a := -7) (b := 4) rfl (by decide +kernel)
  obtain ⟨r, happly, honly, hdividend, hdivisor⟩ := hrests (by decide)
  obtain rfl := (honly (-3)).mp hrest
  exact ⟨happly, hdividend (.int 7) rfl, hdivisor (.int (-4)) rfl⟩

end BinaryOperator

end GatedExpr
