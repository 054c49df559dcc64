import Mathlib
import GatedExpr.Builtin.Library
import GatedExpr.Proofs.Number.Doubles
import GatedExpr.Proofs.Number.Whole

/-! # Rounding integers

Rounding down, up and toward zero leaves an integer as it is unless it lies beyond the doubles;
then the result is not-a-number. Rounding to the nearest adds a half to the double of the integer:
from `2 ^ 52` on that sum is rounded itself, which makes odd integers even, and integers that are
no doubles have been replaced by one before.
-/

namespace GatedExpr

namespace Binary64

open Number (IsDouble isDouble_of_lt not_isDouble_of_odd natAbs_eq_abs)

variable {x : Float} {m : Int}

theorem exactValue?_half : (Number.float 0.5).exactValue? = some (.rational (1 / 2)) := by
  have hhalf : ofFloat 0.5 = .finite false (2 ^ 52) (-53) := by decide +kernel
  rw [Number.exactValue?_finite hhalf, rational, withSign, if_neg Bool.false_ne_true]
  norm_num

/-- The integers next to an integer and a half. -/
theorem eq_or_eq_of_half {j : Int} (h : |(j : ℚ) - (m + 1 / 2)| ≤ 1 / 2) : j = m ∨ j = m + 1 := by
  obtain ⟨hlow, hhigh⟩ := abs_le.mp h
  have hle : (m : ℚ) ≤ j := by linarith
  have hge : (j : ℚ) ≤ (m + 1 : Int) := by push_cast; linarith
  have hle' : m ≤ j := by exact_mod_cast hle
  have hge' : j ≤ m + 1 := by exact_mod_cast hge
  omega

/-- A half that fits into the mantissa next to an integer is rounded down. -/
theorem add_half_exact (hx : (Number.float x).exactValue? = some (.rational m))
    (hm : -2 ^ 52 ≤ m ∧ m < 2 ^ 52) :
    (Number.float (x + 0.5)).exactValue? = some (.rational (m + 1 / 2)) := by
  have hsize : |(m : ℚ) + 1 / 2| = (2 * m + 1).natAbs * 2 ^ (-1 : Int) := by
    have hdouble : (m : ℚ) + 1 / 2 = (2 * m + 1 : Int) * 2 ^ (-1 : Int) := by
      push_cast
      ring
    rw [hdouble, abs_mul, abs_of_pos (by positivity : (0 : ℚ) < 2 ^ (-1 : Int)), ← natAbs_eq_abs]
  refine (isRounding_add hx exactValue?_half).exactValue?_of_fits hsize ?_ (by decide) (by decide)
  omega

/-- A half does not fit in next to an integer of 53 bits, and an even one is taken. -/
theorem add_half_tie (hx : (Number.float x).exactValue? = some (.rational m))
    (hm : m < -2 ^ 52 ∨ 2 ^ 52 ≤ m) (hm' : -2 ^ 53 ≤ m ∧ m < 2 ^ 53) :
    ∃ j : Int, (Number.float (x + 0.5)).exactValue? = some (.rational j) ∧
      j = if Odd m then m + 1 else m := by
  have hlow : (2 : ℚ) ^ 52 ≤ |(m : ℚ) + 1 / 2| := by
    rcases hm with hneg | hpos
    · have hneg' : (m : ℚ) + 1 ≤ -2 ^ 52 := by exact_mod_cast hneg
      rw [abs_of_neg (by linarith)]
      linarith
    · have hpos' : (2 : ℚ) ^ 52 ≤ m := by exact_mod_cast hpos
      rw [abs_of_pos (by linarith)]
      linarith
  have hhigh : |(m : ℚ) + 1 / 2| < 2 ^ 53 := by
    have hge : (-2 : ℚ) ^ 53 ≤ m := by exact_mod_cast hm'.1
    have hlt : (m : ℚ) + 1 ≤ 2 ^ 53 := by exact_mod_cast hm'.2
    exact abs_lt.mpr ⟨by linarith, by linarith⟩
  obtain ⟨j, hvalue, hhalf, heven⟩ := (isRounding_add hx exactValue?_half).exists_int hlow hhigh
  refine ⟨j, hvalue, ?_⟩
  rcases eq_or_eq_of_half hhalf with rfl | rfl
  · have hj : Even j := heven (by rw [sub_add_cancel_left, abs_neg, abs_of_pos one_half_pos])
    rw [if_neg (Int.not_odd_iff_even.mpr hj)]
  · have hj : Even (m + 1) := heven (by push_cast; rw [add_sub_add_left_eq_sub]; norm_num)
    rw [if_pos (Int.not_even_iff_odd.mp (Int.even_add_one.mp hj))]

/-- A half does not fit in next to larger doubles, which are even and farther apart than the
integers. -/
theorem add_half_large (hx : (Number.float x).exactValue? = some (.rational m))
    (hm : m < -2 ^ 53 ∨ 2 ^ 53 ≤ m) :
    (Number.float (x + 0.5)).exactValue? = some (.rational m) := by
  have hrounding := isRounding_add hx exactValue?_half
  have hwithin : |(m : ℚ) + 1 / 2| < bound := by
    have hbound : m.natAbs + 1 ≤ bound := by
      have hlt := abs_lt_bound hx
      rw [← natAbs_eq_abs] at hlt
      exact_mod_cast hlt
    calc |(m : ℚ) + 1 / 2| ≤ |(m : ℚ)| + |(1 / 2 : ℚ)| := abs_add_le _ _
      _ < m.natAbs + 1 := by
          rw [natAbs_eq_abs]
          norm_num
      _ ≤ bound := by exact_mod_cast hbound
  obtain ⟨v, hv, hclosest⟩ := hrounding.isNearest.within hwithin
  have hhalf : |v - (m + 1 / 2)| ≤ 1 / 2 := by
    refine (hclosest x m hx).trans ?_
    rw [sub_add_cancel_left, abs_neg, abs_of_pos one_half_pos]
  obtain ⟨j, rfl⟩ : ∃ j : Int, v = j := by
    refine (exists_int_or_lt hv).resolve_right fun hsmall => ?_
    obtain ⟨hlow, hhigh⟩ := abs_le.mp hhalf
    obtain ⟨hlow', hhigh'⟩ := abs_lt.mp hsmall
    rcases hm with hneg | hpos
    · have hneg' : (m : ℚ) + 1 ≤ -2 ^ 53 := by exact_mod_cast hneg
      linarith
    · have hpos' : (2 : ℚ) ^ 53 ≤ m := by exact_mod_cast hpos
      linarith
  rcases eq_or_eq_of_half hhalf with rfl | rfl
  · exact hv
  · have heven : Even m := by
      by_contra hodd
      exact not_isDouble_of_odd (Int.not_even_iff_odd.mp hodd) (by omega) ⟨x, hx⟩
    exact absurd ⟨_, hv⟩ (not_isDouble_of_odd heven.add_one (by omega))

/-- The integer that a half more than an integral double is rounded down to. -/
def floorOfHalfMore (m : Int) : Int :=
  if Odd m ∧ 2 ^ 52 < m.natAbs ∧ m.natAbs < 2 ^ 53 then m + 1 else m

theorem exists_floor_add_half (hx : (Number.float x).exactValue? = some (.rational m)) :
    ∃ v : ℚ, (Number.float (x + 0.5)).exactValue? = some (.rational v) ∧
      ⌊v⌋ = floorOfHalfMore m := by
  unfold floorOfHalfMore
  by_cases hsmall : -2 ^ 52 ≤ m ∧ m < 2 ^ 52
  · refine ⟨_, add_half_exact hx hsmall, ?_⟩
    rw [if_neg (by omega), Int.floor_eq_iff]
    constructor <;> linarith
  by_cases hmiddle : -2 ^ 53 ≤ m ∧ m < 2 ^ 53
  · obtain ⟨j, hj, hvalue⟩ := add_half_tie hx (by omega) hmiddle
    refine ⟨j, hj, ?_⟩
    rw [Int.floor_intCast, hvalue]
    refine if_congr (iff_self_and.mpr fun hodd => ?_) rfl rfl
    obtain ⟨k, rfl⟩ := hodd
    omega
  · refine ⟨m, add_half_large hx (by omega), ?_⟩
    rw [Int.floor_intCast, if_neg (by omega)]

end Binary64

namespace Builtin

open Number (IsDouble isDouble_of_lt not_isDouble_of_odd)

variable {n m : Int}

/-- What rounding to the nearest makes of an integer that is not beyond the doubles. -/
inductive RoundsInt (n : Int) : Int → Prop
  | same (hdouble : IsDouble n) (h : Even n ∨ n.natAbs < 2 ^ 52) : RoundsInt n n
  | next (hodd : Odd n) (h : 2 ^ 52 < n.natAbs ∧ n.natAbs < 2 ^ 53) : RoundsInt n (n + 1)
  | nearest {x : Float} {m : Int} (hdouble : ¬ IsDouble n) (hx : Binary64.IsRounding x n)
      (hm : (Number.float x).exactValue? = some (.rational m)) : RoundsInt n m

/-- Rounding keeps the doubles that are even or that a half can be added to. -/
theorem RoundsInt.eq_iff (h : RoundsInt n m) :
    m = n ↔ IsDouble n ∧ (Even n ∨ n.natAbs < 2 ^ 52) := by
  cases h with
  | same hdouble hstays => exact iff_of_true rfl ⟨hdouble, hstays⟩
  | next hodd hsize =>
    refine iff_of_false (by omega) fun ⟨_, hstays⟩ => ?_
    rcases hstays with heven | hsmall
    · exact Int.not_even_iff_odd.mpr hodd heven
    · omega
  | nearest hdouble hx hm =>
    refine iff_of_false ?_ fun hstays => hdouble hstays.1
    rintro rfl
    exact hdouble ⟨_, hm⟩

theorem integerPart_int (h : n.natAbs < Binary64.bound) (part : Binary64.Dyadic → Int) :
    integerPart part (.int n) = .ok (.int n) := by
  obtain ⟨x, hx⟩ := Binary64.exists_ofInt? h
  rw [integerPart, Number.toFloat, hx]
  rfl

theorem integerPart_huge (h : Binary64.bound ≤ n.natAbs) (part : Binary64.Dyadic → Int) :
    integerPart part (.int n) = .error .tooLarge := by
  rw [integerPart, Number.toFloat, Binary64.ofInt?_eq_none_iff.mpr h]
  rfl

theorem floor_float {x : Float} {v : ℚ}
    (h : (Number.float x).exactValue? = some (.rational v)) : floor (.float x) = .ok (.int ⌊v⌋) := by
  obtain ⟨negative, mantissa, exponent, hx, rfl⟩ := Number.exists_finite h
  rw [← Binary64.toRat_dyadic, ← Binary64.Dyadic.floor_eq]
  simp only [floor, integerPart, Number.toFloat, bind, Except.bind, hx]
  rfl

theorem round_huge (h : Binary64.bound ≤ n.natAbs) : round (.int n) = .error .tooLarge := by
  have hhuge := Number.toFloat_of_isHuge (Number.isHuge_int.mpr h)
  simp only [round, Number.add, Number.arithmetic, hhuge]
  rfl

/-- An integer that is no double becomes one that is at least as large as `2 ^ 53`. -/
theorem le_natAbs_of_isNearest {x : Float} (hn : ¬ IsDouble n) (hx : Binary64.IsNearest x n)
    (hm : (Number.float x).exactValue? = some (.rational m)) : 2 ^ 53 ≤ m.natAbs := by
  have hlarge : 2 ^ 53 ≤ n.natAbs := Nat.not_lt.mp (mt isDouble_of_lt hn)
  have hbound : |(n : ℚ)| < Binary64.bound := by
    refine lt_of_not_ge fun hbeyond => ?_
    rw [hx.beyond hbeyond] at hm
    cases hm
  obtain ⟨v, hv, hclosest⟩ := hx.within hbound
  obtain rfl : v = m := Number.Exact.rational.inj (Option.some.inj (hv.symm.trans hm))
  have hcloser (d : Int) (hd : d.natAbs = 2 ^ 53) : |m - n| ≤ |d - n| := by
    obtain ⟨y, hy⟩ : IsDouble d :=
      Number.isDouble_iff.mpr ⟨1, 53, by rw [hd]; norm_num, by decide, by decide, by decide⟩
    exact_mod_cast hclosest y d hy
  rcases Int.lt_or_le n 0 with hneg | hpos
  · have := hcloser (-2 ^ 53) rfl
    rw [abs_of_nonneg (a := -2 ^ 53 - n) (by omega)] at this
    have := (abs_le.mp this).2
    omega
  · have := hcloser (2 ^ 53) rfl
    rw [abs_of_nonpos (a := 2 ^ 53 - n) (by omega)] at this
    have := (abs_le.mp this).1
    omega

theorem roundsInt_floorOfHalfMore {x : Float} (hx : Binary64.ofInt? n = some x)
    (hm : (Number.float x).exactValue? = some (.rational m)) :
    RoundsInt n (Binary64.floorOfHalfMore m) := by
  have hrounding := Binary64.isRounding_of_ofInt? hx
  unfold Binary64.floorOfHalfMore
  by_cases hdouble : IsDouble n
  · have hvalue := hdouble.exactValue? hrounding.isNearest
    obtain rfl : n = m := by
      have := hvalue.symm.trans hm
      exact_mod_cast Number.Exact.rational.inj (Option.some.inj this)
    split_ifs with hnext
    · exact .next hnext.1 hnext.2
    · refine .same hdouble ?_
      by_contra hstays
      obtain ⟨hodd, hlarge⟩ := not_or.mp hstays
      have hodd' : Odd n := Int.not_even_iff_odd.mp hodd
      have hfits : n.natAbs < 2 ^ 53 :=
        Nat.lt_of_not_le fun hle => not_isDouble_of_odd hodd' hle hdouble
      refine hnext ⟨hodd', ?_, hfits⟩
      obtain ⟨k, rfl⟩ := hodd'
      omega
  · have hlarge := le_natAbs_of_isNearest hdouble hrounding.isNearest hm
    rw [if_neg (by omega)]
    exact .nearest hdouble hrounding hm

theorem exists_round_int (h : n.natAbs < Binary64.bound) :
    ∃ m, RoundsInt n m ∧ round (.int n) = .ok (.int m) := by
  obtain ⟨x, hx⟩ := Binary64.exists_ofInt? h
  obtain ⟨m, hm⟩ := Binary64.exists_whole_of_ofInt? hx
  obtain ⟨v, hv, hfloor⟩ := Binary64.exists_floor_add_half hm
  have hfloat : (Number.int n).toFloat = .ok x := by rw [Number.toFloat, hx]
  have hsum : Number.add (.int n) (.float 0.5) = .ok (.float (x + 0.5)) := by
    simp only [Number.add, Number.arithmetic, hfloat]
    rfl
  refine ⟨_, roundsInt_floorOfHalfMore hx hm, ?_⟩
  rw [round, hsum, ← hfloor]
  exact floor_float hv

/-- Beside an odd integer above `2 ^ 52` a half is lost upward, and above `2 ^ 53` the integer itself
is not kept. -/
example : round (.int 4503599627370497) = .ok (.int 4503599627370498) ∧
    round (.int 9007199254740993) = .ok (.int 9007199254740992) := by
  decide +kernel

end Builtin

namespace Library

open Builtin (RoundsInt)

section

variable {n : Int} {name : String} {f : Number → Except NumberFault Number} {stays : Number → Bool}
  {id : Identity}

theorem numericOfOne_int {result : Value}
    (h : Builtin.guarded (Builtin.ofOne name f) [.number id (.int n)] = .ok result) :
    (numericOfOne name stays f).apply [.number id (.int n)] =
      pure (if stays (.int n) && result.number? == some (.int n) then .number id (.int n)
        else result) := by
  simp only [numericOfOne, h]
  rfl

/-- A function that has no result for an integer yields not-a-number. -/
theorem numericOfOne_of_error (h : f (.int n) = .error .tooLarge) :
    (numericOfOne name stays f).apply [.number id (.int n)] = pure .notANumber := by
  have hguarded : Builtin.guarded (Builtin.ofOne name f) [.number id (.int n)] =
      .ok .notANumber := by
    simp only [Builtin.guarded, List.map, Value.toNumber, Builtin.ofOne, h]
    rfl
  have hother : (Value.notANumber.number? == some (.int n)) = false := rfl
  rw [numericOfOne_int hguarded, hother, Bool.and_false, if_neg Bool.false_ne_true]

theorem numericOfOne_of_ok {m : Int} (h : f (.int n) = .ok (.int m)) :
    (numericOfOne name stays f).apply [.number id (.int n)] =
      pure (if stays (.int n) && m == n then .number id (.int n) else .ofNumber (.int m)) := by
  have hguarded : Builtin.guarded (Builtin.ofOne name f) [.number id (.int n)] =
      .ok (.ofNumber (.int m)) := by
    simp only [Builtin.guarded, List.map, Value.toNumber, Builtin.ofOne, h]
    rfl
  have hsame : ((Value.ofNumber (.int m)).number? == some (.int n)) = (m == n) := by
    rw [Bool.eq_iff_iff, beq_iff_eq, beq_iff_eq]
    simp [Value.ofNumber, Value.number?]
  rw [numericOfOne_int hguarded, hsame]

end

/-- Rounding down, up and toward zero yields the integer itself. Rounding to the nearest does so if
the integer is a double and even or smaller than `2 ^ 52`; of the others it makes the next integer
or the nearest double. Beyond the doubles the result is not-a-number. -/
theorem rounding_of_int (id : Identity) (n : Int) :
    Binary64.bound ≤ n.natAbs ∧
        (∀ f ∈ [mathFloor, mathCeil, mathTrunc, mathRound],
          f.apply [.number id (.int n)] = pure .notANumber) ∨
      n.natAbs < Binary64.bound ∧
        (∀ f ∈ [mathFloor, mathCeil, mathTrunc],
          f.apply [.number id (.int n)] = pure (.number id (.int n))) ∧
        ∃ m, RoundsInt n m ∧
          (m = n ↔ Number.IsDouble n ∧ (Even n ∨ n.natAbs < 2 ^ 52)) ∧
          mathRound.apply [.number id (.int n)] = pure (.ofNumber (.int m)) := by
  simp only [List.mem_cons, List.not_mem_nil, or_false, forall_eq_or_imp, forall_eq]
  rcases Nat.lt_or_ge n.natAbs Binary64.bound with hwithin | hbeyond
  · have hstays (name : String) (part : Binary64.Dyadic → Int) :
        (numericOfOne name (fun _ => true) (Builtin.integerPart part)).apply
          [.number id (.int n)] = pure (.number id (.int n)) := by
      rw [numericOfOne_of_ok (Builtin.integerPart_int hwithin part), Bool.true_and,
        if_pos (beq_self_eq_true n)]
    obtain ⟨m, hm, hround⟩ := Builtin.exists_round_int hwithin
    exact .inr ⟨hwithin, ⟨hstays _ _, hstays _ _, hstays _ _⟩, m, hm, hm.eq_iff,
      numericOfOne_of_ok hround⟩
  · have hfails (part : Binary64.Dyadic → Int) :
        Builtin.integerPart part (.int n) = .error .tooLarge :=
      Builtin.integerPart_huge hbeyond part
    exact .inl ⟨hbeyond, numericOfOne_of_error (hfails _), numericOfOne_of_error (hfails _),
      numericOfOne_of_error (hfails _), numericOfOne_of_error (Builtin.round_huge hbeyond)⟩

end Library

end GatedExpr
