import Mathlib
import GatedExpr.Operator
import GatedExpr.Proofs.Number.Doubles

/-! # Results of arithmetic

An arithmetic operator of two numbers breaks off exactly when an integer beyond the doubles would
have to become one. Otherwise its result is the exact one: as an integer when both operands are,
and else as the double nearest to it, an infinity beyond the doubles and not-a-number where there is
no result.
-/

namespace GatedExpr

open Number (Exact IsHuge isHuge_int toFloat_of_isHuge toFloat_of_not_isHuge)
open Binary64 (IsNearest IsRounded bound)

namespace Number

/-- An integer beyond the doubles meets a double. -/
def MeetsHuge (a b : Number) : Prop :=
  IsHuge a ∧ b.isInt = false ∨ a.isInt = false ∧ IsHuge b

end Number

namespace BinaryOperator

def arithmetic : List BinaryOperator :=
  [.add, .subtract, .multiply, .divide, .remainder]

/-- The exact result of an arithmetic operator. -/
def ideal (operator : BinaryOperator) (a b : Number) : Option Exact :=
  match operator with
  | .add => Number.ideal Exact.add a b
  | .subtract => Number.ideal Exact.subtract a b
  | .multiply => Number.ideal Exact.multiply a b
  | .divide => Number.ideal (Exact.divide b.isNegative) a b
  | .remainder => Number.ideal Exact.remainder a b
  | _ => none

/-- Whether an arithmetic operator breaks off: an integer beyond the doubles would have to become
one. A quotient of integers always becomes a double, and a remainder without a result does not ask
for doubles. -/
def BreaksOff (operator : BinaryOperator) (a b : Number) : Prop :=
  match operator with
  | .divide =>
    a.MeetsHuge b ∨ ∃ m n, a = .int m ∧ b = .int n ∧ bound * max 1 n.natAbs ≤ m.natAbs
  | .remainder => a.MeetsHuge b ∧ b.isZero = false ∧ a.isInfinite = false
  | _ => a.MeetsHuge b

/-- What an arithmetic operator yields. -/
inductive IsResult (operator : BinaryOperator) (a b : Number) : Number → Prop where
  /-- Integers yield integers, except by division. -/
  | whole {m n k : Int} : operator ≠ .divide → a = .int m → b = .int n →
      operator.ideal a b = some (.rational k) → IsResult operator a b (.int k)
  /-- A quotient of integers, and what has no finite result, is taken from the operands as they
  are. -/
  | direct {x : Float} :
      operator = .divide ∧ (a.isInt = true ∧ b.isInt = true ∨ b.isZero = true) ∨
        operator = .remainder ∧ (b.isZero = true ∨ a.isInfinite = true) →
      IsRounded x (operator.ideal a b) → IsResult operator a b (.float x)
  /-- Otherwise the operands become doubles first. -/
  | converted {x y z : Float} : ¬ (a.isInt = true ∧ b.isInt = true) → a.toFloat = .ok x →
      b.toFloat = .ok y → IsRounded z (operator.ideal (.float x) (.float y)) →
      IsResult operator a b (.float z)

/-- What becomes of an arithmetic operator. -/
def Settles (operator : BinaryOperator) (a b : Number) (outcome : Except NumberFault Number) :
    Prop :=
  operator.BreaksOff a b ∧ outcome = .error .tooLarge ∨
    ¬ operator.BreaksOff a b ∧ ∃ r, outcome = .ok r ∧ operator.IsResult a b r

end BinaryOperator

namespace Number

variable {a b : Number}

theorem isInt_of_isHuge (h : IsHuge a) : a.isInt = true := by
  obtain ⟨n, rfl, -⟩ := h
  rfl

/-- Operands that are not both integers become doubles, unless one is an integer beyond them. -/
theorem toFloat_both (onFloats : Float → Float → Float) (h : ¬ (a.isInt = true ∧ b.isInt = true)) :
    a.MeetsHuge b ∧
        (do return .float (onFloats (← a.toFloat) (← b.toFloat)) : Except NumberFault Number) =
          .error .tooLarge ∨
      ¬ a.MeetsHuge b ∧ ∃ x y, a.toFloat = .ok x ∧ b.toFloat = .ok y ∧
        (do return .float (onFloats (← a.toFloat) (← b.toFloat)) : Except NumberFault Number) =
          .ok (.float (onFloats x y)) := by
  by_cases ha : IsHuge a
  · have hb : b.isInt = false := by
      simpa [isInt_of_isHuge ha] using h
    refine .inl ⟨.inl ⟨ha, hb⟩, ?_⟩
    rw [toFloat_of_isHuge ha]
    rfl
  · obtain ⟨x, hx⟩ := toFloat_of_not_isHuge ha
    by_cases hb : IsHuge b
    · have ha' : a.isInt = false := by
        simpa [isInt_of_isHuge hb] using h
      refine .inl ⟨.inr ⟨ha', hb⟩, ?_⟩
      rw [hx, toFloat_of_isHuge hb]
      rfl
    · obtain ⟨y, hy⟩ := toFloat_of_not_isHuge hb
      refine .inr ⟨fun hmeets => hmeets.elim (ha ·.1) (hb ·.2), x, y, hx, hy, ?_⟩
      rw [hx, hy]
      rfl

theorem not_meetsHuge_ints (m n : Int) : ¬ MeetsHuge (.int m) (.int n) := by
  simp [MeetsHuge, isInt]

/-- An operator of doubles breaks off where an operand cannot become one. -/
theorem settles_converted {operator : BinaryOperator} {onFloats : Float → Float → Float}
    (hboth : ¬ (a.isInt = true ∧ b.isInt = true))
    (hbreaks : operator.BreaksOff a b ↔ a.MeetsHuge b)
    (hfloats : ∀ x y, IsRounded (onFloats x y) (operator.ideal (.float x) (.float y))) :
    operator.Settles a b (do return .float (onFloats (← a.toFloat) (← b.toFloat))) := by
  rw [BinaryOperator.Settles, hbreaks]
  rcases toFloat_both onFloats hboth with herror | ⟨hmeets, x, y, hx, hy, hok⟩
  · exact .inl herror
  · exact .inr ⟨hmeets, _, hok, .converted hboth hx hy (hfloats x y)⟩

/-- Sums, differences and products. -/
theorem arithmetic_settles {operator : BinaryOperator} {onInts : Int → Int → Int}
    {onFloats : Float → Float → Float} (hdivide : operator ≠ .divide)
    (hbreaks : operator.BreaksOff a b ↔ a.MeetsHuge b)
    (hints : ∀ m n : Int, operator.ideal (.int m) (.int n) = some (.rational (onInts m n)))
    (hfloats : ∀ x y, IsRounded (onFloats x y) (operator.ideal (.float x) (.float y))) :
    operator.Settles a b (arithmetic onInts onFloats a b) := by
  by_cases hboth : a.isInt = true ∧ b.isInt = true
  · cases a <;> cases b <;> simp [isInt] at hboth
    case int.int m n =>
      exact .inr ⟨mt hbreaks.mp (not_meetsHuge_ints m n), _, rfl,
        .whole hdivide rfl rfl (hints m n)⟩
  · have hfloat : arithmetic onInts onFloats a b =
        (do return .float (onFloats (← a.toFloat) (← b.toFloat))) := by
      cases a <;> cases b <;> first | rfl | exact absurd ⟨rfl, rfl⟩ hboth
    rw [hfloat]
    exact settles_converted hboth hbreaks hfloats

theorem ideal_ints (operation : Exact → Exact → Option Exact) (m n : Int) :
    ideal operation (.int m) (.int n) = operation (.rational m) (.rational n) := by
  simp [ideal, exactValue?_int]

theorem add_settles : BinaryOperator.add.Settles a b (a.add b) :=
  arithmetic_settles (by decide) Iff.rfl
    (fun m n => by rw [BinaryOperator.ideal, ideal_ints, Exact.add, Int.cast_add])
    Binary64.isRounded_add

theorem subtract_settles : BinaryOperator.subtract.Settles a b (a.subtract b) :=
  arithmetic_settles (by decide) Iff.rfl
    (fun m n => by
      rw [BinaryOperator.ideal, ideal_ints, Exact.subtract, Exact.negate, Exact.add, Int.cast_sub,
        sub_eq_add_neg])
    Binary64.isRounded_sub

theorem multiply_settles : BinaryOperator.multiply.Settles a b (a.multiply b) :=
  arithmetic_settles (by decide) Iff.rfl
    (fun m n => by rw [BinaryOperator.ideal, ideal_ints, Exact.multiply, Int.cast_mul])
    Binary64.isRounded_mul

/-! ## Division -/

theorem isZero_int {n : Int} : (int n).isZero = true ↔ n = 0 := by
  simp [isZero_iff, exactValue?_int]

theorem exactValue?_infinity (negative : Bool) :
    (infinity negative).exactValue? = some (.infinite negative) := by
  cases negative
  · exact exactValue?_infinite (by decide +kernel)
  · exact exactValue?_infinite (by decide +kernel)

theorem isNegative_of_exactValue? {p : Exact} (h : a.exactValue? = some p) (hp : p ≠ .rational 0) :
    a.isNegative = p.isNegative := by
  cases a with
  | int n =>
    rw [exactValue?_int] at h
    cases h
    simp [isNegative, Exact.isNegative]
  | float x =>
    cases hx : Binary64.ofFloat x with
    | nan => simp [exactValue?_nan hx] at h
    | infinite negative =>
      rw [exactValue?_infinite hx] at h
      cases h
      simp [isNegative, Binary64.isNegative, hx, Exact.isNegative]
    | finite negative mantissa exponent =>
      rw [exactValue?_finite hx] at h
      cases h
      have hpos : 0 < mantissa := by
        by_contra hzero
        obtain rfl : mantissa = 0 := by omega
        exact hp (by rw [Binary64.rational_zero])
      rw [isNegative, Binary64.isNegative, hx, Exact.isNegative, Binary64.rational,
        Binary64.withSign_lt_zero negative (by positivity)]

/-- Only the dividend has to become a double when it is divided by zero. -/
theorem breaksOff_divide_zero (h : b.isZero = true) :
    BinaryOperator.divide.BreaksOff a b ↔ IsHuge a := by
  constructor
  · rintro ((⟨ha, -⟩ | ⟨-, hb⟩) | ⟨m, n, rfl, rfl, hbound⟩)
    · exact ha
    · exact absurd hb (not_isHuge_of_isZero h)
    · exact isHuge_int.mpr (Nat.le_trans (Nat.le_mul_of_pos_right _ (by omega)) hbound)
  · rintro ⟨m, rfl, hm⟩
    cases b with
    | float y => exact .inl (.inl ⟨isHuge_int.mpr hm, rfl⟩)
    | int n =>
      obtain rfl : n = 0 := isZero_int.mp h
      exact .inr ⟨m, 0, rfl, rfl, by simpa using hm⟩

/-- Anything else than zero divided by zero is infinite. -/
theorem ideal_divide_zero {p : Exact} (ha : a.exactValue? = some p) (hp : p ≠ .rational 0)
    (hb : b.exactValue? = some (.rational 0)) :
    BinaryOperator.divide.ideal a b = some (.infinite (p.isNegative != b.isNegative)) := by
  cases p with
  | infinite s => simp [BinaryOperator.ideal, ideal, ha, hb, Exact.divide, Exact.isNegative]
  | rational q =>
    have hq : q ≠ 0 := fun hzero => hp (hzero ▸ rfl)
    simp [BinaryOperator.ideal, ideal, ha, hb, Exact.divide, Exact.isNegative, hq]

theorem divide_zero_settles (h : b.isZero = true) :
    BinaryOperator.divide.Settles a b (a.divide b) := by
  have hb := isZero_iff.mp h
  have hdirect {x : Float} (hx : IsRounded x (BinaryOperator.divide.ideal a b)) :
      BinaryOperator.divide.IsResult a b (.float x) :=
    .direct (.inl ⟨rfl, .inr h⟩) hx
  unfold divide
  rw [if_pos h, BinaryOperator.Settles, breaksOff_divide_zero h]
  split_ifs with ha
  · have hideal : BinaryOperator.divide.ideal a b = none := by
      simp [BinaryOperator.ideal, ideal, isZero_iff.mp ha, hb, Exact.divide]
    exact .inr ⟨not_isHuge_of_isZero ha, _, rfl, hdirect (hideal ▸ exactValue?_notANumber)⟩
  · by_cases hhuge : IsHuge a
    · exact .inl ⟨hhuge, by rw [toFloat_of_isHuge hhuge]; rfl⟩
    · obtain ⟨x, hx⟩ := toFloat_of_not_isHuge hhuge
      refine .inr ⟨hhuge, ?_⟩
      rw [hx]
      cases hexact : a.exactValue? with
      | none =>
        have hideal : BinaryOperator.divide.ideal a b = none := by
          simp only [BinaryOperator.ideal, ideal, hexact]
          rfl
        exact ⟨_, if_pos ((isNaN_iff_of_toFloat hx).mpr hexact),
          hdirect (hideal ▸ exactValue?_notANumber)⟩
      | some p =>
        have hnumber : ¬ Binary64.isNaN x = true := fun hnan => by
          rw [(isNaN_iff_of_toFloat hx).mp hnan] at hexact
          cases hexact
        have hp : p ≠ .rational 0 := fun hzero => ha (isZero_iff.mpr (hzero ▸ hexact))
        refine ⟨_, if_neg hnumber, hdirect ?_⟩
        rw [isNegative_of_exactValue? hexact hp, ideal_divide_zero hexact hp hb]
        exact exactValue?_infinity _

theorem divide_ints_settles (m : Int) {n : Int} (hn : n ≠ 0) :
    BinaryOperator.divide.Settles (.int m) (.int n) (divide (.int m) (.int n)) := by
  have hpos : 0 < n.natAbs := Int.natAbs_pos.mpr hn
  have hzero : ¬ (int n).isZero = true := mt isZero_int.mp hn
  have hbreaks : BinaryOperator.divide.BreaksOff (.int m) (.int n) ↔
      Binary64.nearest? (decide (m < 0) != decide (n < 0)) m.natAbs n.natAbs = none := by
    have hmax : max 1 n.natAbs = n.natAbs := by omega
    rw [Binary64.nearest?_eq_none_iff _ hpos, le_div_iff₀ (by exact_mod_cast hpos), ← Nat.cast_mul,
      Nat.cast_le]
    simp [BinaryOperator.BreaksOff, not_meetsHuge_ints, hmax]
  unfold divide
  rw [if_neg hzero, BinaryOperator.Settles, hbreaks]
  simp only
  cases hresult : Binary64.nearest? (decide (m < 0) != decide (n < 0)) m.natAbs n.natAbs with
  | none => exact .inl ⟨rfl, rfl⟩
  | some x =>
    have hnearest := Binary64.isNearest_of_nearest? hpos hresult
    have hideal : BinaryOperator.divide.ideal (.int m) (.int n) = some (.rational (m / n)) := by
      simp [BinaryOperator.ideal, ideal_ints, Exact.divide, hn]
    rw [← Binary64.withSign_div, Binary64.withSign_natAbs, Binary64.withSign_natAbs] at hnearest
    refine .inr ⟨Option.some_ne_none x, _, rfl, .direct (.inl ⟨rfl, .inl ⟨rfl, rfl⟩⟩) ?_⟩
    rw [hideal]
    exact hnearest

theorem divide_settles : BinaryOperator.divide.Settles a b (a.divide b) := by
  cases hzero : b.isZero with
  | true => exact divide_zero_settles hzero
  | false =>
    by_cases hboth : a.isInt = true ∧ b.isInt = true
    · cases a <;> cases b <;> simp [isInt] at hboth
      case int.int m n =>
        have hn : n ≠ 0 := mt isZero_int.mpr (by simp [hzero])
        exact divide_ints_settles m hn
    · have hbreaks : BinaryOperator.divide.BreaksOff a b ↔ a.MeetsHuge b := by
        refine or_iff_left ?_
        rintro ⟨m, n, rfl, rfl, -⟩
        exact hboth ⟨rfl, rfl⟩
      have hfloat : a.divide b = (do return .float ((← a.toFloat) / (← b.toFloat))) := by
        unfold divide
        rw [if_neg (by simp [hzero])]
        cases a <;> cases b <;> first | rfl | exact absurd ⟨rfl, rfl⟩ hboth
      rw [hfloat]
      exact settles_converted hboth hbreaks Binary64.isRounded_div

/-! ## Remainders -/

theorem natCast_tmod (k : Nat) (n : Int) : (k : Int).tmod n = (k % n.natAbs : Nat) := by
  obtain ⟨d, rfl | rfl⟩ := n.eq_nat_or_neg
  · rfl
  · rw [Int.tmod_neg, Int.natAbs_neg]
    rfl

theorem cast_tmod (m n : Int) :
    ((m.tmod n : Int) : ℚ) = Binary64.withSign (decide (m < 0)) (m.natAbs % n.natAbs : Nat) := by
  obtain ⟨k, rfl | rfl⟩ := m.eq_nat_or_neg
  · rw [natCast_tmod, Int.natAbs_natCast, decide_eq_false (by omega)]
    rfl
  · rw [Int.neg_tmod, natCast_tmod, Int.natAbs_neg, Int.natAbs_natCast]
    rcases Nat.eq_zero_or_pos k with rfl | hk
    · simp
    · rw [decide_eq_true (by omega)]
      simp only [Binary64.withSign, if_true, Int.cast_neg, Int.cast_natCast]

/-- The remainder of integers is an integer. -/
theorem exactRemainder_ints (m : Int) {n : Int} (hn : n ≠ 0) :
    Exact.remainder (.rational m) (.rational n) = some (.rational (m.tmod n : Int)) := by
  have hvalue (k : Int) : (k : ℚ) = Binary64.rational (decide (k < 0)) k.natAbs 0 := by
    rw [Binary64.rational, zpow_zero, mul_one, Binary64.withSign_natAbs]
  rw [hvalue m, hvalue n, Binary64.exactRemainder_eq _ _ (Int.natAbs_pos.mpr hn), cast_tmod,
    Binary64.rational, zpow_zero, mul_one]

theorem ideal_remainder_eq_none (h : b.isZero = true ∨ a.isInfinite = true) :
    BinaryOperator.remainder.ideal a b = none := by
  rcases h with hzero | hinfinite
  · simp only [BinaryOperator.ideal, ideal, isZero_iff.mp hzero]
    rcases a.exactValue? with _ | ⟨s | q⟩ <;> simp [Exact.remainder]
  · obtain ⟨s, hs⟩ := isInfinite_iff.mp hinfinite
    simp only [BinaryOperator.ideal, ideal, hs]
    cases b.exactValue? <;> rfl

theorem remainder_settles : BinaryOperator.remainder.Settles a b (a.remainder b) := by
  by_cases hnone : b.isZero = true ∨ a.isInfinite = true
  · have hideal := ideal_remainder_eq_none hnone
    have hresult : a.remainder b = .ok nan := by
      unfold remainder
      rw [if_pos (by simpa using hnone)]
      rfl
    have hpass : ¬ BinaryOperator.remainder.BreaksOff a b := by
      rintro ⟨-, hzero, hinfinite⟩
      simp [hzero, hinfinite] at hnone
    exact .inr ⟨hpass, _, hresult, .direct (.inr ⟨rfl, hnone⟩) (hideal ▸ exactValue?_notANumber)⟩
  · have hzero : b.isZero = false := by simpa using fun h => hnone (.inl h)
    have hinfinite : a.isInfinite = false := by simpa using fun h => hnone (.inr h)
    have hpass : ¬ (b.isZero || a.isInfinite) = true := by simp [hzero, hinfinite]
    have hbreaks : BinaryOperator.remainder.BreaksOff a b ↔ a.MeetsHuge b :=
      and_iff_left ⟨hzero, hinfinite⟩
    by_cases hboth : a.isInt = true ∧ b.isInt = true
    · cases a <;> cases b <;> simp [isInt] at hboth
      case int.int m n =>
        have hn : n ≠ 0 := mt isZero_int.mpr (by simp [hzero])
        refine .inr ⟨mt hbreaks.mp (not_meetsHuge_ints m n), _, if_neg hpass,
          .whole (by decide) rfl rfl ?_⟩
        rw [BinaryOperator.ideal, ideal_ints, exactRemainder_ints m hn]
    · have hfloat : a.remainder b =
          (do return .float (Binary64.remainder (← a.toFloat) (← b.toFloat))) := by
        unfold remainder
        rw [if_neg hpass]
        cases a <;> cases b <;> first | rfl | exact absurd ⟨rfl, rfl⟩ hboth
      rw [hfloat]
      exact settles_converted hboth hbreaks Binary64.isRounded_remainder

end Number

/-! ## Operators of values -/

namespace Value

theorem ofResult_eq (n : Number) : ∃ identity, ofResult n = .number identity n := by
  rw [ofResult]
  split_ifs with hnan
  · cases n with
    | int n => cases hnan
    | float x =>
      rw [Binary64.eq_notANumber hnan]
      exact ⟨_, rfl⟩
  · exact ⟨_, rfl⟩

end Value

namespace BinaryOperator

variable {operator : BinaryOperator} {i j : Identity} {a b : Number}

/-- Only the identity of the result is new in what an operator makes of a result of numbers. -/
theorem Settles.lift {wrap : Number → Value} {outcome : Except NumberFault Number}
    (h : operator.Settles a b outcome) (hwrap : ∀ r, ∃ identity, wrap r = .number identity r)
    (happly : operator.apply (.number i a) (.number j b) = wrap <$> outcome) :
    operator.BreaksOff a b ∧ operator.apply (.number i a) (.number j b) = .error .tooLarge ∨
      ¬ operator.BreaksOff a b ∧ ∃ identity r,
        operator.apply (.number i a) (.number j b) = .ok (.number identity r) ∧
          operator.IsResult a b r := by
  rw [happly]
  rcases h with ⟨hbreaks, herror⟩ | ⟨hbreaks, r, hok, hresult⟩
  · exact .inl ⟨hbreaks, by rw [herror]; rfl⟩
  · obtain ⟨identity, hidentity⟩ := hwrap r
    exact .inr ⟨hbreaks, identity, r, by rw [hok, ← hidentity]; rfl, hresult⟩

/-- An arithmetic operator of two numbers yields the exact result rounded, unless an integer beyond
the doubles would have to become one. -/
theorem apply_arithmetic (h : operator ∈ arithmetic) (i j : Identity) (a b : Number) :
    operator.BreaksOff a b ∧
        operator.apply (.number i a) (.number j b) = .error .tooLarge ∨
      ¬ operator.BreaksOff a b ∧ ∃ identity r,
        operator.apply (.number i a) (.number j b) = .ok (.number identity r) ∧
          operator.IsResult a b r := by
  have hnew (r : Number) : ∃ identity, Value.ofNumber r = .number identity r := ⟨_, rfl⟩
  have heither (condition : Bool) (r : Number) : ∃ identity,
      (if condition then Value.ofResult else Value.ofNumber) r = .number identity r := by
    cases condition
    · exact hnew r
    · exact Value.ofResult_eq r
  simp only [arithmetic, List.mem_cons, List.not_mem_nil, or_false] at h
  rcases h with rfl | rfl | rfl | rfl | rfl
  · exact Number.add_settles.lift hnew rfl
  · exact Number.subtract_settles.lift hnew rfl
  · exact Number.multiply_settles.lift hnew rfl
  · exact Number.divide_settles.lift (heither _) rfl
  · exact Number.remainder_settles.lift (heither _) rfl

/-- The product of an integer that no double holds and a double. -/
theorem multiply_tooLarge :
    multiply.apply (.number 1 (.int (10 ^ 400))) (.number 2 (.float 1.5)) = .error .tooLarge := by
  have hbreaks : multiply.BreaksOff (.int (10 ^ 400)) (.float 1.5) :=
    .inl ⟨isHuge_int.mpr (by decide +kernel), rfl⟩
  exact (apply_arithmetic (by decide) 1 2 _ _).elim And.right fun h => absurd hbreaks h.1

end BinaryOperator

end GatedExpr
