import Mathlib
import GatedExpr.Proofs.Number.Rounding

/-! # Arithmetic of doubles

Sums, differences, products, quotients and remainders of doubles are the doubles nearest to the
exact results. Where there is no exact result they are not-a-number, and beyond the largest double
they are the infinity of the sign of the exact result.
-/

namespace GatedExpr

/-! ## Exact operations -/

namespace Number

namespace Exact

def isNegative : Exact → Bool
  | .infinite negative => negative
  | .rational q => q < 0

def negate : Exact → Exact
  | .infinite negative => .infinite !negative
  | .rational q => .rational (-q)

def add : Exact → Exact → Option Exact
  | .rational p, .rational q => some (.rational (p + q))
  | .infinite s, .rational _ | .rational _, .infinite s => some (.infinite s)
  | .infinite s, .infinite t => if s = t then some (.infinite s) else none

def subtract (p q : Exact) : Option Exact :=
  p.add q.negate

def multiply : Exact → Exact → Option Exact
  | .rational p, .rational q => some (.rational (p * q))
  | p, q =>
    if p = .rational 0 ∨ q = .rational 0 then none
    else some (.infinite (p.isNegative != q.isNegative))

/-- Whether the zero of the divisor is the negative one tells the sign of an infinite quotient. -/
def divide (negativeZero : Bool) : Exact → Exact → Option Exact
  | .rational p, .rational q =>
    if q ≠ 0 then some (.rational (p / q))
    else if p ≠ 0 then some (.infinite (decide (p < 0) != negativeZero))
    else none
  | .infinite s, .rational q =>
    some (.infinite (s != if q = 0 then negativeZero else decide (q < 0)))
  | .rational _, .infinite _ => some (.rational 0)
  | .infinite _, .infinite _ => none

/-- What is left of a dividend when the quotient is rounded toward zero. -/
def remainder : Exact → Exact → Option Exact
  | .rational p, .rational q =>
    if q = 0 then none
    else some (.rational (p - q * if 0 ≤ p / q then ⌊p / q⌋ else ⌈p / q⌉))
  | .rational p, .infinite _ => some (.rational p)
  | .infinite _, _ => none

end Exact

/-- The exact result of an operation. There is none when an operand is not-a-number. -/
def ideal (operation : Exact → Exact → Option Exact) (a b : Number) : Option Exact := do
  operation (← a.exactValue?) (← b.exactValue?)

end Number

namespace Binary64

open Float.Model (UnpackedFloat totalExponent)
open Float.Model.UnpackedFloat
open Float.Model.Format (binary64 targetExponent)
open Number (Exact ideal)

/-- A double for an exact result, and not-a-number when there is none. -/
def IsRounded (x : Float) : Option Exact → Prop
  | some (.rational q) => IsNearest x q
  | some (.infinite negative) => (Number.float x).exactValue? = some (.infinite negative)
  | none => (Number.float x).exactValue? = none

theorem isRounded_of_exactValue? {x : Float} {p : Option Exact}
    (h : (Number.float x).exactValue? = p) :
    IsRounded x p := by
  match p with
  | some (.rational q) => exact isNearest_of_exactValue? h
  | some (.infinite negative) => exact h
  | none => exact h

theorem isRounded_pack {a : UnpackedFloat} {p : Option Exact} (h : IsPacked a)
    (hp : exactUnpacked a = p) : IsRounded (.ofModel (.pack a)) p :=
  isRounded_of_exactValue? (hp ▸ exactValue?_pack h)

/-! ## Sums and differences -/

theorem shiftLeft_mul_zpow (mantissa : Nat) (exponent : Int) (k : Nat) :
    ((mantissa <<< k : Nat) : ℚ) * 2 ^ (exponent - k) = mantissa * 2 ^ exponent := by
  rw [zpow_sub₀ two_ne_zero, zpow_natCast, Nat.shiftLeft_eq]
  push_cast
  field_simp

theorem isRounding_round (sign : Sign) {mantissa : Nat} (hpos : 0 < mantissa) (exponent : Int) :
    IsRounding (.ofModel (.pack (UnpackedFloat.round binary64 sign mantissa exponent)))
      (withSign (isNegativeSign sign) (mantissa * 2 ^ exponent)) := by
  simp only [UnpackedFloat.round, targetExponent_eq, decreaseExponent]
  obtain ⟨k, hk⟩ : ∃ k, (exponent - max ((mantissa.log2 : Int) + exponent - 52) minExponent).toNat =
    k := ⟨_, rfl⟩
  rw [hk, ← shiftLeft_mul_zpow mantissa exponent k]
  refine isRounding_roundWithAccuracy sign (represents_exact _) ?_
  rcases Nat.lt_or_ge (mantissa.log2 + k) 52 with hfew | hmany
  · exact .inr (by omega)
  · refine .inl ?_
    rw [Nat.shiftLeft_eq]
    calc 2 ^ 52 ≤ 2 ^ (mantissa.log2 + k) := Nat.pow_le_pow_right Nat.two_pos hmany
      _ = 2 ^ mantissa.log2 * 2 ^ k := Nat.pow_add ..
      _ ≤ mantissa * 2 ^ k := Nat.mul_le_mul_right _ (Nat.log2_self_le hpos.ne')

theorem isRounding_normalize (mantissa exponent : Int) (sign : Sign) :
    IsRounding (.ofModel (.pack (UnpackedFloat.normalize binary64 mantissa exponent sign)))
      (mantissa * 2 ^ exponent) := by
  rw [UnpackedFloat.normalize]
  rcases lt_trichotomy mantissa 0 with hneg | rfl | hpos
  · have habs : ((-mantissa).toNat : ℚ) = -mantissa := by
      have : ((-mantissa).toNat : Int) = -mantissa := by omega
      exact_mod_cast this
    have hround := isRounding_round .negative (show 0 < (-mantissa).toNat by omega) exponent
    rw [habs] at hround
    rw [compare_lt_iff_lt.mpr hneg]
    have hvalue : withSign true (-(mantissa : ℚ) * 2 ^ exponent) = mantissa * 2 ^ exponent := by
      rw [withSign, if_pos rfl, neg_mul, neg_neg]
    exact hvalue ▸ hround
  · rw [compare_eq_iff_eq.mpr rfl, Int.cast_zero, zero_mul]
    exact isRounding_of_exactValue? (exactValue?_pack (a := .zero sign) trivial)
  · have habs : (mantissa.toNat : ℚ) = mantissa := by
      have : (mantissa.toNat : Int) = mantissa := by omega
      exact_mod_cast this
    have hround := isRounding_round .positive (show 0 < mantissa.toNat by omega) exponent
    rw [habs] at hround
    rw [compare_gt_iff_gt.mpr hpos]
    exact hround

theorem apply_decreaseExponent (sign : Sign) {mantissa : Nat} {exponent least : Int}
    (h : least ≤ exponent) :
    ((sign.apply ((decreaseExponent mantissa exponent least).1 : Nat) : Int) : ℚ) * 2 ^ least =
      withSign (isNegativeSign sign) (mantissa * 2 ^ exponent) := by
  have hleast : exponent - (exponent - least).toNat = least := by omega
  rw [← shiftLeft_mul_zpow mantissa exponent (exponent - least).toNat, hleast, decreaseExponent]
  generalize mantissa <<< (exponent - least).toNat = shifted
  cases sign <;> simp [Sign.apply, withSign, isNegativeSign]

theorem isRounding_add_unpacked {a b : UnpackedFloat} (ha : IsPacked a) (hb : IsPacked b) {p q : ℚ}
    (hp : exactUnpacked a = some (.rational p)) (hq : exactUnpacked b = some (.rational q)) :
    IsRounding (.ofModel (.pack (a.add binary64 b))) (p + q) := by
  cases a with
  | notANumber => cases hp
  | infinity s => cases hp
  | zero s =>
    obtain rfl : 0 = p := by simpa [exactUnpacked] using hp
    rw [zero_add]
    cases b with
    | notANumber => cases hq
    | infinity t => cases hq
    | zero t =>
      refine isRounding_of_exactValue? ?_
      rw [← hq]
      cases s <;> cases t <;> exact exactValue?_pack (a := .zero _) trivial
    | finite t n f hn => exact isRounding_of_exactValue? ((exactValue?_pack hb).trans hq)
  | finite s m e hm =>
    cases b with
    | notANumber => cases hq
    | infinity t => cases hq
    | zero t =>
      obtain rfl : 0 = q := by simpa [exactUnpacked] using hq
      rw [add_zero]
      exact isRounding_of_exactValue? ((exactValue?_pack ha).trans hp)
    | finite t n f hn =>
      cases hp
      cases hq
      have hsum := isRounding_normalize (s.apply (decreaseExponent m e (min e f)).1 +
        t.apply (decreaseExponent n f (min e f)).1) (min e f) .positive
      rw [Int.cast_add, add_mul, apply_decreaseExponent s (min_le_left e f),
        apply_decreaseExponent t (min_le_right e f)] at hsum
      exact hsum

/-- The sum of finite doubles is the exact sum with its mantissa rounded. -/
theorem isRounding_add {x y : Float} {p q : ℚ}
    (hp : (Number.float x).exactValue? = some (.rational p))
    (hq : (Number.float y).exactValue? = some (.rational q)) : IsRounding (x + y) (p + q) := by
  rw [exactValue?_float] at hp hq
  exact isRounding_add_unpacked (isPacked_unpack x) (isPacked_unpack y) hp hq

theorem isRounded_add_unpacked {a b : UnpackedFloat} (ha : IsPacked a) (hb : IsPacked b) :
    IsRounded (.ofModel (.pack (a.add binary64 b)))
      (do (← exactUnpacked a).add (← exactUnpacked b)) := by
  cases a with
  | notANumber => exact isRounded_pack (a := .notANumber) trivial rfl
  | infinity s =>
    cases b with
    | notANumber => exact isRounded_pack (a := .notANumber) trivial rfl
    | infinity t =>
      cases s <;> cases t
      case negative.negative => exact isRounded_pack (a := .infinity .negative) trivial rfl
      case positive.positive => exact isRounded_pack (a := .infinity .positive) trivial rfl
      all_goals exact isRounded_pack (a := .notANumber) trivial rfl
    | zero | finite => exact isRounded_pack (a := .infinity s) trivial rfl
  | zero | finite =>
    cases b with
    | notANumber => exact isRounded_pack (a := .notANumber) trivial rfl
    | infinity t => exact isRounded_pack (a := .infinity t) trivial rfl
    | zero | finite => exact (isRounding_add_unpacked ha hb rfl rfl).isNearest

/-- The sum of doubles is nearest to the exact sum. -/
theorem isRounded_add (x y : Float) :
    IsRounded (x + y) (ideal Exact.add (.float x) (.float y)) := by
  rw [ideal, exactValue?_float, exactValue?_float]
  exact isRounded_add_unpacked (isPacked_unpack x) (isPacked_unpack y)

theorem isNegativeSign_neg (s : Sign) : isNegativeSign (-s) = !isNegativeSign s := by
  cases s <;> rfl

theorem exactUnpacked_neg (a : UnpackedFloat) :
    exactUnpacked a.neg = (exactUnpacked a).map (·.negate) := by
  cases a with
  | notANumber => rfl
  | infinity s => simp [exactUnpacked, UnpackedFloat.neg, Exact.negate, isNegativeSign_neg]
  | zero s => simp [exactUnpacked, UnpackedFloat.neg, Exact.negate]
  | finite s m e hm =>
    simp [exactUnpacked, UnpackedFloat.neg, Exact.negate, isNegativeSign_neg, withSign_not]

theorem sub_eq_add_neg_unpacked (a b : UnpackedFloat) :
    a.sub binary64 b = a.add binary64 b.neg := by
  cases a <;> cases b <;> try rfl
  case finite.finite s m e hm t n f hn =>
    have hsign (k : Int) : s.apply (decreaseExponent m e (min e f)).1 - t.apply k =
        s.apply (decreaseExponent m e (min e f)).1 + (-t).apply k := by
      cases t
      · exact Int.sub_neg _ k
      · rfl
    exact congrArg (UnpackedFloat.normalize binary64 · (min e f) .positive) (hsign _)

/-- The difference of doubles is nearest to the exact difference. -/
theorem isRounded_sub (x y : Float) :
    IsRounded (x - y) (ideal Exact.subtract (.float x) (.float y)) := by
  have hnegate (p q : Option Exact) :
      (do (← p).subtract (← q)) = (do (← p).add (← q.map (·.negate))) := by
    cases q <;> rfl
  have hsum := isRounded_add_unpacked (isPacked_unpack x) (isPacked_neg (isPacked_unpack y))
  rw [← sub_eq_add_neg_unpacked, exactUnpacked_neg] at hsum
  rw [ideal, exactValue?_float, exactValue?_float, hnegate]
  exact hsum

/-! ## Products and quotients -/

theorem isNegativeSign_mul (s t : Sign) :
    isNegativeSign (s * t) = (isNegativeSign s != isNegativeSign t) := by
  cases s <;> cases t <;> rfl

/-- The product of the mantissas has all bits of a mantissa, unless both are below the others. -/
theorem isNearest_mulCore (s t : Sign) {m n : Nat} {e f : Int} (hm : 0 < m) (hn : 0 < n)
    (ha : Fits m e) (hb : Fits n f) :
    IsNearest (.ofModel (.pack (roundWithAccuracy binary64 (s * t) (m * n) (e + f) .exact)))
      (withSign (isNegativeSign s) (m * 2 ^ e) * withSign (isNegativeSign t) (n * 2 ^ f)) := by
  have hbits : 2 ^ 52 ≤ m * n ∨ e + f ≤ minExponent := by
    have hmin : minExponent = -1074 := rfl
    rcases ha.full with hfull | hleast
    · exact .inl (Nat.le_trans hfull (Nat.le_mul_of_pos_right m hn))
    rcases hb.full with hfull | hleast'
    · exact .inl (Nat.le_trans hfull (Nat.le_mul_of_pos_left n hm))
    · exact .inr (by omega)
  have hproduct := (isRounding_roundWithAccuracy (s * t) (represents_exact (m * n)) hbits).isNearest
  have hvalue : ((m * n : Nat) * 2 ^ (e + f) : ℚ) = m * 2 ^ e * (n * 2 ^ f) := by
    rw [zpow_add₀ two_ne_zero]
    push_cast
    ring
  rwa [hvalue, isNegativeSign_mul, ← withSign_mul] at hproduct

theorem isRounded_mul_unpacked {a b : UnpackedFloat} (ha : IsPacked a) (hb : IsPacked b) :
    IsRounded (.ofModel (.pack (a.mul binary64 b)))
      (do (← exactUnpacked a).multiply (← exactUnpacked b)) := by
  cases a with
  | notANumber => exact isRounded_pack (a := .notANumber) trivial rfl
  | infinity s =>
    cases b with
    | notANumber => exact isRounded_pack (a := .notANumber) trivial rfl
    | infinity t =>
      refine isRounded_pack (a := .infinity (s * t)) trivial ?_
      simp [exactUnpacked, Exact.multiply, Exact.isNegative, isNegativeSign_mul]
    | zero t =>
      refine isRounded_pack (a := .notANumber) trivial ?_
      simp [exactUnpacked, Exact.multiply]
    | finite t n f hn =>
      have hpos : (0 : ℚ) < n * 2 ^ f := by positivity
      refine isRounded_pack (a := .infinity (s * t)) trivial ?_
      simp [exactUnpacked, Exact.multiply, Exact.isNegative, isNegativeSign_mul,
        withSign_ne_zero hpos, withSign_lt_zero _ hpos]
  | zero s =>
    cases b with
    | notANumber => exact isRounded_pack (a := .notANumber) trivial rfl
    | infinity t =>
      refine isRounded_pack (a := .notANumber) trivial ?_
      simp [exactUnpacked, Exact.multiply]
    | zero t | finite t =>
      refine isRounded_pack (a := .zero (s * t)) trivial ?_
      simp [exactUnpacked, Exact.multiply]
  | finite s m e hm =>
    have hpos : (0 : ℚ) < m * 2 ^ e := by positivity
    cases b with
    | notANumber => exact isRounded_pack (a := .notANumber) trivial rfl
    | infinity t =>
      refine isRounded_pack (a := .infinity (s * t)) trivial ?_
      simp [exactUnpacked, Exact.multiply, Exact.isNegative, isNegativeSign_mul,
        withSign_ne_zero hpos, withSign_lt_zero _ hpos]
    | zero t =>
      refine isRounded_pack (a := .zero (s * t)) trivial ?_
      simp [exactUnpacked, Exact.multiply]
    | finite t n f hn => exact isNearest_mulCore s t hm hn ha hb

/-- The product of doubles is nearest to the exact product. -/
theorem isRounded_mul (x y : Float) :
    IsRounded (x * y) (ideal Exact.multiply (.float x) (.float y)) := by
  rw [ideal, exactValue?_float, exactValue?_float]
  exact isRounded_mul_unpacked (isPacked_unpack x) (isPacked_unpack y)

theorem isNegativeSign_div (s t : Sign) :
    isNegativeSign (s / t) = (isNegativeSign s != isNegativeSign t) := by
  cases s <;> cases t <;> rfl

/-- The quotient is taken far enough to have all bits of a mantissa. -/
theorem isNearest_divCore (sign : Sign) {m n : Nat} (e f : Int) (hm : 0 < m) (hn : 0 < n) :
    IsNearest (.ofModel (.pack (roundWithAccuracy binary64 sign (divCore binary64 m e n f).1
        (divCore binary64 m e n f).2.1 (divCore binary64 m e n f).2.2)))
      (withSign (isNegativeSign sign) (m * 2 ^ e / (n * 2 ^ f))) := by
  have htarget : binary64.targetExponent (totalExponent m e - totalExponent n f) =
      max ((m.log2 : Int) + e - (n.log2 + f) - 53) minExponent := by
    change max ((m.log2 : Int) + 1 + e - (n.log2 + 1 + f) - 53) (-1074) = _
    rw [minExponent]
    congr 1
    ring
  simp only [divCore, htarget]
  obtain ⟨target, htarget'⟩ : ∃ target, min (e - f)
    (max ((m.log2 : Int) + e - (n.log2 + f) - 53) minExponent) = target := ⟨_, rfl⟩
  obtain ⟨k, hk⟩ : ∃ k, (e - f - target).toNat = k := ⟨_, rfl⟩
  rw [htarget', hk]
  have hvalue : (m * 2 ^ e / (n * 2 ^ f) : ℚ) = (m <<< k : Nat) / n * 2 ^ target := by
    have hexponent : e - k = target + f := by omega
    rw [← shiftLeft_mul_zpow m e k, hexponent, zpow_add₀ two_ne_zero]
    have hn' : (n : ℚ) ≠ 0 := by exact_mod_cast hn.ne'
    field_simp
  rw [hvalue]
  refine (isRounding_roundWithAccuracy sign (represents_quotient _ hn) ?_).isNearest
  rcases Int.lt_or_le minExponent target with hmore | hleast
  · refine .inl ((Nat.le_div_iff_mul_le hn).mpr ?_)
    have hlt : n < 2 ^ (n.log2 + 1) := Nat.lt_log2_self
    calc 2 ^ 52 * n ≤ 2 ^ 52 * 2 ^ (n.log2 + 1) := Nat.mul_le_mul_left _ hlt.le
      _ = 2 ^ (52 + (n.log2 + 1)) := (Nat.pow_add ..).symm
      _ ≤ 2 ^ (m.log2 + k) := Nat.pow_le_pow_right Nat.two_pos (by omega)
      _ = 2 ^ m.log2 * 2 ^ k := Nat.pow_add ..
      _ ≤ m <<< k := by
          rw [Nat.shiftLeft_eq]
          exact Nat.mul_le_mul_right _ (Nat.log2_self_le hm.ne')
  · exact .inr hleast

theorem isRounded_div_unpacked {a b : UnpackedFloat} {negativeZero : Bool}
    (hzero : ∀ t, b = .zero t → negativeZero = isNegativeSign t) :
    IsRounded (.ofModel (.pack (a.div binary64 b)))
      (do (← exactUnpacked a).divide negativeZero (← exactUnpacked b)) := by
  cases a with
  | notANumber => exact isRounded_pack (a := .notANumber) trivial rfl
  | infinity s =>
    cases b with
    | notANumber | infinity => exact isRounded_pack (a := .notANumber) trivial rfl
    | zero t =>
      refine isRounded_pack (a := .infinity (s / t)) trivial ?_
      simp [exactUnpacked, Exact.divide, isNegativeSign_div, hzero t rfl]
    | finite t n f hn =>
      have hpos : (0 : ℚ) < n * 2 ^ f := by positivity
      refine isRounded_pack (a := .infinity (s / t)) trivial ?_
      simp [exactUnpacked, Exact.divide, isNegativeSign_div, withSign_ne_zero hpos,
        withSign_lt_zero _ hpos]
  | zero s =>
    cases b with
    | notANumber => exact isRounded_pack (a := .notANumber) trivial rfl
    | infinity t => exact isRounded_pack (a := .zero (s / t)) trivial rfl
    | zero t =>
      refine isRounded_pack (a := .notANumber) trivial ?_
      simp [exactUnpacked, Exact.divide]
    | finite t n f hn =>
      have hpos : (0 : ℚ) < n * 2 ^ f := by positivity
      refine isRounded_pack (a := .zero (s / t)) trivial ?_
      simp [exactUnpacked, Exact.divide, withSign_ne_zero hpos]
  | finite s m e hm =>
    have hpos : (0 : ℚ) < m * 2 ^ e := by positivity
    cases b with
    | notANumber => exact isRounded_pack (a := .notANumber) trivial rfl
    | infinity t => exact isRounded_pack (a := .zero (s / t)) trivial rfl
    | zero t =>
      refine isRounded_pack (a := .infinity (s / t)) trivial ?_
      simp [exactUnpacked, Exact.divide, isNegativeSign_div, withSign_ne_zero hpos,
        withSign_lt_zero _ hpos, hzero t rfl]
    | finite t n f hn =>
      have hpos' : (0 : ℚ) < n * 2 ^ f := by positivity
      have hquotient := isNearest_divCore (s / t) e f hm hn
      rw [isNegativeSign_div, ← withSign_div] at hquotient
      have hideal (p : ℚ) : Exact.divide negativeZero (.rational p)
          (.rational (withSign (isNegativeSign t) (n * 2 ^ f))) =
            some (.rational (p / withSign (isNegativeSign t) (n * 2 ^ f))) :=
        if_pos (withSign_ne_zero hpos')
      change IsRounded _ (Exact.divide negativeZero (.rational _) (.rational _))
      rw [hideal]
      exact hquotient

/-- The quotient of doubles is nearest to the exact quotient. -/
theorem isRounded_div (x y : Float) :
    IsRounded (x / y) (ideal (Exact.divide (isNegative y)) (.float x) (.float y)) := by
  rw [ideal, exactValue?_float, exactValue?_float]
  refine isRounded_div_unpacked fun t ht => ?_
  rw [isNegative, ofFloat_eq, ht, ofUnpacked]

/-! ## Remainders -/

/-- Rounding toward zero does not depend on the sign. -/
theorem withSign_floor (negative : Bool) {q : ℚ} (hq : 0 ≤ q) :
    ((if 0 ≤ withSign negative q then ⌊withSign negative q⌋ else ⌈withSign negative q⌉ : Int) : ℚ) =
      withSign negative ⌊q⌋ := by
  cases negative with
  | false => simp [withSign, hq]
  | true =>
    simp only [withSign, if_true]
    split_ifs with hneg
    · obtain rfl : q = 0 := by linarith
      simp
    · rw [Int.ceil_neg, Int.cast_neg]

theorem rational_shift (negative : Bool) (mantissa : Nat) {least exponent : Int}
    (h : least ≤ exponent) :
    rational negative mantissa exponent =
      rational negative (mantissa * 2 ^ (exponent - least).toNat) least := by
  rw [rational, rational, zpow_eq_mul h]
  push_cast
  rw [mul_assoc]

theorem exactRemainder_eq (s t : Bool) {m n : Nat} (hn : 0 < n) (least : Int) :
    Exact.remainder (.rational (rational s m least)) (.rational (rational t n least)) =
      some (.rational (rational s (m % n) least)) := by
  have hpower : (0 : ℚ) < 2 ^ least := by positivity
  have hn' : (0 : ℚ) < n := by exact_mod_cast hn
  have hquotient : rational s m least / rational t n least = withSign (s != t) (m / n) := by
    rw [rational, rational, withSign_div, mul_div_mul_right _ _ hpower.ne']
  have hfloor : ⌊(m / n : ℚ)⌋ = (m / n : Nat) := Rat.floor_natCast_div_natCast m n
  have hrest : ((m % n : Nat) : ℚ) = m - n * (m / n : Nat) := by
    rw [eq_sub_iff_add_eq]
    exact_mod_cast Nat.mod_add_div m n
  have hsign : (t != (s != t)) = s := by cases s <;> cases t <;> rfl
  rw [Exact.remainder, if_neg (mt rational_eq_zero.mp hn.ne'), hquotient,
    withSign_floor _ (by positivity), hfloor, rational, rational, rational, withSign_mul, hsign,
    withSign_sub, hrest, Int.cast_natCast]
  congr 3
  ring

/-- The remainder of mantissas is rounded to a double: it is not beyond the doubles, because it is
at most the dividend. -/
theorem isNearest_remainderCore {x : Float} {negative : Bool} {dividend : Nat} {least : Int}
    (hx : (Number.float x).exactValue? = some (.rational (rational negative dividend least)))
    (divisor : Nat) :
    IsNearest ((nearest? negative (dividend % divisor * 2 ^ least.toNat)
        (2 ^ (-least).toNat)).getD notANumber)
      (rational negative (dividend % divisor) least) := by
  obtain ⟨rest, hrest⟩ : ∃ rest, dividend % divisor = rest := ⟨_, rfl⟩
  have hvalue : ((rest * 2 ^ least.toNat : Nat) : ℚ) / (2 ^ (-least).toNat : Nat) =
      rest * 2 ^ least := by
    rw [zpow_eq_div two_ne_zero]
    push_cast
    ring
  rw [hrest]
  cases hresult : nearest? negative (rest * 2 ^ least.toNat) (2 ^ (-least).toNat) with
  | some z =>
    have hnearest := isNearest_of_nearest? (Nat.two_pow_pos _) hresult
    rw [hvalue] at hnearest
    exact hnearest
  | none =>
    rw [nearest?_eq_none_iff _ (Nat.two_pow_pos _), hvalue] at hresult
    have hbound := abs_lt_bound hx
    rw [abs_rational] at hbound
    have hle : (rest : ℚ) * 2 ^ least ≤ dividend * 2 ^ least := by
      gcongr
      exact hrest ▸ Nat.mod_le _ _
    linarith

/-- The remainder of doubles is nearest to the exact remainder. -/
theorem isRounded_remainder (x y : Float) :
    IsRounded (remainder x y) (ideal Exact.remainder (.float x) (.float y)) := by
  cases hx : ofFloat x with
  | nan =>
    simp only [remainder, hx, ideal, Number.exactValue?_nan hx]
    exact isRounded_of_exactValue? Number.exactValue?_notANumber
  | infinite s =>
    simp only [remainder, hx, ideal, Number.exactValue?_infinite hx]
    refine isRounded_of_exactValue? ?_
    rw [Number.exactValue?_notANumber]
    cases (Number.float y).exactValue? <;> rfl
  | finite s m e =>
    cases hy : ofFloat y with
    | nan =>
      simp only [remainder, hx, hy, ideal, Number.exactValue?_nan hy]
      refine isRounded_of_exactValue? ?_
      rw [Number.exactValue?_notANumber]
      cases (Number.float x).exactValue? <;> rfl
    | infinite t =>
      simp only [remainder, hx, hy, ideal, Number.exactValue?_infinite hy,
        Number.exactValue?_finite hx]
      exact isRounded_of_exactValue? (Number.exactValue?_finite hx)
    | finite t n f =>
      simp only [remainder, hx, hy, ideal, Number.exactValue?_finite hy,
        Number.exactValue?_finite hx]
      change IsRounded _ (Exact.remainder (.rational _) (.rational _))
      rcases Nat.eq_zero_or_pos n with rfl | hn
      · rw [if_pos rfl, rational_zero]
        exact isRounded_of_exactValue? Number.exactValue?_notANumber
      obtain ⟨least, hleast⟩ : ∃ least, min e f = least := ⟨_, rfl⟩
      have hpos : 0 < n * 2 ^ (f - least).toNat := by positivity
      have hvalue := Number.exactValue?_finite hx
      rw [rational_shift s m (show least ≤ e by omega)] at hvalue ⊢
      rw [if_neg hn.ne', hleast, rational_shift t n (show least ≤ f by omega),
        exactRemainder_eq s t hpos]
      exact isNearest_remainderCore hvalue _

end Binary64

end GatedExpr
