import Mathlib
import GatedExpr.Proofs.Number.Bits

/-! # Exact values

Every number but not-a-number stands for a rational or for an infinity, and numbers are equal when
they stand for the same. Equality of numbers is therefore symmetric and transitive, and a number
that equals anything is not not-a-number.
-/

namespace GatedExpr

namespace Binary64

/-- A rational or its negation. -/
def withSign (negative : Bool) (q : ℚ) : ℚ :=
  if negative then -q else q

@[simp]
theorem withSign_zero (negative : Bool) : withSign negative 0 = 0 := by
  cases negative <;> simp [withSign]

@[simp]
theorem abs_withSign (negative : Bool) (q : ℚ) : |withSign negative q| = |q| := by
  cases negative <;> simp [withSign]

theorem withSign_sub (negative : Bool) (p q : ℚ) :
    withSign negative p - withSign negative q = withSign negative (p - q) := by
  cases negative
  · rfl
  · simp only [withSign, if_true]
    ring

theorem withSign_not (negative : Bool) (q : ℚ) : withSign (!negative) q = -withSign negative q := by
  cases negative <;> simp [withSign]

theorem withSign_mul (s t : Bool) (p q : ℚ) :
    withSign s p * withSign t q = withSign (s != t) (p * q) := by
  cases s <;> cases t <;> simp [withSign]

theorem withSign_div (s t : Bool) (p q : ℚ) :
    withSign s p / withSign t q = withSign (s != t) (p / q) := by
  cases s <;> cases t <;> simp [withSign, div_neg, neg_div]

theorem withSign_ne_zero {negative : Bool} {q : ℚ} (hq : 0 < q) : withSign negative q ≠ 0 := by
  cases negative <;> simp [withSign, hq.ne']

theorem withSign_lt_zero (negative : Bool) {q : ℚ} (hq : 0 < q) :
    decide (withSign negative q < 0) = negative := by
  cases negative <;> simp [withSign, hq, hq.le]

theorem withSign_natAbs (n : Int) : withSign (decide (n < 0)) n.natAbs = n := by
  rw [Nat.cast_natAbs, withSign]
  split_ifs with hneg <;> simp only [decide_eq_true_eq] at hneg
  · rw [abs_of_neg hneg]
    push_cast
    ring
  · rw [abs_of_nonneg (not_lt.mp hneg)]

/-- The rational `± mantissa * 2 ^ exponent`. -/
def rational (negative : Bool) (mantissa : Nat) (exponent : Int) : ℚ :=
  withSign negative (mantissa * 2 ^ exponent)

/-- A signed numerator over a power of two as a rational. -/
def Dyadic.toRat (a : Dyadic) : ℚ :=
  a.numerator / 2 ^ a.shift

theorem Dyadic.toRat_ofInt (n : Int) : (ofInt n).toRat = n := by
  simp [toRat, ofInt]

theorem zpow_eq_div {base : ℚ} (hbase : base ≠ 0) (exponent : Int) :
    base ^ exponent = base ^ exponent.toNat / base ^ (-exponent).toNat := by
  rw [← zpow_natCast, ← zpow_natCast, ← zpow_sub₀ hbase]
  congr 1
  omega

theorem zpow_eq_mul {least exponent : Int} (h : least ≤ exponent) :
    (2 : ℚ) ^ exponent = 2 ^ (exponent - least).toNat * 2 ^ least := by
  rw [← zpow_natCast, ← zpow_add₀ two_ne_zero]
  congr 1
  omega

theorem toRat_dyadic (negative : Bool) (mantissa : Nat) (exponent : Int) :
    (dyadic negative mantissa exponent).toRat = rational negative mantissa exponent := by
  rw [rational, zpow_eq_div two_ne_zero]
  cases negative <;> simp [withSign, Dyadic.toRat, dyadic, twoTo_eq] <;> ring

theorem Dyadic.compare_eq_iff {a b : Dyadic} : a.compare b = .eq ↔ a.toRat = b.toRat := by
  rw [compare, compare_eq_iff_eq, toRat, toRat, div_eq_div_iff (by positivity) (by positivity),
    twoTo_eq, twoTo_eq]
  exact_mod_cast Iff.rfl

theorem rational_zero (negative : Bool) (exponent : Int) : rational negative 0 exponent = 0 := by
  simp [rational]

theorem abs_rational (negative : Bool) (mantissa : Nat) (exponent : Int) :
    |rational negative mantissa exponent| = mantissa * 2 ^ exponent := by
  rw [rational, abs_withSign, abs_of_nonneg (by positivity)]

theorem rational_eq_zero {negative : Bool} {mantissa : Nat} {exponent : Int} :
    rational negative mantissa exponent = 0 ↔ mantissa = 0 := by
  rw [← abs_eq_zero, abs_rational, mul_eq_zero, Nat.cast_eq_zero]
  exact or_iff_left (by positivity)

end Binary64

namespace Number

open Binary64

/-- What a number stands for. -/
inductive Exact where
  | infinite (negative : Bool)
  | rational (q : ℚ)
  deriving DecidableEq

def Extended.exact : Extended → Exact
  | .bottom => .infinite true
  | .top => .infinite false
  | .point a => .rational a.toRat

/-- What a number stands for exactly; not-a-number stands for nothing. -/
def exactValue? (n : Number) : Option Exact :=
  n.extended?.map (·.exact)

theorem exactValue?_int (n : Int) : (int n).exactValue? = some (.rational n) := by
  simp [exactValue?, extended?, Extended.exact, Dyadic.toRat_ofInt]

section

variable {x : Float} {negative : Bool} {mantissa : Nat} {exponent : Int}

theorem exactValue?_nan (h : ofFloat x = .nan) : (float x).exactValue? = none := by
  simp [exactValue?, extended?, h]

theorem exactValue?_infinite (h : ofFloat x = .infinite negative) :
    (float x).exactValue? = some (.infinite negative) := by
  cases negative <;> simp [exactValue?, extended?, h, Extended.exact]

theorem exactValue?_finite (h : ofFloat x = .finite negative mantissa exponent) :
    (float x).exactValue? = some (.rational (rational negative mantissa exponent)) := by
  simp [exactValue?, extended?, h, Extended.exact, toRat_dyadic]

/-- A double that stands for a rational is finite. -/
theorem exists_finite {q : ℚ} (h : (float x).exactValue? = some (.rational q)) :
    ∃ negative mantissa exponent, ofFloat x = .finite negative mantissa exponent ∧
      rational negative mantissa exponent = q := by
  cases hx : ofFloat x with
  | nan => simp [exactValue?_nan hx] at h
  | infinite negative => simp [exactValue?_infinite hx] at h
  | finite negative mantissa exponent =>
    rw [exactValue?_finite hx] at h
    exact ⟨negative, mantissa, exponent, rfl, Exact.rational.inj (Option.some.inj h)⟩

end

theorem exactValue?_notANumber : (float notANumber).exactValue? = none :=
  exactValue?_nan (by decide +kernel)

theorem exactValue?_eq_none {n : Number} : n.exactValue? = none ↔ n.isNaN = true := by
  cases n with
  | int n => simp [exactValue?_int, isNaN]
  | float x =>
    cases h : ofFloat x with
    | nan => simp [exactValue?_nan h, isNaN, Binary64.isNaN, h]
    | infinite negative => simp [exactValue?_infinite h, isNaN, Binary64.isNaN, h]
    | finite negative mantissa exponent => simp [exactValue?_finite h, isNaN, Binary64.isNaN, h]

theorem isInfinite_iff {n : Number} :
    n.isInfinite = true ↔ ∃ negative, n.exactValue? = some (.infinite negative) := by
  cases n with
  | int n => simp [exactValue?_int, isInfinite]
  | float x =>
    cases h : ofFloat x with
    | nan => simp [exactValue?_nan h, isInfinite, Binary64.isInfinite, h]
    | infinite negative => simp [exactValue?_infinite h, isInfinite, Binary64.isInfinite, h]
    | finite negative mantissa exponent =>
      simp [exactValue?_finite h, isInfinite, Binary64.isInfinite, h]

/-! ## Equality -/

theorem Extended.compare_eq_iff {x y : Extended} : x.compare y = .eq ↔ x.exact = y.exact := by
  cases x <;> cases y <;> simp [compare, exact, Dyadic.compare_eq_iff]

/-- Numbers are equal when they stand for the same. -/
theorem equals_iff {a b : Number} :
    a.equals b = true ↔ ∃ p, a.exactValue? = some p ∧ b.exactValue? = some p := by
  rw [equals, compare?, exactValue?, exactValue?]
  cases a.extended? with
  | none => simp
  | some x =>
    cases b.extended? with
    | none => simp
    | some y => simp [Extended.compare_eq_iff, eq_comm (a := x.exact)]

theorem equals_comm (a b : Number) : a.equals b = b.equals a := by
  rw [Bool.eq_iff_iff, equals_iff, equals_iff]
  exact exists_congr fun _ => and_comm

theorem nan_equals (n : Number) : nan.equals n = false := by
  have hnan : nan.exactValue? = none := exactValue?_notANumber
  rw [Bool.eq_false_iff, ne_eq, equals_iff, hnan]
  rintro ⟨_, ⟨⟩, -⟩

theorem isZero_iff {a : Number} : a.isZero = true ↔ a.exactValue? = some (.rational 0) := by
  simp [isZero, equals_iff, exactValue?_int]

end Number

/-! ## Order

What numbers stand for lies on a line between two infinities, and numbers are compared by their
places on it, integers and doubles alike. Only not-a-number has no place.
-/

namespace Binary64.Dyadic

theorem compare_eq_cmp (a b : Dyadic) : a.compare b = cmp a.toRat b.toRat := by
  have hshift (c : Dyadic) : (0 : ℚ) < 2 ^ c.shift := by positivity
  have hlt (c d : Dyadic) :
      c.toRat < d.toRat ↔ c.numerator * twoTo d.shift < d.numerator * twoTo c.shift := by
    rw [toRat, toRat, div_lt_div_iff₀ (hshift c) (hshift d), twoTo_eq, twoTo_eq]
    exact_mod_cast Iff.rfl
  rcases lt_trichotomy a.toRat b.toRat with hless | heq | hmore
  · rw [cmp_eq_lt_iff _ _ |>.mpr hless, compare, compare_lt_iff_lt]
    exact (hlt a b).mp hless
  · rw [cmp_eq_eq_iff _ _ |>.mpr heq]
    exact compare_eq_iff.mpr heq
  · rw [cmp_eq_gt_iff _ _ |>.mpr hmore, compare, compare_gt_iff_gt]
    exact (hlt b a).mp hmore

end Binary64.Dyadic

namespace Number

/-- The line of the rationals with an infinity at both ends. -/
abbrev Line := WithBot (WithTop ℚ)

def Exact.place : Exact → Line
  | .infinite true => ⊥
  | .infinite false => ((⊤ : WithTop ℚ) : Line)
  | .rational q => ((q : WithTop ℚ) : Line)

/-- Where a number lies. -/
def place? (n : Number) : Option Line :=
  n.exactValue?.map (·.place)

theorem place?_eq_none {n : Number} : n.place? = none ↔ n.isNaN = true := by
  rw [place?, Option.map_eq_none_iff, exactValue?_eq_none]

theorem Extended.compare_eq_cmp (x y : Extended) :
    x.compare y = cmp x.exact.place y.exact.place := by
  cases x with
  | bottom =>
    cases y with
    | bottom => exact (cmp_self_eq_eq _).symm
    | point | top => exact ((cmp_eq_lt_iff _ _).mpr (WithBot.bot_lt_coe _)).symm
  | point a =>
    cases y with
    | bottom => exact ((cmp_eq_gt_iff _ _).mpr (WithBot.bot_lt_coe _)).symm
    | point b =>
      have hmono : StrictMono fun q : ℚ => ((q : WithTop ℚ) : Line) :=
        WithBot.coe_strictMono.comp WithTop.coe_strictMono
      exact (a.compare_eq_cmp b).trans (hmono.cmp_map_eq _ _).symm
    | top => exact ((cmp_eq_lt_iff _ _).mpr (WithBot.coe_lt_coe.mpr (WithTop.coe_lt_top _))).symm
  | top =>
    cases y with
    | bottom => exact ((cmp_eq_gt_iff _ _).mpr (WithBot.bot_lt_coe _)).symm
    | point => exact ((cmp_eq_gt_iff _ _).mpr (WithBot.coe_lt_coe.mpr (WithTop.coe_lt_top _))).symm
    | top => exact (cmp_self_eq_eq _).symm

/-- Numbers are compared by their places. -/
theorem compare?_eq (a b : Number) :
    a.compare? b = (do return cmp (← a.place?) (← b.place?)) := by
  rw [compare?, place?, place?, exactValue?, exactValue?]
  cases a.extended? with
  | none => rfl
  | some x =>
    cases b.extended? with
    | none => rfl
    | some y => exact congrArg some (x.compare_eq_cmp y)

theorem compare?_eq_none {a b : Number} :
    a.compare? b = none ↔ a.isNaN = true ∨ b.isNaN = true := by
  rw [compare?_eq, ← place?_eq_none, ← place?_eq_none]
  cases a.place? <;> cases b.place? <;> simp

theorem compare?_swap (a b : Number) : b.compare? a = (a.compare? b).map Ordering.swap := by
  rw [compare?_eq, compare?_eq]
  cases a.place? <;> cases b.place? <;> simp [cmp_swap]

theorem compare?_lt_iff {a b : Number} :
    a.compare? b = some .lt ↔ ∃ p q, a.place? = some p ∧ b.place? = some q ∧ p < q := by
  rw [compare?_eq]
  cases a.place? <;> cases b.place? <;> simp

theorem compare?_lt_trans {a b c : Number} (hab : a.compare? b = some .lt)
    (hbc : b.compare? c = some .lt) : a.compare? c = some .lt := by
  obtain ⟨p, q, ha, hb, hpq⟩ := compare?_lt_iff.mp hab
  obtain ⟨q', r, hb', hc, hqr⟩ := compare?_lt_iff.mp hbc
  obtain rfl : q = q' := Option.some.inj (hb.symm.trans hb')
  exact compare?_lt_iff.mpr ⟨p, r, ha, hc, hpq.trans hqr⟩

end Number

end GatedExpr
