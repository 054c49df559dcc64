import Mathlib
import GatedExpr.Proofs.Number.Exact

/-! # Rounding to the nearest double

A rational is rounded to 53 bits by choosing the exponent at which its mantissa has that many and
rounding the mantissa to the nearest natural number, a half going to the even one. The result is
as close to the rational as doubles are, and it is a double unless the rational lies half a step or
more above the largest one.
-/

namespace GatedExpr

namespace Binary64

/-- The least magnitude that rounds to infinity: half a step above the largest finite double. -/
def bound : Nat := (twoTo 54 - 1) * twoTo 970

/-- A double that is as close to a rational as doubles are. The infinity of its sign stands for
a rational that lies beyond all of them. -/
structure IsNearest (x : Float) (q : ℚ) : Prop where
  beyond : bound ≤ |q| → (Number.float x).exactValue? = some (.infinite (q < 0))
  within : |q| < bound → ∃ v, (Number.float x).exactValue? = some (.rational v) ∧
    ∀ y w, (Number.float y).exactValue? = some (.rational w) → |v - q| ≤ |w - q|

theorem IsNearest.exactValue?_ne_none {x : Float} {q : ℚ} (h : IsNearest x q) :
    (Number.float x).exactValue? ≠ none := by
  rcases le_or_gt (bound : ℚ) |q| with hbeyond | hwithin
  · rw [h.beyond hbeyond]
    nofun
  · obtain ⟨v, hv, -⟩ := h.within hwithin
    rw [hv]
    nofun

/-! ## Rounding a mantissa -/

/-- The nearest natural number to a rational, a half going to the even one. -/
structure RoundsTo (t : ℚ) (m : Nat) : Prop where
  half : |m - t| ≤ 1 / 2
  even : |m - t| = 1 / 2 → Even m

namespace RoundsTo

variable {t : ℚ} {m : Nat}

/-- Rounding passes an even number from half a step below it. -/
theorem le_iff (h : RoundsTo t m) {k : Nat} (hk : Even k) : k ≤ m ↔ (k : ℚ) - 1 / 2 ≤ t := by
  have hhalf := abs_le.mp h.half
  constructor
  · intro hle
    have : (k : ℚ) ≤ m := by exact_mod_cast hle
    linarith
  · intro hle
    by_contra hlt
    have hstep : (m : ℚ) + 1 ≤ k := by exact_mod_cast Nat.not_le.mp hlt
    have hm : Even m := h.even (by rw [abs_eq (by norm_num)]; right; linarith)
    have heq : m + 1 = k := by
      have : (k : ℚ) ≤ m + 1 := by linarith
      exact le_antisymm (Nat.not_le.mp hlt) (by exact_mod_cast this)
    exact Nat.not_even_iff_odd.mpr hm.add_one (heq ▸ hk)

theorem le_of_lt (h : RoundsTo t m) {k : Nat} (ht : t < k) : m ≤ k := by
  have hhalf := abs_le.mp h.half
  have hlt : (m : ℚ) < (k + 1 : Nat) := by push_cast; linarith
  exact Nat.le_of_lt_succ (by exact_mod_cast hlt)

theorem le_of_le (h : RoundsTo t m) {k : Nat} (ht : (k : ℚ) ≤ t) : k ≤ m := by
  have hhalf := abs_le.mp h.half
  have hlt : (k : ℚ) < (m + 1 : Nat) := by push_cast; linarith
  exact Nat.le_of_lt_succ (by exact_mod_cast hlt)

/-- No integer is closer. -/
theorem closest (h : RoundsTo t m) (k : Int) : |m - t| ≤ |k - t| := by
  rcases eq_or_ne k m with rfl | hne
  · simp
  · have hapart : (1 : ℚ) ≤ |(k : ℚ) - m| := by
      have : (1 : Int) ≤ |k - m| := Int.one_le_abs (sub_ne_zero.mpr hne)
      exact_mod_cast this
    have htriangle : |(k : ℚ) - m| ≤ |k - t| + |t - m| := abs_sub_le _ _ _
    rw [abs_sub_comm t] at htriangle
    linarith [h.half]

end RoundsTo

theorem cast_div_add_mod (n : Nat) {d : Nat} (hd : 0 < d) :
    (n / d : ℚ) = (n / d : Nat) + (n % d : Nat) / d := by
  have hd' : (d : ℚ) ≠ 0 := by exact_mod_cast hd.ne'
  rw [div_eq_iff hd', add_mul, div_mul_cancel₀ _ hd']
  exact_mod_cast (Nat.div_add_mod' n d).symm

/-- A quotient of natural numbers is rounded to the nearest. -/
theorem roundsTo_roundQuotient (n : Nat) {d : Nat} (hd : 0 < d) :
    RoundsTo (n / d) (roundQuotient n d) := by
  have hd' : (0 : ℚ) < d := by exact_mod_cast hd
  have hlt : ((n % d : Nat) : ℚ) < d := by exact_mod_cast Nat.mod_lt n hd
  have hnonneg : (0 : ℚ) ≤ (n % d : Nat) / d := by positivity
  have hone : ((n % d : Nat) : ℚ) / d < 1 := (div_lt_one hd').mpr hlt
  rw [cast_div_add_mod n hd]
  unfold roundQuotient
  simp only
  split_ifs with hup
  · have hge : (1 : ℚ) / 2 ≤ (n % d : Nat) / d := by
      rw [div_le_div_iff₀ two_pos hd']
      have : d ≤ n % d * 2 := by omega
      rw [one_mul]
      exact_mod_cast this
    have herror : ((n / d + 1 : Nat) : ℚ) - ((n / d : Nat) + (n % d : Nat) / d) =
        1 - (n % d : Nat) / d := by rw [Nat.cast_succ, add_sub_add_left_eq_sub]
    refine ⟨?_, fun htie => ?_⟩ <;> rw [herror, abs_of_nonneg (by linarith)] at *
    · linarith
    have htie' : ((n % d : Nat) : ℚ) / d = 1 / 2 := by linarith
    rw [div_eq_div_iff hd'.ne' two_ne_zero, one_mul] at htie'
    have htie'' : n % d * 2 = d := by exact_mod_cast htie'
    rw [Nat.even_add_one, Nat.not_even_iff]
    omega
  · have hle : ((n % d : Nat) : ℚ) / d ≤ 1 / 2 := by
      rw [div_le_div_iff₀ hd' two_pos]
      have : n % d * 2 ≤ d := by omega
      rw [one_mul]
      exact_mod_cast this
    have herror : ((n / d : Nat) : ℚ) - ((n / d : Nat) + (n % d : Nat) / d) =
        -((n % d : Nat) / d) := sub_add_cancel_left _ _
    refine ⟨?_, fun htie => ?_⟩ <;> rw [herror, abs_neg, abs_of_nonneg hnonneg] at *
    · exact hle
    rw [div_eq_div_iff hd'.ne' two_ne_zero, one_mul] at htie
    have htie' : n % d * 2 = d := by exact_mod_cast htie
    rw [Nat.even_iff]
    omega

/-! ## Choosing the exponent -/

theorem two_mul_zpow_le {e f : Int} (h : e < f) : 2 * (2 : ℚ) ^ e ≤ 2 ^ f := by
  rw [← zpow_one_add₀ two_ne_zero]
  exact zpow_le_zpow_right₀ one_le_two (by omega)

theorem cast_bound : (bound : ℚ) = (2 ^ 53 - 1 / 2) * 2 ^ (971 : Int) := by
  have hpower : (2 : ℚ) ^ (971 : Int) = 2 * 2 ^ 970 := by
    rw [← zpow_natCast, ← zpow_one_add₀ two_ne_zero]
    rfl
  have hodd : twoTo 54 - 1 = 18014398509481983 := by decide
  rw [hpower, bound, hodd, twoTo_eq, Nat.cast_mul, Nat.cast_pow]
  generalize ((2 : Nat) : ℚ) ^ 970 = p
  norm_num
  ring

/-- A positive rational with an exponent at which its mantissa has 53 bits, or the least exponent,
and what that mantissa rounds to. -/
structure Approximates (q : ℚ) (mantissa : Nat) (exponent : Int) : Prop where
  least : minExponent ≤ exponent
  below : q / 2 ^ exponent < 2 ^ 53
  above : 2 ^ 52 ≤ q / 2 ^ exponent ∨ exponent = minExponent
  rounds : RoundsTo (q / 2 ^ exponent) mantissa

namespace Approximates

variable {q : ℚ} {mantissa : Nat} {exponent : Int}

theorem mantissa_le (h : Approximates q mantissa exponent) : mantissa ≤ 2 ^ 53 :=
  h.rounds.le_of_lt (by exact_mod_cast h.below)

theorem le_mantissa (h : Approximates q mantissa exponent) :
    2 ^ 52 ≤ mantissa ∨ exponent = minExponent :=
  h.above.imp_left fun hge => h.rounds.le_of_le (by exact_mod_cast hge)

/-- Where the mantissa carries into the exponent of infinity, or the exponent is beyond that. -/
theorem bound_le_iff (h : Approximates q mantissa exponent) :
    bound ≤ q ↔ 971 < exponent ∨ exponent = 971 ∧ mantissa = 2 ^ 53 := by
  have hpower : (0 : ℚ) < 2 ^ exponent := by positivity
  have hstep : (0 : ℚ) < 2 ^ (971 : Int) := by positivity
  rw [cast_bound]
  rcases lt_trichotomy exponent 971 with hlt | heq | hgt
  · have hbelow : q < 2 ^ 53 * 2 ^ exponent := (div_lt_iff₀ hpower).mp h.below
    have hmono := two_mul_zpow_le hlt
    refine iff_of_false (not_le.mpr ?_) (by omega)
    generalize (2 : ℚ) ^ (971 : Int) = step at *
    linarith
  · have hcarry := h.rounds.le_iff (k := 2 ^ 53) (by decide)
    rw [le_div_iff₀ hpower, heq, Nat.cast_pow, Nat.cast_ofNat] at hcarry
    have hle := h.mantissa_le
    rw [← hcarry]
    omega
  · have hmono := two_mul_zpow_le hgt
    have hge : 2 ^ 52 * 2 ^ exponent ≤ q := by
      rcases h.above with hge | hleast
      · exact (le_div_iff₀ hpower).mp hge
      · rw [minExponent] at hleast
        omega
    refine iff_of_true ?_ (.inl hgt)
    generalize (2 : ℚ) ^ (971 : Int) = step at *
    linarith

/-- No double is closer. -/
theorem closest (h : Approximates q mantissa exponent) {k : Nat} {f : Int} (hk : k < 2 ^ 53)
    (hf : minExponent ≤ f) : |mantissa * 2 ^ exponent - q| ≤ |k * 2 ^ f - q| := by
  have hpower : (0 : ℚ) < 2 ^ exponent := by positivity
  -- Multiples of the step are no closer, because the mantissa has been rounded to the nearest.
  have hmultiple (i : Int) : |mantissa * 2 ^ exponent - q| ≤ |i * 2 ^ exponent - q| := by
    have hscale (r : ℚ) : |r * 2 ^ exponent - q| = |r - q / 2 ^ exponent| * 2 ^ exponent := by
      rw [← abs_of_pos hpower, ← abs_mul, sub_mul, abs_of_pos hpower, div_mul_cancel₀ _ hpower.ne']
    rw [hscale, hscale]
    exact mul_le_mul_of_nonneg_right (h.rounds.closest i) hpower.le
  rcases le_or_gt exponent f with hge | hlt
  · have hsplit :
        (k : ℚ) * 2 ^ f = ((k * 2 ^ (f - exponent).toNat : Nat) : Int) * 2 ^ exponent := by
      rw [zpow_eq_mul hge]
      push_cast
      ring
    rw [hsplit]
    exact hmultiple _
  · -- Doubles with a smaller step lie below a multiple of the step that is not above the rational.
    have hge : 2 ^ 52 * 2 ^ exponent ≤ q :=
      (h.above.resolve_right (by omega) |> (le_div_iff₀ hpower).mp)
    have hsmall : (k : ℚ) * 2 ^ f ≤ 2 ^ 52 * 2 ^ exponent := by
      have hk' : (k : ℚ) ≤ 2 ^ 53 := by exact_mod_cast hk.le
      calc (k : ℚ) * 2 ^ f ≤ 2 ^ 53 * 2 ^ f := by gcongr
        _ = 2 ^ 52 * (2 * 2 ^ f) := by ring
        _ ≤ 2 ^ 52 * 2 ^ exponent := by gcongr; exact two_mul_zpow_le hlt
    calc |mantissa * 2 ^ exponent - q| ≤ |((2 ^ 52 : Int) : ℚ) * 2 ^ exponent - q| := hmultiple _
      _ = q - 2 ^ 52 * 2 ^ exponent := by
          push_cast
          rw [abs_of_nonpos (by linarith)]
          ring
      _ ≤ |k * 2 ^ f - q| := by
          rw [abs_of_nonpos (by linarith)]
          linarith

end Approximates

theorem approximates_zero : Approximates 0 0 minExponent :=
  ⟨le_rfl, by norm_num, .inr rfl, by simp, by norm_num⟩

/-! ## Quotients of natural numbers -/

theorem two_pow_log2_le {n : Nat} (hn : 0 < n) : (2 : ℚ) ^ (n.log2 : Int) ≤ n := by
  rw [zpow_natCast]
  exact_mod_cast Nat.log2_self_le hn.ne'

theorem lt_two_pow_log2 (n : Nat) : (n : ℚ) < 2 ^ ((n.log2 : Int) + 1) := by
  have hlt : n < 2 ^ (n.log2 + 1) := Nat.lt_log2_self
  rw [← Nat.cast_succ, zpow_natCast]
  exact_mod_cast hlt

/-- A quotient is divided by a power of two by multiplying either of its parts. -/
theorem scaled_div (n d : Nat) (e : Int) :
    ((n * 2 ^ (-e).toNat : Nat) : ℚ) / (d * 2 ^ e.toNat : Nat) = n / d / 2 ^ e := by
  rw [zpow_eq_div two_ne_zero]
  push_cast
  field_simp

theorem quotient_lt {n d : Nat} (hd : 0 < d) {guess : Int}
    (hguess : (n.log2 : Int) - d.log2 - 52 = guess) : (n / d : ℚ) < 2 ^ 53 * 2 ^ guess := by
  have hd' : (0 : ℚ) < d := by exact_mod_cast hd
  rw [div_lt_iff₀ hd']
  calc (n : ℚ) < 2 ^ ((n.log2 : Int) + 1) := lt_two_pow_log2 n
    _ = 2 ^ 53 * 2 ^ guess * 2 ^ (d.log2 : Int) := by
        rw [← hguess, ← zpow_natCast (2 : ℚ) 53, ← zpow_add₀ two_ne_zero, ← zpow_add₀ two_ne_zero]
        congr 1
        push_cast
        ring
    _ ≤ _ := by gcongr; exact two_pow_log2_le hd

theorem le_quotient {n d : Nat} (hn : 0 < n) (hd : 0 < d) {guess : Int}
    (hguess : (n.log2 : Int) - d.log2 - 52 = guess) : 2 ^ 51 * 2 ^ guess ≤ (n / d : ℚ) := by
  have hd' : (0 : ℚ) < d := by exact_mod_cast hd
  rw [le_div_iff₀ hd']
  calc 2 ^ 51 * 2 ^ guess * (d : ℚ) ≤ 2 ^ 51 * 2 ^ guess * 2 ^ ((d.log2 : Int) + 1) := by
        gcongr
        exact (lt_two_pow_log2 d).le
    _ = 2 ^ (n.log2 : Int) := by
        rw [← hguess, ← zpow_natCast (2 : ℚ) 51, ← zpow_add₀ two_ne_zero, ← zpow_add₀ two_ne_zero]
        congr 1
        push_cast
        ring
    _ ≤ n := two_pow_log2_le hn

/-- The exponent guessed from the sizes of the parts is too large by at most one. -/
theorem exists_quotientExponent {n d : Nat} (hn : 0 < n) (hd : 0 < d) :
    ∃ e : Int, quotientExponent n d = max e minExponent ∧
      2 ^ 52 * 2 ^ e ≤ (n / d : ℚ) ∧ (n / d : ℚ) < 2 ^ 53 * 2 ^ e := by
  obtain ⟨guess, hguess⟩ : ∃ guess : Int, (n.log2 : Int) - d.log2 - 52 = guess := ⟨_, rfl⟩
  have hpower : (0 : ℚ) < 2 ^ guess := by positivity
  have hlow := le_quotient hn hd hguess
  have hscaled : n * 2 ^ (-guess).toNat < 2 ^ 52 * (d * 2 ^ guess.toNat) ↔
      (n / d : ℚ) < 2 ^ 52 * 2 ^ guess := by
    rw [← div_lt_iff₀ hpower, ← scaled_div, div_lt_iff₀ (by positivity)]
    exact_mod_cast Iff.rfl
  simp only [quotientExponent, hguess, twoTo_eq]
  split_ifs with hdown
  · have hhalf : (2 : ℚ) ^ guess = 2 * 2 ^ (guess - 1) := by
      rw [← zpow_one_add₀ two_ne_zero]
      congr 1
      ring
    have hless := hscaled.mp hdown
    rw [hhalf] at hless hlow
    exact ⟨_, rfl, by linarith, by linarith⟩
  · exact ⟨_, rfl, not_lt.mp fun hless => hdown (hscaled.mpr hless), quotient_lt hd hguess⟩

theorem quotientExponent_spec {n d : Nat} (hn : 0 < n) (hd : 0 < d) :
    minExponent ≤ quotientExponent n d ∧ (n / d : ℚ) / 2 ^ quotientExponent n d < 2 ^ 53 ∧
      (2 ^ 52 ≤ (n / d : ℚ) / 2 ^ quotientExponent n d ∨ quotientExponent n d = minExponent) := by
  obtain ⟨e, he, hge, hlt⟩ := exists_quotientExponent hn hd
  rw [he, div_lt_iff₀ (by positivity), le_div_iff₀ (by positivity)]
  refine ⟨le_max_right _ _, hlt.trans_le ?_, ?_⟩
  · have hmono : (2 : ℚ) ^ e ≤ 2 ^ max e minExponent :=
      zpow_le_zpow_right₀ one_le_two (le_max_left _ _)
    gcongr
  · rcases le_total minExponent e with hle | hle
    · rw [max_eq_left hle]
      exact .inl hge
    · exact .inr (max_eq_right hle)

/-- The mantissa of a quotient at its exponent. -/
def quotientMantissa (numerator denominator : Nat) : Nat :=
  roundQuotient (numerator * twoTo (-quotientExponent numerator denominator).toNat)
    (denominator * twoTo (quotientExponent numerator denominator).toNat)

theorem approximates_quotient {n d : Nat} (hn : 0 < n) (hd : 0 < d) :
    Approximates (n / d) (quotientMantissa n d) (quotientExponent n d) := by
  obtain ⟨hleast, hbelow, habove⟩ := quotientExponent_spec hn hd
  refine ⟨hleast, hbelow, habove, ?_⟩
  rw [← scaled_div]
  exact roundsTo_roundQuotient _ (by positivity)

/-! ## The bits of a double -/

/-- A full mantissa carries into the exponent, which gives the same value. -/
theorem exactValue?_of_toBits {x : Float} {negative : Bool} {mantissa : Nat} {exponent : Int}
    (hbits : x.toBits.toNat = (if negative then signBit else 0) +
      ((exponent - minExponent).toNat * 2 ^ 52 + mantissa))
    (hleast : minExponent ≤ exponent) (hmantissa : mantissa ≤ 2 ^ 53)
    (hfull : 2 ^ 52 ≤ mantissa ∨ exponent = minExponent)
    (hfinite : (exponent - minExponent).toNat * 2 ^ 52 + mantissa < infinityBits) :
    (Number.float x).exactValue? = some (.rational (rational negative mantissa exponent)) := by
  have hinfinity : infinityBits = 2047 * 2 ^ 52 := rfl
  have hmin : minExponent = -1074 := rfl
  obtain ⟨steps, hsteps⟩ : ∃ steps, (exponent - minExponent).toNat = steps := ⟨_, rfl⟩
  rw [hsteps] at hbits hfinite
  rcases Nat.lt_or_ge mantissa (2 ^ 52) with hsmall | hlarge
  · obtain rfl : exponent = minExponent := hfull.resolve_left (Nat.not_le.mpr hsmall)
    obtain rfl : steps = 0 := by omega
    have hvalue := ofFloat_of_toBits hbits (by omega) hsmall
    rw [if_neg (by omega), if_pos rfl] at hvalue
    exact Number.exactValue?_finite hvalue
  · rcases Nat.lt_or_ge mantissa (2 ^ 53) with hlt | hge
    · have hbits' : steps * 2 ^ 52 + mantissa = (steps + 1) * 2 ^ 52 + (mantissa - 2 ^ 52) := by
        omega
      rw [hbits'] at hbits
      have hvalue := ofFloat_of_toBits hbits (by omega) (by omega)
      have hmantissa' : 2 ^ 52 + (mantissa - 2 ^ 52) = mantissa := by omega
      have hexponent : ((steps + 1 : Nat) : Int) - 1075 = exponent := by omega
      rw [if_neg (by omega), if_neg (by omega), hmantissa', hexponent] at hvalue
      exact Number.exactValue?_finite hvalue
    · obtain rfl : mantissa = 2 ^ 53 := by omega
      have hbits' : steps * 2 ^ 52 + 2 ^ 53 = (steps + 2) * 2 ^ 52 + 0 := by omega
      rw [hbits'] at hbits
      have hvalue := ofFloat_of_toBits hbits (by omega) (by omega)
      have hexponent : ((steps + 2 : Nat) : Int) - 1075 = exponent + 1 := by omega
      rw [if_neg (by omega), if_neg (by omega), hexponent] at hvalue
      rw [Number.exactValue?_finite hvalue, rational, rational, zpow_add_one₀ two_ne_zero]
      congr 3
      push_cast
      ring

theorem exactValue?_of_toBits_infinity {x : Float} {negative : Bool}
    (hbits : x.toBits.toNat = (if negative then signBit else 0) + infinityBits) :
    (Number.float x).exactValue? = some (.infinite negative) := by
  have hvalue : ofFloat x = .infinite negative := by
    have hfraction : infinityBits = 2047 * 2 ^ 52 + 0 := rfl
    rw [hfraction] at hbits
    rw [ofFloat_of_toBits hbits (by omega) (by omega), if_pos rfl, if_pos rfl]
  exact Number.exactValue?_infinite hvalue

theorem bounds_of_ofFloat {x : Float} {negative : Bool} {mantissa : Nat} {exponent : Int}
    (h : ofFloat x = .finite negative mantissa exponent) :
    mantissa < 2 ^ 53 ∧ minExponent ≤ exponent ∧ exponent ≤ 971 := by
  have hmin : minExponent = -1074 := rfl
  rw [ofFloat, twoTo_eq, twoTo_eq] at h
  split_ifs at h <;> cases h <;> omega

theorem full_of_ofFloat {x : Float} {negative : Bool} {mantissa : Nat} {exponent : Int}
    (h : ofFloat x = .finite negative mantissa exponent) :
    2 ^ 52 ≤ mantissa ∨ exponent = minExponent := by
  have hmin : minExponent = -1074 := rfl
  rw [ofFloat, twoTo_eq, twoTo_eq] at h
  split_ifs at h <;> cases h <;> omega

/-- The magnitude of a finite double. -/
theorem abs_of_exactValue? {x : Float} {q : ℚ}
    (h : (Number.float x).exactValue? = some (.rational q)) :
    ∃ (k : Nat) (f : Int), |q| = k * 2 ^ f ∧ k < 2 ^ 53 ∧ minExponent ≤ f ∧ f ≤ 971 := by
  obtain ⟨negative, mantissa, exponent, hx, rfl⟩ := Number.exists_finite h
  exact ⟨mantissa, exponent, abs_rational _ _ _, bounds_of_ofFloat hx⟩

namespace Approximates

variable {q : ℚ} {mantissa : Nat} {exponent : Int}

theorem lt_infinityBits_iff (h : Approximates q mantissa exponent) :
    (exponent - minExponent).toNat * 2 ^ 52 + mantissa < infinityBits ↔ ¬ bound ≤ q := by
  have hinfinity : infinityBits = 2047 * 2 ^ 52 := rfl
  have hmin : minExponent = -1074 := rfl
  have hleast := h.least
  have hle := h.mantissa_le
  have hge := h.le_mantissa
  rw [h.bound_le_iff]
  omega

end Approximates

/-- A double with the rounded mantissa of a rational. The infinity of its sign stands for a
rational that lies beyond all doubles. -/
structure IsRounding (x : Float) (q : ℚ) : Prop where
  beyond : bound ≤ |q| → (Number.float x).exactValue? = some (.infinite (q < 0))
  within : |q| < bound → ∃ negative mantissa exponent, withSign negative |q| = q ∧
    Approximates |q| mantissa exponent ∧
      (Number.float x).exactValue? = some (.rational (rational negative mantissa exponent))

/-- No double is closer than one with the rounded mantissa. -/
theorem IsRounding.isNearest {x : Float} {q : ℚ} (h : IsRounding x q) : IsNearest x q := by
  refine ⟨h.beyond, fun hwithin => ?_⟩
  obtain ⟨negative, mantissa, exponent, hsign, happroximates, hvalue⟩ := h.within hwithin
  refine ⟨_, hvalue, fun y w hy => ?_⟩
  obtain ⟨k, f, hw, hk, hf, -⟩ := abs_of_exactValue? hy
  conv_lhs => rw [← hsign]
  rw [rational, withSign_sub, abs_withSign]
  calc |(mantissa * 2 ^ exponent - |q|)| ≤ |(k * 2 ^ f - |q|)| := happroximates.closest hk hf
    _ = |(|w| - |q|)| := by rw [hw]
    _ ≤ |w - q| := abs_abs_sub_abs_le_abs_sub _ _

/-- A double with the bits of a rounded magnitude, or those of infinity from the bound on. -/
theorem Approximates.isRounding {q : ℚ} {mantissa : Nat} {exponent : Int}
    (h : Approximates q mantissa exponent) (hq : 0 ≤ q) {x : Float} {negative : Bool}
    (hbits : x.toBits.toNat = (if negative then signBit else 0) +
      if bound ≤ q then infinityBits else (exponent - minExponent).toNat * 2 ^ 52 + mantissa) :
    IsRounding x (withSign negative q) := by
  have habs : |withSign negative q| = q := by rw [abs_withSign, abs_of_nonneg hq]
  refine ⟨fun hbeyond => ?_, fun hwithin => ?_⟩
  · rw [habs] at hbeyond
    rw [if_pos hbeyond] at hbits
    have hpos : 0 < q := lt_of_lt_of_le (by rw [cast_bound]; positivity) hbeyond
    rw [withSign_lt_zero negative hpos]
    exact exactValue?_of_toBits_infinity hbits
  · rw [habs] at hwithin ⊢
    rw [if_neg hwithin.not_ge] at hbits
    exact ⟨negative, mantissa, exponent, rfl, h,
      exactValue?_of_toBits hbits h.least h.mantissa_le h.le_mantissa
        (h.lt_infinityBits_iff.mpr hwithin.not_ge)⟩

theorem mul_zpow_lt_bound {k : Nat} {f : Int} (hk : k < 2 ^ 53) (hf : f ≤ 971) :
    (k : ℚ) * 2 ^ f < bound := by
  have hk' : (k : ℚ) ≤ 2 ^ 53 - 1 := by
    have : k + 1 ≤ 2 ^ 53 := hk
    rw [le_sub_iff_add_le]
    exact_mod_cast this
  have hpower : (2 : ℚ) ^ f ≤ 2 ^ (971 : Int) := zpow_le_zpow_right₀ one_le_two hf
  have hpositive : (0 : ℚ) < 2 ^ (971 : Int) := by positivity
  rw [cast_bound]
  generalize (2 : ℚ) ^ (971 : Int) = step at *
  calc (k : ℚ) * 2 ^ f ≤ (2 ^ 53 - 1) * step := by gcongr
    _ < (2 ^ 53 - 1 / 2) * step := by gcongr; norm_num

/-- Every finite double lies within the bound. -/
theorem abs_lt_bound {x : Float} {q : ℚ} (h : (Number.float x).exactValue? = some (.rational q)) :
    |q| < bound := by
  obtain ⟨k, f, hq, hk, -, hf⟩ := abs_of_exactValue? h
  exact hq ▸ mul_zpow_lt_bound hk hf

/-- A finite double is its own rounding. -/
theorem isRounding_of_exactValue? {x : Float} {q : ℚ}
    (h : (Number.float x).exactValue? = some (.rational q)) : IsRounding x q := by
  refine ⟨fun hbeyond => absurd (abs_lt_bound h) hbeyond.not_gt, fun _ => ?_⟩
  obtain ⟨negative, mantissa, exponent, hx, rfl⟩ := Number.exists_finite h
  obtain ⟨hsmall, hleast, -⟩ := bounds_of_ofFloat hx
  have hpower : (2 : ℚ) ^ exponent ≠ 0 := by positivity
  have hbits : (mantissa : ℚ) * 2 ^ exponent / 2 ^ exponent = mantissa :=
    mul_div_cancel_right₀ _ hpower
  refine ⟨negative, mantissa, exponent, by rw [abs_rational, rational], ?_, h⟩
  rw [abs_rational]
  constructor
  · exact hleast
  · rw [hbits]
    exact_mod_cast hsmall
  · rw [hbits]
    exact (full_of_ofFloat hx).imp_left fun hfull => by exact_mod_cast hfull
  · rw [hbits]
    exact ⟨by simp, by norm_num⟩

/-- A double is nearest to what it stands for. -/
theorem isNearest_of_exactValue? {x : Float} {q : ℚ}
    (h : (Number.float x).exactValue? = some (.rational q)) : IsNearest x q :=
  (isRounding_of_exactValue? h).isNearest

/-- What fits into a mantissa is not changed by rounding. -/
theorem IsRounding.exactValue?_of_fits {x : Float} {q : ℚ} (h : IsRounding x q) {k : Nat} {f : Int}
    (hq : |q| = k * 2 ^ f) (hk : k < 2 ^ 53) (hleast : minExponent ≤ f) (hmost : f ≤ 971) :
    (Number.float x).exactValue? = some (.rational q) := by
  obtain ⟨negative, mantissa, exponent, hsign, happroximates, hvalue⟩ :=
    h.within (hq ▸ mul_zpow_lt_bound hk hmost)
  have hclosest := happroximates.closest hk hleast
  rw [← hq, sub_self, abs_zero] at hclosest
  have hsize : (mantissa : ℚ) * 2 ^ exponent = |q| :=
    sub_eq_zero.mp (abs_nonpos_iff.mp hclosest)
  rw [hvalue, rational, hsize, hsign]

/-- Between `2 ^ 52` and `2 ^ 53` doubles are integers, and a half goes to the even one. -/
theorem IsRounding.exists_int {x : Float} {q : ℚ} (h : IsRounding x q) (hlow : 2 ^ 52 ≤ |q|)
    (hhigh : |q| < 2 ^ 53) : ∃ m : Int, (Number.float x).exactValue? = some (.rational m) ∧
      |m - q| ≤ 1 / 2 ∧ (|m - q| = 1 / 2 → Even m) := by
  have hbound : (2 : ℚ) ^ 53 ≤ bound := by
    have : 2 ^ 53 ≤ bound := by decide +kernel
    exact_mod_cast this
  obtain ⟨negative, mantissa, exponent, hsign, happroximates, hvalue⟩ :=
    h.within (hhigh.trans_le hbound)
  have hpower : (0 : ℚ) < 2 ^ exponent := by positivity
  have hbelow : |q| < 2 ^ 53 * 2 ^ exponent := (div_lt_iff₀ hpower).mp happroximates.below
  obtain rfl : exponent = 0 := by
    rcases lt_trichotomy exponent 0 with hneg | hzero | hpos
    · have hhalf := two_mul_zpow_le hneg
      rw [zpow_zero] at hhalf
      linarith
    · exact hzero
    · have hdouble := two_mul_zpow_le hpos
      rw [zpow_zero] at hdouble
      have hge : 2 ^ 52 * 2 ^ exponent ≤ |q| :=
        (le_div_iff₀ hpower).mp (happroximates.above.resolve_right (by rw [minExponent]; omega))
      linarith
  have hrounds := happroximates.rounds
  rw [zpow_zero, div_one] at hrounds
  rw [rational, zpow_zero, mul_one] at hvalue
  obtain ⟨m, hm, heven⟩ : ∃ m : Int, (m : ℚ) = withSign negative mantissa ∧
      (Even mantissa → Even m) := by
    cases negative with
    | false => exact ⟨mantissa, by simp [withSign], by simp⟩
    | true => exact ⟨-mantissa, by simp [withSign], by simp⟩
  have hdistance : |m - q| = |(mantissa - |q|)| := by
    rw [hm]
    conv_lhs => rw [← hsign]
    rw [withSign_sub, abs_withSign]
  rw [← hm] at hvalue
  exact ⟨m, hvalue, hdistance ▸ hrounds.half, fun htie => heven (hrounds.even (hdistance ▸ htie))⟩

/-! ## The double nearest to a quotient -/

theorem quotientBits_lt_iff {n d : Nat} (hd : 0 < d) :
    quotientBits n d < infinityBits ↔ ¬ (bound : ℚ) ≤ n / d := by
  rcases Nat.eq_zero_or_pos n with rfl | hn
  · have hbound : (0 : ℚ) < bound := by rw [cast_bound]; positivity
    have hpositive : 0 < infinityBits := by decide
    refine iff_of_true hpositive (not_le.mpr ?_)
    rwa [Nat.cast_zero, zero_div]
  · rw [quotientBits, if_neg hn.ne']
    exact (approximates_quotient hn hd).lt_infinityBits_iff

theorem nearest?_eq_none_iff (negative : Bool) {n d : Nat} (hd : 0 < d) :
    nearest? negative n d = none ↔ (bound : ℚ) ≤ n / d := by
  rw [← not_iff_not, ← quotientBits_lt_iff hd]
  simp only [nearest?]
  split_ifs with hbits <;> simp [hbits]

theorem toNat_toBits_of_nearest? {negative : Bool} {n d : Nat} {x : Float}
    (h : nearest? negative n d = some x) : quotientBits n d < infinityBits ∧
      x.toBits.toNat = (if negative then signBit else 0) + quotientBits n d := by
  have hinfinity : infinityBits = 2047 * 2 ^ 52 := rfl
  have hsign : signBit = 2 ^ 63 := rfl
  simp only [nearest?] at h
  split at h
  case isFalse => cases h
  case isTrue hbits =>
    cases h
    refine ⟨hbits, ?_⟩
    cases negative <;> simp only [Bool.false_eq_true, if_false, if_true] <;>
      rw [toNat_toBits_ofBits (by omega) (by omega)]
    rw [Nat.zero_add]

/-- What a quotient of natural numbers is rounded to approximates it. -/
theorem exists_approximates_of_nearest? {negative : Bool} {n d : Nat} (hd : 0 < d) {x : Float}
    (h : nearest? negative n d = some x) : ∃ mantissa exponent,
      Approximates (n / d) mantissa exponent ∧ ¬ (bound : ℚ) ≤ n / d ∧
        x.toBits.toNat = (if negative then signBit else 0) +
          ((exponent - minExponent).toNat * 2 ^ 52 + mantissa) := by
  obtain ⟨hbits, htoBits⟩ := toNat_toBits_of_nearest? h
  have hbelow := (quotientBits_lt_iff hd).mp hbits
  rcases Nat.eq_zero_or_pos n with rfl | hn
  · refine ⟨0, minExponent, ?_, hbelow, htoBits⟩
    rw [Nat.cast_zero, zero_div]
    exact approximates_zero
  · refine ⟨_, _, approximates_quotient hn hd, hbelow, ?_⟩
    rw [htoBits, quotientBits, if_neg hn.ne']
    rfl

theorem isRounding_of_nearest? {negative : Bool} {n d : Nat} (hd : 0 < d) {x : Float}
    (h : nearest? negative n d = some x) : IsRounding x (withSign negative (n / d)) := by
  obtain ⟨mantissa, exponent, happroximates, hbelow, hbits⟩ := exists_approximates_of_nearest? hd h
  refine happroximates.isRounding (by positivity) ?_
  rw [if_neg hbelow, hbits]

/-- What a quotient of natural numbers is rounded to is as close to it as doubles are. -/
theorem isNearest_of_nearest? {negative : Bool} {n d : Nat} (hd : 0 < d) {x : Float}
    (h : nearest? negative n d = some x) : IsNearest x (withSign negative (n / d)) :=
  (isRounding_of_nearest? hd h).isNearest

/-! ## The double nearest to an integer -/

theorem ofInt?_eq_none_iff {n : Int} : ofInt? n = none ↔ bound ≤ n.natAbs := by
  rw [ofInt?, nearest?_eq_none_iff _ Nat.one_pos, Nat.cast_one, div_one, Nat.cast_le]

theorem exists_ofInt? {n : Int} (h : n.natAbs < bound) : ∃ x, ofInt? n = some x :=
  Option.ne_none_iff_exists'.mp (mt ofInt?_eq_none_iff.mp h.not_ge)

theorem isRounding_of_ofInt? {n : Int} {x : Float} (h : ofInt? n = some x) : IsRounding x n := by
  have hrounding := isRounding_of_nearest? Nat.one_pos h
  rwa [Nat.cast_one, div_one, withSign_natAbs] at hrounding

theorem isNearest_of_ofInt? {n : Int} {x : Float} (h : ofInt? n = some x) : IsNearest x n :=
  (isRounding_of_ofInt? h).isNearest

end Binary64

namespace Number

open Binary64

/-- An integer that lies beyond the doubles. -/
def IsHuge (a : Number) : Prop :=
  ∃ n, a = .int n ∧ bound ≤ n.natAbs

theorem isHuge_int {n : Int} : IsHuge (.int n) ↔ bound ≤ n.natAbs := by
  simp [IsHuge]

theorem toFloat_of_isHuge {a : Number} (h : IsHuge a) : a.toFloat = .error .tooLarge := by
  obtain ⟨n, rfl, hn⟩ := h
  rw [toFloat, ofInt?_eq_none_iff.mpr hn]

theorem toFloat_of_not_isHuge {a : Number} (h : ¬ IsHuge a) : ∃ x, a.toFloat = .ok x := by
  cases a with
  | float x => exact ⟨x, rfl⟩
  | int n =>
    obtain ⟨x, hx⟩ := exists_ofInt? (Nat.lt_of_not_le (mt isHuge_int.mpr h))
    exact ⟨x, by rw [toFloat, hx]⟩

theorem not_isHuge_of_isZero {a : Number} (h : a.isZero = true) : ¬ IsHuge a := by
  rintro ⟨n, rfl, hn⟩
  obtain rfl : n = 0 := by simpa [isZero_iff, exactValue?_int] using h
  exact absurd hn (by decide +kernel)

/-- A number that becomes not-a-number is not-a-number. -/
theorem isNaN_iff_of_toFloat {a : Number} {x : Float} (hx : a.toFloat = .ok x) :
    Binary64.isNaN x = true ↔ a.exactValue? = none := by
  have hnan : Binary64.isNaN x = true ↔ (float x).exactValue? = none :=
    (exactValue?_eq_none (n := .float x)).symm
  cases a with
  | float y =>
    cases hx
    exact hnan
  | int n =>
    have hnearest : IsNearest x n := by
      rw [toFloat] at hx
      split at hx
      · next y hy =>
        cases hx
        exact isNearest_of_ofInt? hy
      · cases hx
    rw [exactValue?_int, hnan]
    exact iff_of_false hnearest.exactValue?_ne_none nofun

end Number

end GatedExpr
