import Mathlib
import GatedExpr.Proofs.Builtin.Radix

/-! # Repeated division

The digits of an integer in a base come from dividing its size by the base, and then the quotient,
until nothing is left. Quotients are rounded down. So in a negative base they take turns to be
negative, and need not get smaller: one becomes minus one. What gets smaller is a weight by which a
negative number is lighter than a positive one of its size. Hence division ends in every base but
one and minus one, where only zero has an end, and it breaks off where a remainder has no digit.
-/

namespace GatedExpr

namespace Builtin

variable {n base : Int}

/-! ## One division -/

/-- Rounded down, a quotient is not further from zero than the quotient by two. -/
theorem ediv_between {b : Nat} (hb : 2 ≤ b) (m : Int) :
    (0 ≤ m → 0 ≤ m / b ∧ 2 * (m / b) ≤ m) ∧ (m < 0 → m / b < 0 ∧ m - 1 ≤ 2 * (m / b)) := by
  have hb' : (2 : Int) ≤ b := Int.ofNat_le.mpr hb
  refine ⟨fun hm => ?_, fun hm => ?_⟩
  · have hquotient : 0 ≤ m / b := Int.ediv_nonneg hm (by omega)
    have hless : m / b * 2 ≤ m / b * b := Int.mul_le_mul_of_nonneg_left hb' hquotient
    have hwhole : m / b * b ≤ m := Int.ediv_mul_le m (by omega)
    omega
  · have hhalf : m / 2 * b ≤ m / 2 * 2 := Int.mul_le_mul_of_nonpos_left (by omega) hb'
    have hquotient : m / 2 ≤ m / b := (Int.le_ediv_iff_mul_le (by omega)).mpr (by omega)
    exact ⟨Int.ediv_neg_of_neg_of_pos hm (by omega), by omega⟩

theorem fdiv_natCast (n : Int) (b : Nat) : n.fdiv b = n / b :=
  Int.fdiv_eq_ediv_of_nonneg n (Int.natCast_nonneg b)

theorem fdiv_neg_natCast (n : Int) (b : Nat) : n.fdiv (-b) = (-n) / b := by
  rw [← Int.neg_fdiv_neg, neg_neg, fdiv_natCast]

theorem natAbs_fmod_lt (hbase : base ≠ 0) (n : Int) : (n.fmod base).natAbs < base.natAbs := by
  obtain ⟨b, rfl | rfl⟩ := Int.eq_nat_or_neg base
  · have := Int.fmod_nonneg_of_pos n (by omega : (0 : Int) < b)
    have := Int.fmod_lt_of_pos n (by omega : (0 : Int) < b)
    omega
  · have hneg : n.fmod (-b) = -(-n).fmod b := by
      rw [← Int.neg_fmod_neg, neg_neg]
    have := Int.fmod_nonneg_of_pos (-n) (by omega : (0 : Int) < b)
    have := Int.fmod_lt_of_pos (-n) (by omega : (0 : Int) < b)
    omega

/-- Numbers that come up in a base. They are negative in negative bases only. -/
def ComesUp (base n : Int) : Prop :=
  n < 0 → base < 0

theorem fdiv_cases (hbase : 2 ≤ base.natAbs) (h : ComesUp base n) :
    0 ≤ n ∧ 0 < base ∧ 0 ≤ n.fdiv base ∧ 2 * n.fdiv base ≤ n ∨
      0 < n ∧ base < 0 ∧ n.fdiv base < 0 ∧ -n - 1 ≤ 2 * n.fdiv base ∨
      n ≤ 0 ∧ base < 0 ∧ 0 ≤ n.fdiv base ∧ 2 * n.fdiv base ≤ -n := by
  unfold ComesUp at h
  obtain ⟨b, rfl | rfl⟩ := Int.eq_nat_or_neg base
  · have := ediv_between (by omega : 2 ≤ b) n
    rw [fdiv_natCast]
    omega
  · have := ediv_between (by omega : 2 ≤ b) (-n)
    rw [fdiv_neg_natCast]
    omega

theorem ComesUp.fdiv (hbase : 2 ≤ base.natAbs) (h : ComesUp base n) :
    ComesUp base (n.fdiv base) := by
  have := fdiv_cases hbase h
  unfold ComesUp
  omega

/-- Twice the size of a number, and one less if it is negative. -/
def weight (n : Int) : Nat :=
  if n < 0 then 2 * n.natAbs - 1 else 2 * n.natAbs

theorem weight_fdiv_le (hbase : 2 ≤ base.natAbs) (h : ComesUp base n) :
    weight (n.fdiv base) ≤ n.natAbs := by
  have := fdiv_cases hbase h
  unfold weight
  split <;> omega

theorem weight_fdiv_lt (hbase : 2 ≤ base.natAbs) (h : ComesUp base n) (hn : n ≠ 0) :
    weight (n.fdiv base) < weight n := by
  have := fdiv_cases hbase h
  unfold weight
  split_ifs <;> omega

/-! ## Digits of remainders -/

/-- Remainders that a digit stands for. -/
def HasDigit (remainder : Int) : Prop :=
  -36 ≤ remainder ∧ remainder ≤ 35

theorem exists_radixDigit {r : Int} (h : HasDigit r) : ∃ digit, radixDigit r = .ok digit := by
  unfold HasDigit at h
  unfold radixDigit
  split_ifs
  · exact ⟨_, rfl⟩
  · exact ⟨_, rfl⟩
  · omega

theorem radixDigit_eq_error {r : Int} (h : ¬ HasDigit r) :
    radixDigit r = .error .digitOutOfRange := by
  unfold HasDigit at h
  rw [radixDigit, if_neg (by omega), if_neg (by omega)]

theorem hasDigit_fmod (hbase : base ≠ 0) (h : base.natAbs ≤ 36) (n : Int) :
    HasDigit (n.fmod base) := by
  have := natAbs_fmod_lt hbase n
  unfold HasDigit
  omega

/-! ## All divisions -/

/-- A number is divided by the base again and again, each time with a digit put before those that
are written already. The numbers that are divided come in order, and then how it ends. -/
inductive DigitRun (base : Int) : Int → List Char → List Int → Except Fault (List Char) → Prop where

  | ended {written : List Char} : DigitRun base 0 written [] (.ok written)

  | undivided {n : Int} {written : List Char} : base = 0 → n ≠ 0 →
      DigitRun base n written [n] (.error (.number .zeroDivisor))

  | digitless {n : Int} {written : List Char} {fault : Fault} : base ≠ 0 → n ≠ 0 →
      radixDigit (n.fmod base) = .error fault → DigitRun base n written [n] (.error fault)

  | onward {n : Int} {written : List Char} {digit : Char} {divided : List Int}
      {outcome : Except Fault (List Char)} : base ≠ 0 → n ≠ 0 →
      radixDigit (n.fmod base) = .ok digit →
      DigitRun base (n.fdiv base) (digit :: written) divided outcome →
      DigitRun base n written (n :: divided) outcome

namespace DigitRun

variable {written : List Char} {divided others : List Int}
  {outcome other : Except Fault (List Char)}

theorem unique (h : DigitRun base n written divided outcome)
    (h' : DigitRun base n written others other) : others = divided ∧ other = outcome := by
  induction h generalizing others with
  | ended =>
    cases h' with
    | ended => exact ⟨rfl, rfl⟩
    | undivided _ hn | digitless _ hn | onward _ hn => exact absurd rfl hn
  | undivided hbase hn =>
    cases h' with
    | ended => exact absurd rfl hn
    | undivided => exact ⟨rfl, rfl⟩
    | digitless hbase' | onward hbase' => exact absurd hbase hbase'
  | digitless hbase hn hdigit =>
    cases h' with
    | ended => exact absurd rfl hn
    | undivided hbase' => exact absurd hbase' hbase
    | digitless _ _ hdigit' =>
      cases hdigit.symm.trans hdigit'
      exact ⟨rfl, rfl⟩
    | onward _ _ hdigit' => cases hdigit.symm.trans hdigit'
  | onward hbase hn hdigit _ ih =>
    cases h' with
    | ended => exact absurd rfl hn
    | undivided hbase' => exact absurd hbase' hbase
    | digitless _ _ hdigit' => cases hdigit.symm.trans hdigit'
    | onward _ _ hdigit' hrest =>
      cases hdigit.symm.trans hdigit'
      obtain ⟨rfl, rfl⟩ := ih hrest
      exact ⟨rfl, rfl⟩

/-- Division in a base of a size of two or more comes to an end, since it lowers the weight. -/
theorem exists_of_two_le (hbase : 2 ≤ base.natAbs) (h : ComesUp base n) (written : List Char) :
    ∃ divided outcome, DigitRun base n written divided outcome := by
  -- The size would not do: in base -2 one is followed by minus one.
  induction hw : weight n using Nat.strong_induction_on generalizing n written with
  | _ w ih =>
    subst hw
    by_cases hn : n = 0
    · subst hn
      exact ⟨_, _, .ended⟩
    by_cases hr : HasDigit (n.fmod base)
    · obtain ⟨digit, hdigit⟩ := exists_radixDigit hr
      obtain ⟨divided, outcome, hrest⟩ :=
        ih _ (weight_fdiv_lt hbase h hn) (h.fdiv hbase) (digit :: written) rfl
      exact ⟨_, _, .onward (by omega) hn hdigit hrest⟩
    · exact ⟨_, _, .digitless (by omega) hn (radixDigit_eq_error hr)⟩

/-- Division by one or minus one leaves the size of a number as it is. -/
theorem eq_zero (h : DigitRun base n written divided outcome) (hbase : base.natAbs = 1) :
    n = 0 := by
  induction h with
  | ended => rfl
  | undivided hzero => omega
  | @digitless n _ _ hne _ hdigit =>
    obtain ⟨digit, hdigit'⟩ := exists_radixDigit (hasDigit_fmod hne (by omega) n)
    cases hdigit'.symm.trans hdigit
  | @onward n _ _ _ _ _ hn _ _ ih =>
    exfalso
    have hsize : (n.fdiv base).natAbs = n.natAbs := by
      obtain rfl | rfl := Int.natAbs_eq_iff.mp hbase
      · rw [fdiv_natCast, Nat.cast_one, Int.ediv_one]
      · rw [fdiv_neg_natCast, Nat.cast_one, Int.ediv_one, Int.natAbs_neg]
    omega

/-- An integer that is not negative is divided until there is an end in every base but one and minus
one, and there as well if it is zero. -/
theorem exists_iff (size : Nat) : (∃ divided outcome, DigitRun base size written divided outcome) ↔
    size = 0 ∨ base.natAbs ≠ 1 := by
  constructor
  · rintro ⟨divided, outcome, h⟩
    by_contra! hne
    exact hne.1 (Int.natCast_eq_zero.mp (h.eq_zero hne.2))
  · intro h
    rcases Nat.eq_zero_or_pos size with rfl | hsize
    · exact ⟨_, _, .ended⟩
    by_cases hbase : base = 0
    · exact ⟨_, _, .undivided hbase (by omega)⟩
    · exact exists_of_two_le (by omega) (fun hneg => by omega) written

/-- The number of divisions is no more than about the number of bits: the weight is halved. -/
theorem length_le (h : DigitRun base n written divided outcome) (hbase : 2 ≤ base.natAbs)
    (hn : ComesUp base n) {k : Nat} (hk : weight n ≤ 2 ^ k) : divided.length ≤ k + 1 := by
  induction h generalizing k with
  | ended => exact Nat.zero_le _
  | undivided | digitless => exact Nat.succ_le_succ (Nat.zero_le _)
  | @onward n _ _ _ _ _ hne _ hrest ih =>
    have hle := weight_fdiv_le hbase hn
    have hlt := weight_fdiv_lt hbase hn hne
    cases k with
    | zero =>
      -- Only zero and minus one are as light as this, and minus one is followed by zero.
      have hzero : n.fdiv base = 0 := by
        unfold weight at hlt hk
        split_ifs at hlt hk <;> omega
      rw [hzero] at hrest
      cases hrest with
      | ended => exact le_rfl
      | undivided _ hne | digitless _ hne | onward _ hne => exact absurd rfl hne
    | succ k =>
      have hhalf : n.natAbs ≤ 2 ^ k := by
        rw [Nat.pow_succ] at hk
        unfold weight at hk
        split_ifs at hk <;> omega
      exact Nat.succ_le_succ (ih (hn.fdiv hbase) (hle.trans hhalf))

/-- What is written is what these divisions end with, if there are rounds for all of them. -/
theorem radixDigits_eq (h : DigitRun base n written divided outcome) (hbase : base ≠ 0)
    {rounds : Nat} (hrounds : divided.length ≤ rounds) :
    radixDigits base rounds n written = outcome := by
  induction h generalizing rounds with
  | ended => exact radixDigits_zero base rounds _
  | undivided hzero => exact absurd hzero hbase
  | digitless _ hn hdigit =>
    obtain ⟨rounds, rfl⟩ := Nat.exists_eq_add_of_le' hrounds
    rw [List.length_singleton, radixDigits, if_neg hn, hdigit]
    rfl
  | onward _ hn hdigit _ ih =>
    obtain ⟨rounds, rfl⟩ := Nat.exists_eq_add_of_le' hrounds
    rw [List.length_cons, ← Nat.add_assoc, radixDigits, if_neg hn, hdigit]
    exact ih (by omega)

/-- There are digits at the end if one stands for each remainder, and otherwise the first remainder
without a digit is the last one. -/
theorem ends (h : DigitRun base n written divided outcome) (hbase : base ≠ 0) :
    (∃ digits, outcome = .ok digits) ∧ (∀ m ∈ divided, HasDigit (m.fmod base)) ∨
      outcome = .error .digitOutOfRange ∧ ∃ before m, divided = before ++ [m] ∧
        (∀ k ∈ before, HasDigit (k.fmod base)) ∧ ¬ HasDigit (m.fmod base) := by
  induction h with
  | ended => exact .inl ⟨⟨_, rfl⟩, nofun⟩
  | undivided hzero => exact absurd hzero hbase
  | @digitless n _ _ _ _ hdigit =>
    have hr : ¬ HasDigit (n.fmod base) := by
      intro hr
      obtain ⟨digit, hdigit'⟩ := exists_radixDigit hr
      cases hdigit.symm.trans hdigit'
    cases hdigit.symm.trans (radixDigit_eq_error hr)
    exact .inr ⟨rfl, [], n, rfl, nofun, hr⟩
  | @onward n _ _ _ _ _ _ hdigit _ ih =>
    have hr : HasDigit (n.fmod base) := by
      by_contra hr
      cases hdigit.symm.trans (radixDigit_eq_error hr)
    rcases ih with ⟨hok, hall⟩ | ⟨herror, before, m, rfl, hbefore, hm⟩
    · exact .inl ⟨hok, List.forall_mem_cons.mpr ⟨hr, hall⟩⟩
    · exact .inr ⟨herror, n :: before, m, rfl, List.forall_mem_cons.mpr ⟨hr, hbefore⟩, hm⟩

theorem outcome_of_eq_zero (h : DigitRun base n written divided outcome) (hbase : base = 0)
    (hn : n ≠ 0) : outcome = .error (.number .zeroDivisor) := by
  cases h with
  | ended => exact absurd rfl hn
  | undivided => rfl
  | digitless hne | onward hne => exact absurd hbase hne

/-- No more divisions are made than there are rounds for. -/
theorem length_le_radixRounds (h : DigitRun base n.natAbs written divided outcome)
    (hbase : 2 ≤ base.natAbs) : divided.length ≤ radixRounds n := by
  have hweight : weight n.natAbs ≤ 2 ^ (n.natAbs.log2 + 2) := by
    have hbits : n.natAbs < 2 ^ (n.natAbs.log2 + 1) := Nat.lt_log2_self
    rw [Nat.pow_succ]
    unfold weight
    split <;> omega
  have hlength := h.length_le hbase (fun hneg => by omega) hweight
  rw [radixRounds]
  omega

/-- An integer other than zero is written with a minus, if it is negative, and the digits of its
size. -/
theorem writeRadix_eq (h : DigitRun base n.natAbs [] divided outcome) (hn : n ≠ 0) :
    writeRadix n base = outcome.map fun digits =>
      String.ofList (if n < 0 then '-' :: digits else digits) := by
  have hsize : (n.natAbs : Int) ≠ 0 := by omega
  have hdirect : (base = 10 || n = 0) = decide (base = 10) := by simp [hn]
  by_cases hzero : base = 0
  · rw [h.outcome_of_eq_zero hzero hsize, hzero]
    rw [writeRadix, if_neg (by simp [hn]), if_pos rfl]
    rfl
  have hbase : 2 ≤ base.natAbs := by
    by_contra hless
    exact hsize (h.eq_zero (by omega))
  have hwritten := h.radixDigits_eq hzero (h.length_le_radixRounds hbase)
  by_cases hten : base = 10
  · -- Integers are written in this base without the loop, which yields the same digits.
    obtain rfl : base = (10 : Nat) := hten
    have hdigits : radixDigits (10 : Nat) (radixRounds n) n.natAbs [] = _ :=
      radixDigits_natCast (by decide) (by omega) (natAbs_lt_two_pow_radixRounds n) []
    rw [← hwritten, hdigits, List.append_nil, Builtin.writeRadix_eq (by decide) n]
    rfl
  · rw [writeRadix, hdirect, if_neg (by simpa using hten), if_neg hzero, hwritten]
    cases outcome <;> rfl

end DigitRun

end Builtin

namespace Library

open Builtin (DigitRun HasDigit)

theorem toString_of_run {n base : Int} {divided : List Int} {outcome : Except Fault (List Char)}
    (hn : n.natAbs < 2 ^ 1023) (h : DigitRun base n.natAbs [] divided outcome) (hne : n ≠ 0)
    (i j : Identity) :
    toString.apply [.number i (.int n), .number j (.int base)] =
      Eval.ofExcept outcome >>= fun digits =>
        pure (.text (String.ofList (if n < 0 then '-' :: digits else digits))) := by
  have hwritten : Builtin.toString (.number i (.int n)) (.number j (.int base)) = _ :=
    (Builtin.toString_int (hn.trans (by decide +kernel)) i j base).trans (h.writeRadix_eq hne)
  change Eval.ofExcept (Builtin.toString (.number i (.int n)) (.number j (.int base))) >>=
    (fun text => pure (Value.text text)) = _
  rw [hwritten]
  cases outcome <;> rfl

/-- The divisions that yield the digits of an integer come to an end in every base but one and minus
one. There is one run of them, and what it ends with is written. It breaks off only at a remainder
that is none of those from -36 to 35, which does not come up in bases of a size from 2 to 36. -/
theorem digits_end_iff {n : Int} (hn : n.natAbs < 2 ^ 1023) (base : Int) (i j : Identity) :
    ((∃ divided outcome, DigitRun base n.natAbs [] divided outcome) ↔ n = 0 ∨ base.natAbs ≠ 1) ∧
      ∀ divided outcome, DigitRun base n.natAbs [] divided outcome →
        (∀ others other, DigitRun base n.natAbs [] others other →
          others = divided ∧ other = outcome) ∧
        (n ≠ 0 → toString.apply [.number i (.int n), .number j (.int base)] =
          Eval.ofExcept outcome >>= fun digits =>
            pure (.text (String.ofList (if n < 0 then '-' :: digits else digits)))) ∧
        (base ≠ 0 →
          (∃ digits, outcome = .ok digits) ∧ (∀ m ∈ divided, HasDigit (m.fmod base)) ∨
          outcome = .error .digitOutOfRange ∧ ∃ before m, divided = before ++ [m] ∧
            (∀ k ∈ before, HasDigit (k.fmod base)) ∧ ¬ HasDigit (m.fmod base)) ∧
        (2 ≤ base.natAbs → base.natAbs ≤ 36 →
          (∃ digits, outcome = .ok digits) ∧ ∀ m ∈ divided, HasDigit (m.fmod base)) := by
  refine ⟨?_, fun divided outcome h =>
    ⟨fun others other h' => h.unique h', fun hne => toString_of_run hn h hne i j, h.ends, ?_⟩⟩
  · rw [DigitRun.exists_iff, Int.natAbs_eq_zero]
  · intro htwo hlast
    have hbase : base ≠ 0 := by omega
    rcases h.ends hbase with hok | ⟨-, _, m, -, -, hm⟩
    · exact hok
    · exact absurd (Builtin.hasDigit_fmod hbase hlast m) hm

/-- In base -2 every remainder but zero is -1, and one is followed by minus one. -/
theorem digits_end_iff_minusTwo :
    (5 : Int).natAbs < 2 ^ 1023 ∧ DigitRun (-2) 5 [] [5, -3, 1, -1] (.ok ['z', 'z', 'z', 'z']) ∧
      toString.apply [.number 1 (.int 5), .number 2 (.int (-2))] = pure (.text "zzzz") := by
  have hn : (5 : Int).natAbs < 2 ^ 1023 := by decide +kernel
  obtain ⟨hends, hruns⟩ := digits_end_iff hn (-2) 1 2
  obtain ⟨divided, outcome, h⟩ := hends.mpr (.inr (by decide))
  have hrun : DigitRun (-2) 5 [] [5, -3, 1, -1] (.ok ['z', 'z', 'z', 'z']) :=
    .onward (by decide) (by decide) rfl <| .onward (by decide) (by decide) rfl <|
      .onward (by decide) (by decide) rfl <| .onward (by decide) (by decide) rfl .ended
  obtain ⟨hunique, htext, -⟩ := hruns divided outcome h
  obtain ⟨rfl, rfl⟩ := hunique _ _ hrun
  exact ⟨hn, h, htext (by decide)⟩

end Library

end GatedExpr
