import Mathlib.Data.Nat.Digits.Lemmas
import GatedExpr.Text.Case
import GatedExpr.Text.Digit

/-! # Digits of a base

Digits are ASCII digits and letters. Lower case makes ASCII letters of ASCII letters only, apart
from the Kelvin sign, whose lower case is the letter k.
-/

namespace GatedExpr.Text

theorem forall_ascii {P : Char → Prop} (h : ∀ n : Fin 128, P (Char.ofNat n)) {c : Char}
    (hc : c.toNat < 128) : P c := by
  have := h ⟨c.toNat, hc⟩
  rwa [Char.ofNat_toNat] at this

theorem ascii_of_isSome_asciiDigitValue? {c : Char} (h : (asciiDigitValue? c).isSome = true) :
    c.toNat < 128 := by
  by_contra hlt
  have hbeyond (d : Char) (hd : d.toNat < 128) : decide (c ≤ d) = false := by
    rw [decide_eq_false_iff_not, Char.le_def, UInt32.le_iff_toNat_le]
    exact fun hle => hlt (lt_of_le_of_lt hle hd)
  simp [asciiDigitValue?, hbeyond '9' (by decide), hbeyond 'z' (by decide),
    hbeyond 'Z' (by decide)] at h

/-- Digits of a smaller base, or of any other selection, are ASCII characters, too. -/
theorem ascii_of_isSome_filter {c : Char} {p : Nat → Bool}
    (h : ((asciiDigitValue? c).filter p).isSome = true) : c.toNat < 128 := by
  rw [Option.isSome_filter] at h
  exact ascii_of_isSome_asciiDigitValue? (Option.isSome_of_any h)

theorem asciiDigitValue?_of_not_ascii {c : Char} (h : 128 ≤ c.toNat) :
    asciiDigitValue? c = none := by
  rw [← Option.not_isSome_iff_eq_none]
  exact fun hsome => absurd (ascii_of_isSome_asciiDigitValue? hsome) h.not_gt

/-! ## Lower case -/

/-- The sign for kelvins, which is not the letter K. -/
def kelvinSign : Char := '\u212a'

theorem asciiDigitValue?_toLower {c : Char} (h : c.toNat < 128) :
    asciiDigitValue? c.toLower = asciiDigitValue? c :=
  forall_ascii (P := fun c => asciiDigitValue? c.toLower = asciiDigitValue? c) (by decide +kernel) h

/-- No other letter beyond ASCII has a digit for its lower case. -/
theorem asciiDigitValue?_of_lowerChar {c d : Char} (hc : 128 ≤ c.toNat) (hkelvin : c ≠ kelvinSign)
    (h : lowerChar c = [d]) : asciiDigitValue? d = none := by
  have hruns : ∀ run ∈ lowerRuns, run.first = 0x212a ∧ run.last = 0x212a ∨
      128 ≤ run.first + run.delta := by decide +kernel
  rw [lowerChar, if_neg hc.not_gt, mapCase] at h
  split at h
  · next codes hcodes =>
    simp only [lowerExpansions, List.lookup_cons, List.lookup_nil] at hcodes
    split at hcodes
    · cases hcodes
      simp at h
    · cases hcodes
  · split at h
    · next run hrun =>
      cases h
      have hcovers := List.find?_some hrun
      simp only [CaseRun.covers, Bool.and_eq_true, decide_eq_true_eq] at hcovers
      rcases hruns run (List.mem_of_find?_eq_some hrun) with ⟨hfirst, hlast⟩ | hlow
      · refine absurd ?_ hkelvin
        rw [← Char.toNat_inj]
        change c.toNat = 0x212a
        omega
      · obtain ⟨code, hcode⟩ : ∃ code, ((c.toNat : Int) + run.delta).toNat = code := ⟨_, rfl⟩
        rw [CaseRun.apply, hcode]
        by_cases hvalid : code.isValidChar
        · refine asciiDigitValue?_of_not_ascii ?_
          have hsame : (Char.ofNat code).toNat = code := by
            rw [Char.ofNat, dif_pos hvalid]
            rfl
          omega
        · rw [Char.ofNat, dif_neg hvalid]
          rfl
    · cases h
      exact asciiDigitValue?_of_not_ascii hc

/-! ## The digits of a number -/

theorem asciiDigitValue?_digitChar {value : Nat} (h : value < 36) :
    asciiDigitValue? (digitChar value) = some value := by
  have hall : ∀ v : Fin 36, asciiDigitValue? (digitChar v) = some v.val := by decide
  exact hall ⟨value, h⟩

theorem valueOfDigits_eq (base : Nat) (values : List Nat) :
    valueOfDigits base values = Nat.ofDigits base values.reverse := by
  rw [Nat.ofDigits_eq_foldr, List.foldr_reverse, valueOfDigits]
  congr 1
  funext total value
  rw [Nat.cast_id, Nat.mul_comm, Nat.add_comm]

end GatedExpr.Text
