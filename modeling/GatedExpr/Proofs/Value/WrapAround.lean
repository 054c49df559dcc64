import Mathlib
import GatedExpr.Operator
import GatedExpr.Proofs.Number.Decimals

/-! # Wrapping around

Bitwise operators see a number as a signed word of 32 bits: what truncation toward zero leaves of
it, modulo `2 ^ 32`. The complement flips the bits of that word, and flipping them twice gives the
word itself.
-/

namespace GatedExpr

namespace Number

/-- The integer next to a rational on the side of zero. -/
def towardZero (q : ℚ) : Int :=
  if 0 ≤ q then ⌊q⌋ else ⌈q⌉

theorem towardZero_intCast (n : Int) : towardZero n = n := by
  simp [towardZero]

theorem towardZero_div (n : Int) (d : Nat) : towardZero (n / d) = n.tdiv d := by
  unfold towardZero
  rcases le_or_gt 0 n with hn | hn
  · have hnonneg : (0 : ℚ) ≤ n / d := div_nonneg (by exact_mod_cast hn) d.cast_nonneg
    rw [if_pos hnonneg, Rat.floor_intCast_div_natCast, Int.tdiv_eq_ediv_of_nonneg hn]
  rcases d.eq_zero_or_pos with rfl | hd
  · simp
  have hneg : (n : ℚ) / d < 0 :=
    div_neg_of_neg_of_pos (by exact_mod_cast hn) (by exact_mod_cast hd)
  rw [if_neg hneg.not_ge, Rat.ceil_intCast_div_natCast, ← Int.tdiv_eq_ediv_of_nonneg (by omega),
    Int.neg_tdiv, neg_neg]

theorem truncate_dyadic (a : Binary64.Dyadic) : a.truncate = towardZero a.toRat := by
  have hpower : (2 : ℚ) ^ a.shift = ((2 ^ a.shift : Nat) : ℚ) := by push_cast; rfl
  rw [Binary64.Dyadic.truncate, Binary64.Dyadic.toRat, Binary64.twoTo_eq, hpower, towardZero_div]

/-- Truncation of a number that stands for a rational goes toward zero. -/
theorem truncate_rational {n : Number} {q : ℚ} (h : n.exactValue? = some (.rational q)) :
    n.truncate = .ok (towardZero q) := by
  cases n with
  | int n =>
    rw [exactValue?_int] at h
    cases h
    rw [truncate, towardZero_intCast]
  | float x =>
    obtain ⟨negative, mantissa, exponent, hx, rfl⟩ := exists_finite h
    simp only [truncate, hx, truncate_dyadic, Binary64.toRat_dyadic]

/-- Numbers that stand for no rational have no integer next to them. -/
theorem truncate_of_isNaN_or_isInfinite {n : Number} (h : n.isNaN = true ∨ n.isInfinite = true) :
    ∃ fault, n.truncate = .error fault := by
  cases n with
  | int n => simp [isNaN, isInfinite] at h
  | float x =>
    cases hx : Binary64.ofFloat x with
    | nan => exact ⟨.notANumber, by simp only [truncate, hx]⟩
    | infinite negative => exact ⟨.infinite, by simp only [truncate, hx]⟩
    | finite negative mantissa exponent =>
      simp [isNaN, isInfinite, Binary64.isNaN, Binary64.isInfinite, hx] at h

theorem exists_rational {n : Number} (hnan : n.isNaN ≠ true) (hinfinite : n.isInfinite ≠ true) :
    ∃ q, n.exactValue? = some (.rational q) := by
  cases h : n.exactValue? with
  | none => exact absurd (exactValue?_eq_none.mp h) hnan
  | some exact =>
    cases exact with
    | infinite negative => exact absurd (isInfinite_iff.mpr ⟨negative, h⟩) hinfinite
    | rational q => exact ⟨q, rfl⟩

end Number

/-- The integers that a signed word of 32 bits holds. -/
def InWord (n : Int) : Prop :=
  -2 ^ 31 ≤ n ∧ n < 2 ^ 31

namespace InWord

theorem bmod (n : Int) : InWord (n.bmod (twoTo 32)) := by
  rw [Binary64.twoTo_eq]
  have hlow := Int.le_bmod (x := n) (m := 2 ^ 32) (by decide)
  have hhigh := Int.bmod_lt (x := n) (m := 2 ^ 32) (by decide)
  constructor <;> omega

theorem bmod_eq {n : Int} (h : InWord n) : n.bmod (twoTo 32) = n := by
  obtain ⟨hlow, hhigh⟩ := h
  exact Int.bmod_eq_of_le (by rw [Binary64.twoTo_eq]; omega) (by rw [Binary64.twoTo_eq]; omega)

/-- A word is the only one in its class modulo `2 ^ 32`. -/
theorem eq_bmod_iff {m n : Int} :
    m = n.bmod (twoTo 32) ↔ InWord m ∧ m ≡ n [ZMOD 2 ^ 32] := by
  have hbmod (i : Int) : i.bmod (twoTo 32) ≡ i [ZMOD 2 ^ 32] := by
    have := Int.bmod_emod (x := i) (m := twoTo 32)
    rwa [Binary64.twoTo_eq] at this
  constructor
  · rintro rfl
    exact ⟨bmod n, hbmod n⟩
  · rintro ⟨hword, hmod⟩
    have hmod' : m % (twoTo 32 : Nat) = n % (twoTo 32 : Nat) := by
      rw [Binary64.twoTo_eq]
      exact hmod
    rw [← hword.bmod_eq, ← Int.emod_bmod m, hmod', Int.emod_bmod]

theorem complement {n : Int} (h : InWord n) : InWord (-1 - n) := by
  obtain ⟨hlow, hhigh⟩ := h
  constructor <;> omega

/-- Flipping the bits of a word. -/
theorem toInt_not {n : Int} (h : InWord n) : (~~~BitVec.ofInt 32 n).toInt = -1 - n := by
  obtain ⟨hlow, hhigh⟩ := h
  rw [BitVec.toInt_not, BitVec.toNat_ofInt, Int.bmod_def]
  omega

end InWord

namespace Value

theorem inWord_toInt32 (value : Value) : InWord value.toInt32 := by
  unfold toInt32
  split
  · exact .bmod _
  · exact ⟨by decide, by decide⟩

theorem toInt32_int {n : Int} (h : InWord n) : (Value.int n).toInt32 = n :=
  h.bmod_eq

end Value

namespace UnaryOperator

/-- The complement of the complement. -/
def twice (value : Value) : Except NumberFault Value :=
  (complement.apply value).bind complement.apply

theorem twice_eq (value : Value) : twice value = .ok (.int value.toInt32) := by
  have hword := value.inWord_toInt32.complement
  simp only [twice, apply, Except.bind, Value.toInt32_int hword]
  congr 2
  omega

/-- Bitwise operators see a number as the word of 32 bits that is congruent to it after truncation
toward zero, and see zero where there is nothing to truncate. The complement flips all bits of the
word, so that the complement of the complement is the word itself. -/
theorem complement_wraps_around (value : Value) :
    (if value.toNumber.isNaN ∨ value.toNumber.isInfinite then value.toInt32 = 0
      else ∃ q, value.toNumber.exactValue? = some (.rational q) ∧
        ∀ m, m = value.toInt32 ↔ InWord m ∧ m ≡ Number.towardZero q [ZMOD 2 ^ 32]) ∧
    complement.apply value = .ok (.int (-1 - value.toInt32)) ∧ InWord (-1 - value.toInt32) ∧
    -1 - value.toInt32 = (~~~BitVec.ofInt 32 value.toInt32).toInt ∧
    twice value = .ok (.int value.toInt32) ∧ (twice value).bind twice = twice value := by
  have hword := value.inWord_toInt32
  refine ⟨?_, rfl, hword.complement, hword.toInt_not.symm, twice_eq value, ?_⟩
  · split
    · next h =>
      obtain ⟨fault, htruncate⟩ := Number.truncate_of_isNaN_or_isInfinite h
      rw [Value.toInt32, htruncate]
    · next h =>
      obtain ⟨hnan, hinfinite⟩ := not_or.mp h
      obtain ⟨q, hq⟩ := Number.exists_rational hnan hinfinite
      refine ⟨q, hq, fun m => ?_⟩
      rw [Value.toInt32, Number.truncate_rational hq]
      exact InWord.eq_bmod_iff
  · rw [twice_eq, Except.bind, twice_eq, Value.toInt32_int hword]

end UnaryOperator

end GatedExpr
