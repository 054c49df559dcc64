import Mathlib
import GatedExpr.Proofs.Builtin.Integers
import GatedExpr.Proofs.Number.Numerals
import GatedExpr.Proofs.Number.Whole

/-! # Writing integers in a base

An integer that is not beyond the doubles is written in a base from 2 to 36 with the digits of its
size, without leading zeros, after a minus if it is negative. Reading that text in the same base
yields the integer.
-/

namespace GatedExpr

namespace Text

variable {base n : Nat}

theorem digits_of_le (hbase : 2 ≤ base) (h : base ≤ n) :
    digits base n = digits base (n / base) ++ [digitChar (n % base)] := by
  conv_lhs => rw [digits, dif_pos ⟨hbase, h⟩]

theorem digits_of_lt (h : n < base) : digits base n = [digitChar n] := by
  rw [digits, dif_neg (by omega)]

/-- The values of the digits of a natural number, most significant first; zero has one. -/
def digitValues (base n : Nat) : List Nat :=
  if n = 0 then [0] else (Nat.digits base n).reverse

theorem digits_eq_map (hbase : 2 ≤ base) (n : Nat) :
    digits base n = (digitValues base n).map digitChar := by
  induction n using digits.induct base with
  | case1 n h ih =>
    have hpositive : 0 < n / base := Nat.div_pos h.2 (by omega)
    have hn : n ≠ 0 := by omega
    rw [digits_of_le hbase h.2, ih, digitValues, digitValues, if_neg hpositive.ne', if_neg hn,
      Nat.digits_def' hbase (Nat.pos_of_ne_zero hn), List.reverse_cons, List.map_append,
      List.map_singleton]
  | case2 n h =>
    rw [digits_of_lt (by omega), digitValues]
    split_ifs with hn
    · rw [hn, List.map_singleton]
    · rw [Nat.digits_of_lt base n hn (by omega), List.reverse_singleton, List.map_singleton]

theorem ofDigits_digitValues (base n : Nat) :
    Nat.ofDigits base (digitValues base n).reverse = n := by
  unfold digitValues
  split_ifs with hn
  · simp [hn]
  · rw [List.reverse_reverse, Nat.ofDigits_digits]

theorem lt_of_mem_digitValues (hbase : 2 ≤ base) {value : Nat} (h : value ∈ digitValues base n) :
    value < base := by
  unfold digitValues at h
  split_ifs at h with hn
  · rw [List.mem_singleton.mp h]
    omega
  · exact Nat.digits_lt_base hbase (List.mem_reverse.mp h)

theorem head?_digitValues (hn : n ≠ 0) {value : Nat}
    (h : (digitValues base n).head? = some value) : value ≠ 0 := by
  rw [digitValues, if_neg hn, List.head?_reverse] at h
  have hne : Nat.digits base n ≠ [] := Nat.digits_ne_nil_iff_ne_zero.mpr hn
  rw [List.getLast?_eq_getLast_of_ne_nil hne, Option.some_inj] at h
  exact h ▸ Nat.getLast_digit_ne_zero base hn

/-- Decimal texts are digits of the base 10. -/
theorem decimal_eq_digits (n : Nat) : decimal n = digits 10 n := by
  have hdigit (d : Nat) (hd : d < 10) : Nat.digitChar d = digitChar d := by
    have hall : ∀ d : Fin 10, Nat.digitChar d = digitChar d := by decide
    exact hall ⟨d, hd⟩
  induction n using digits.induct 10 with
  | case1 n h ih =>
    rw [digits_of_le h.1 h.2, ← ih, decimal, decimal, Nat.toDigits_of_base_le (by decide) h.2,
      hdigit _ (Nat.mod_lt n (by decide))]
  | case2 n h =>
    have hn : n < 10 := by omega
    rw [digits_of_lt hn, decimal, Nat.toDigits_of_lt_base hn, hdigit n hn]

end Text

namespace Builtin

variable {base size : Nat} {digits : List Char}

/-- Digits of a base that write a natural number without leading zeros. -/
structure Writes (base : Nat) (digits : List Char) (size : Nat) : Prop where
  value : ∃ values : List Nat, digits.map (asciiDigitOf? base) = values.map some ∧
    Nat.ofDigits base values.reverse = size
  zero : size = 0 → digits = ['0']
  leading : size ≠ 0 → digits.head? ≠ some '0'

theorem asciiDigitOf?_digitChar (hbase : base ≤ 36) {value : Nat} (h : value < base) :
    asciiDigitOf? base (Text.digitChar value) = some value := by
  rw [asciiDigitOf?, Text.asciiDigitValue?_digitChar (by omega), Option.filter_some,
    if_pos (decide_eq_true h)]

theorem writes_digits (hbase : 2 ≤ base ∧ base ≤ 36) (size : Nat) :
    Writes base (Text.digits base size) size := by
  have hdigit {value : Nat} (h : value ∈ Text.digitValues base size) :
      asciiDigitOf? base (Text.digitChar value) = some value :=
    asciiDigitOf?_digitChar hbase.2 (Text.lt_of_mem_digitValues hbase.1 h)
  rw [Text.digits_eq_map hbase.1]
  refine ⟨⟨_, ?_, Text.ofDigits_digitValues base size⟩, ?_, fun hsize hzero => ?_⟩
  · rw [List.map_map]
    exact List.map_congr_left fun value h => hdigit h
  · rintro rfl
    rfl
  · rw [List.head?_map, Option.map_eq_some_iff] at hzero
    obtain ⟨value, hhead, hvalue⟩ := hzero
    have hvalue' := hdigit (List.mem_of_mem_head? hhead)
    rw [hvalue] at hvalue'
    refine Text.head?_digitValues hsize hhead ?_
    have hfilter := Option.eq_some_of_filter_eq_some hvalue'
    exact (Option.some_inj.mp hfilter).symm

namespace Writes

variable {radix : Int}

theorem ne_nil (h : Writes base digits size) : digits ≠ [] := by
  rintro rfl
  obtain ⟨values, hvalues, hsize⟩ := h.value
  obtain rfl : values = [] := by simpa using hvalues
  exact List.cons_ne_nil _ _ (h.zero hsize.symm).symm

theorem isSome_of_mem (h : Writes base digits size) {c : Char} (hc : c ∈ digits) :
    (asciiDigitOf? base c).isSome = true := by
  obtain ⟨values, hvalues, -⟩ := h.value
  exact isSome_of_mem_run hvalues hc

/-- Since there are no leading zeros, no digits look like the mark of hexadecimal numbers. -/
theorem hasHexMark (h : Writes base digits size) : Numeral.hasHexMark digits = false := by
  rcases Nat.eq_zero_or_pos size with hzero | hpositive
  · rw [h.zero hzero]
    rfl
  · unfold Numeral.hasHexMark
    split
    · exact absurd rfl (h.leading hpositive.ne')
    · rfl

theorem beginsWith (h : Writes base digits size) (hbase : 2 ≤ base ∧ base ≤ 36) :
    BeginsWith base digits (some size) := by
  obtain ⟨values, hvalues, rfl⟩ := h.value
  exact .digits (by omega) (List.append_nil digits).symm h.ne_nil hvalues nofun

/-- Digits of a base are neither blanks nor signs. -/
theorem takeSign_trim (h : Writes base digits size) {negative : Bool} :
    Numeral.takeSign (Text.trim (if negative then '-' :: digits else digits)) =
      (negative, digits) := by
  have hdigit {P : Char → Prop} (hP : ∀ n : Fin 128,
      (Text.asciiDigitValue? (Char.ofNat n)).isSome = true → P (Char.ofNat n)) {c : Char}
      (hc : c ∈ digits) : P c := by
    have hsome := h.isSome_of_mem hc
    rw [asciiDigitOf?, Option.isSome_filter] at hsome
    exact Text.forall_ascii (P := fun c => (Text.asciiDigitValue? c).isSome = true → P c) hP
      (ascii_of_asciiDigitOf? (h.isSome_of_mem hc)) (Option.isSome_of_any hsome)
  have hblank (c : Char) (hc : c ∈ digits) : Text.isBlank c = false :=
    hdigit (P := fun c => Text.isBlank c = false) (by decide +kernel) hc
  have hblank' : ∀ c ∈ (if negative then '-' :: digits else digits), Text.isBlank c = false := by
    cases negative with
    | false => exact hblank
    | true => exact List.forall_mem_cons.mpr ⟨by decide +kernel, hblank⟩
  rw [Text.trim, Text.trimLeft, Numeral.dropWhile_of_forall hblank', Text.trimRight,
    Numeral.dropLastWhile_of_forall hblank']
  cases negative with
  | true => rfl
  | false =>
    exact Numeral.takeSign_of_forall fun c hc =>
      hdigit (P := fun c => c ≠ '+' ∧ c ≠ '-') (by decide +kernel) (List.mem_of_mem_head? hc)

/-- The text of an integer is read as that integer. -/
theorem parseIntText (h : Writes base digits size) (hbase : 2 ≤ base ∧ base ≤ 36)
    (negative : Bool) :
    Builtin.parseIntText (if negative then '-' :: digits else digits) (some base) =
      .ok (.int (if negative then -size else size)) := by
  have hunmarked : isMarked digits (some (base : Int)) = false := by
    rw [isMarked, h.hasHexMark, Bool.and_false]
  have hbase' : baseInEffect digits (some (base : Int)) = base := by
    simp only [baseInEffect, hunmarked, Bool.false_eq_true, if_false]
    split
    · next hsome => cases hsome
    · next hsome => exact absurd (Option.some_inj.mp hsome) (by omega)
    · next hsome => exact (Option.some_inj.mp hsome).symm
  have hafter : afterMark digits (some (base : Int)) = digits := by
    rw [afterMark, hunmarked, if_neg Bool.false_ne_true]
  refine parseIntText_of_reads ⟨some size, ?_, ?_⟩ ?_
  · rw [h.takeSign_trim, hbase', hafter]
    exact h.beginsWith hbase
  · rw [h.takeSign_trim]
    rfl
  · rw [MeetsKelvin, h.takeSign_trim, hbase', hafter]
    rintro ⟨-, -, before, rest, htext, -⟩
    have hdigit := h.isSome_of_mem (c := Text.kelvinSign) (by rw [htext]; simp)
    rw [asciiDigitOf?_kelvinSign] at hdigit
    cases hdigit

end Writes

/-! ## Writing -/

theorem radixDigit_natCast {value : Nat} (h : value < 36) :
    radixDigit value = .ok (Text.digitChar value) := by
  rw [radixDigit, if_pos (by omega), Int.toNat_natCast]

theorem radixDigits_zero (base : Int) (rounds : Nat) (written : List Char) :
    radixDigits base rounds 0 written = .ok written := by
  cases rounds with
  | zero => rfl
  | succ rounds => rw [radixDigits, if_pos rfl]

/-- Enough rounds write all digits of a natural number. -/
theorem radixDigits_natCast (hbase : 2 ≤ base ∧ base ≤ 36) {rounds n : Nat} (hn : n ≠ 0)
    (hrounds : n < 2 ^ rounds) (written : List Char) :
    radixDigits base rounds n written = .ok (Text.digits base n ++ written) := by
  induction rounds generalizing n written with
  | zero => omega
  | succ rounds ih =>
    have hdigit : radixDigit ((n : Int).fmod base) = .ok (Text.digitChar (n % base)) := by
      rw [Int.fmod_eq_emod_of_nonneg _ (Int.natCast_nonneg base), ← Int.natCast_emod]
      exact radixDigit_natCast ((Nat.mod_lt n (by omega)).trans_le hbase.2)
    have hquotient : (n : Int).fdiv base = (n / base : Nat) := by
      rw [Int.fdiv_eq_ediv_of_nonneg _ (Int.natCast_nonneg base), Int.natCast_div]
    rw [radixDigits, if_neg (by omega), hdigit, hquotient]
    change radixDigits base rounds (n / base : Nat) (Text.digitChar (n % base) :: written) = _
    rcases Nat.lt_or_ge n base with hlast | hmore
    · rw [Nat.div_eq_of_lt hlast, Nat.mod_eq_of_lt hlast, Nat.cast_zero, radixDigits_zero,
        Text.digits_of_lt hlast]
      rfl
    · have hpositive : 0 < n / base := Nat.div_pos hmore (by omega)
      have hless : n / base < 2 ^ rounds :=
        (Nat.div_le_div_left hbase.1 Nat.two_pos).trans_lt (by omega)
      rw [ih hpositive.ne' hless, Text.digits_of_le hbase.1 hmore, List.append_assoc]
      rfl

theorem natAbs_lt_two_pow_radixRounds (n : Int) : n.natAbs < 2 ^ radixRounds n :=
  Nat.lt_log2_self.trans (Nat.pow_lt_pow_right Nat.one_lt_two (by rw [radixRounds]; omega))

/-- An integer is written with the digits of its size. -/
theorem writeRadix_eq (hbase : 2 ≤ base ∧ base ≤ 36) (n : Int) :
    writeRadix n base = .ok (String.ofList
      (if n < 0 then '-' :: Text.digits base n.natAbs else Text.digits base n.natAbs)) := by
  have hdirect : (decide ((base : Int) = 10) || decide (n = 0)) = true ↔ base = 10 ∨ n = 0 := by
    rw [Bool.or_eq_true, decide_eq_true_eq, decide_eq_true_eq]
    omega
  by_cases h : base = 10 ∨ n = 0
  · have hdigits : Text.decimal n.natAbs = Text.digits base n.natAbs := by
      rw [Text.decimal_eq_digits]
      rcases h with rfl | rfl
      · rfl
      · rw [Int.natAbs_zero, Text.digits_of_lt (by decide), Text.digits_of_lt (by omega)]
    rw [writeRadix, if_pos (hdirect.mpr h), Number.signed, hdigits]
    rfl
  · have hwritten :=
      radixDigits_natCast hbase (by omega) (natAbs_lt_two_pow_radixRounds n) []
    rw [List.append_nil] at hwritten
    rw [writeRadix, if_neg (mt hdirect.mp h), if_neg (by omega)]
    simp only [hwritten]
    rfl

/-- An integer that is not beyond the doubles counts as one without fractional part. -/
theorem toString_int {n : Int} (hn : n.natAbs < Binary64.bound) (i j : Identity) (radix : Int) :
    toString (.number i (.int n)) (.number j (.int radix)) = writeRadix n radix := by
  rw [toString, Number.isInteger_int hn]
  · rfl
  · exact nofun

theorem parseInt_text (s : String) (i : Identity) (radix : Int) :
    parseInt (.text s) (.number i (.int radix)) = Builtin.parseIntText s.toList (some radix) :=
  rfl

end Builtin

namespace Library

open Builtin (Writes)

theorem toString_of_ok {value radix : Value} {text : String}
    (h : Builtin.toString value radix = .ok text) :
    toString.apply [value, radix] = pure (.text text) := by
  change Eval.ofExcept (Builtin.toString value radix) >>= (fun text => pure (Value.text text)) = _
  rw [h]
  rfl

theorem parseInt_of_ok {value radix : Value} {n : Number}
    (h : Builtin.parseInt value radix = .ok n) :
    parseInt.apply [value, radix] = pure (.ofResult n) := by
  change Eval.ofExcept (Builtin.parseInt value radix) >>= (fun n => pure (Value.ofResult n)) = _
  rw [h]
  rfl

/-- An integer is written in a base with a minus, if it is negative, and the digits of its size,
and reading that text in the base yields it again. -/
theorem toString_parseInt {n radix : Int} (hn : n.natAbs < 2 ^ 1023)
    (hradix : 2 ≤ radix ∧ radix ≤ 36) (i j k : Identity) :
    ∃ digits text, Writes radix.toNat digits n.natAbs ∧
      text = String.ofList (if n < 0 then '-' :: digits else digits) ∧
      toString.apply [.number i (.int n), .number j (.int radix)] = pure (.text text) ∧
      parseInt.apply [.text text, .number k (.int radix)] = pure (.ofNumber (.int n)) := by
  obtain ⟨base, rfl⟩ := Int.eq_ofNat_of_zero_le (by omega : 0 ≤ radix)
  have hbase : 2 ≤ base ∧ base ≤ 36 := by omega
  have hbound : n.natAbs < Binary64.bound := hn.trans (by decide +kernel)
  have hwrites : Writes base (Text.digits base n.natAbs) n.natAbs := Builtin.writes_digits hbase _
  obtain ⟨text, htext⟩ : ∃ text, text = String.ofList
      (if n < 0 then '-' :: Text.digits base n.natAbs else Text.digits base n.natAbs) := ⟨_, rfl⟩
  have hwritten : Builtin.toString (.number i (.int n)) (.number j (.int base)) = .ok text := by
    rw [Builtin.toString_int hbound, Builtin.writeRadix_eq hbase, htext]
  have hread : Builtin.parseInt (.text text) (.number k (.int base)) = .ok (.int n) := by
    have hsize : (if n < 0 then -(n.natAbs : Int) else n.natAbs) = n := by
      clear hn hbound
      split_ifs <;> omega
    have hdigits := hwrites.parseIntText hbase (decide (n < 0))
    simp only [decide_eq_true_eq, hsize] at hdigits
    rw [Builtin.parseInt_text, htext, String.toList_ofList, hdigits]
  exact ⟨_, text, hwrites, htext, toString_of_ok hwritten, parseInt_of_ok hread⟩

/-- A negative number is written in base 16, and read again. -/
theorem toString_parseInt_minus255 :
    ((-255 : Int).natAbs < 2 ^ 1023 ∧ (2 : Int) ≤ 16 ∧ (16 : Int) ≤ 36) ∧
      ∃ text, toString.apply [.number 1 (.int (-255)), .number 2 (.int 16)] = pure (.text text) ∧
        parseInt.apply [.text text, .number 2 (.int 16)] = pure (.ofNumber (.int (-255))) := by
  have hn : (-255 : Int).natAbs < 2 ^ 1023 := by decide +kernel
  have hradix : (2 : Int) ≤ 16 ∧ (16 : Int) ≤ 36 := by decide
  obtain ⟨digits, text, -, -, hwritten, hread⟩ := toString_parseInt hn hradix 1 2 2
  exact ⟨⟨hn, hradix⟩, text, hwritten, hread⟩

end Library

end GatedExpr
