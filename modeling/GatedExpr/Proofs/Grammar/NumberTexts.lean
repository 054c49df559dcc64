import Mathlib
import GatedExpr.Proofs.Grammar.Following
import GatedExpr.Proofs.Grammar.NumberTokens
import GatedExpr.Proofs.Number.Decimals
import GatedExpr.Proofs.Number.Numerals
import GatedExpr.Value.Coercion

/-! # Numbers as texts

The text of a number token is read twice: as a token, where digits of every script count and
integers are exact, and as a text that is coerced, where only ASCII digits count and integers are
read as doubles first. Both readings agree on hexadecimal numbers, and otherwise if the digits are
ASCII digits and an integer is a double.
-/

namespace GatedExpr

namespace Token

open Numeral Regex.Spells

variable {raw : List Char}

theorem not_blank_of_number (h : number.regex.Spells raw) : ∀ c ∈ raw, Text.isBlank c = false := by
  intro c hc
  have hmentions := Regex.mentions_of_spells h c hc
  by_contra hblank
  rw [mentions_number_of_blank (Bool.eq_true_of_not_eq_false hblank)] at hmentions
  cases hmentions

/-! ## Hexadecimal numbers -/

/-- The value of a hexadecimal digit. -/
def hexValue? (c : Char) : Option Nat :=
  (Text.asciiDigitValue? c).filter (· < 16)

theorem hexNumber_cases (h : hexNumber.Spells raw) : ∃ x digits, raw = '0' :: x :: digits ∧
    (x = 'x' ∨ x = 'X') ∧ digits ≠ [] ∧ ∀ c ∈ digits, hexDigit.mentions c = true := by
  obtain ⟨zero, t, rfl, hzero, ht⟩ := seq_iff.mp h
  obtain ⟨u, digits, rfl, hu, hd⟩ := seq_iff.mp ht
  obtain ⟨x, rfl, hx⟩ := oneOf_iff.mp hu
  rw [char_iff] at hzero
  subst hzero
  exact ⟨x, digits, rfl, by simpa [CharClass.contains] using hx, plus_oneOf hd⟩

theorem ascii_of_hexDigit {c : Char} (h : hexDigit.mentions c = true) : c.toNat < 128 := by
  simp only [hexDigit, Regex.mentions, List.any_cons, List.any_nil, CharClass.contains,
    Bool.or_false, Bool.bne_false, Bool.or_eq_true, Bool.and_eq_true, decide_eq_true_eq,
    Char.le_def, UInt32.le_iff_toNat_le] at h
  rcases h with h | h | h
  · have hc : 48 ≤ c.toNat ∧ c.toNat ≤ 57 := h
    omega
  · have hc : 97 ≤ c.toNat ∧ c.toNat ≤ 102 := h
    omega
  · have hc : 65 ≤ c.toNat ∧ c.toNat ≤ 70 := h
    omega

theorem isSome_hexValue? {c : Char} (h : hexDigit.mentions c = true) :
    (hexValue? c).isSome = true ∧ isPadding c = false :=
  Text.forall_ascii (P := fun c => hexDigit.mentions c = true →
    (hexValue? c).isSome = true ∧ isPadding c = false) (by decide +kernel) (ascii_of_hexDigit h) h

theorem hasHexMark_of_spells (h : hexNumber.Spells raw) : hasHexMark raw = true := by
  obtain ⟨x, digits, rfl, hx, -⟩ := hexNumber_cases h
  simpa [hasHexMark] using hx

/-- A hexadecimal number has the same value as a token and as a text. -/
theorem hexDigits?_of_spells (h : hexNumber.Spells raw) : ∃ values,
    hexDigits? raw = some values ∧
      hexInteger? (raw.drop 2) = some (Text.valueOfDigits 16 values : Int) := by
  obtain ⟨x, digits, rfl, hx, hne, hd⟩ := hexNumber_cases h
  have hvalues : ∀ c ∈ digits, (hexValue? c).isSome := fun c hc => (isSome_hexValue? (hd c hc)).1
  have hpadding : ∀ c ∈ digits, isPadding c = false := fun c hc => (isSome_hexValue? (hd c hc)).2
  refine ⟨digits.filterMap hexValue?, ?_, ?_⟩
  · have hmark : (x == 'x' || x == 'X') = true := by simpa using hx
    have hmap : (digits.map hexValue?).mapM id = digits.mapM hexValue? := by
      rw [List.mapM_map]
      rfl
    simp only [hexDigits?, hmark, if_true, List.isEmpty_iff, hne, if_false]
    exact hmap.trans (mapM_of_forall hvalues)
  · have hdigit : ∀ c ∈ digits, (hexValue? c).or (Text.decimalValue? c) = hexValue? c := by
      intro c hc
      obtain ⟨value, hvalue⟩ := Option.isSome_iff_exists.mp (hvalues c hc)
      rw [hvalue, Option.some_or]
    have hall : ∀ c ∈ digits, ((hexValue? c).or (Text.decimalValue? c)).isSome := fun c hc => by
      rw [hdigit c hc]
      exact hvalues c hc
    have hseparated := separatedDigits?_of_forall hall hne (by decide) true
    rw [List.filterMap_congr hdigit] at hseparated
    simp only [hexInteger?, List.drop_succ_cons, List.drop_zero, dropLastWhile_of_forall hpadding]
    exact congrArg (·.bind fun values => some ((Text.valueOfDigits 16 values : Nat) : Int))
      hseparated

/-! ## Decimal numbers -/

/-- The natural number that the digits of a text write. -/
def decimalValue (raw : List Char) : Nat :=
  Text.valueOfDigits 10 (raw.filterMap Text.decimalValue?)

theorem decimalValue?_of_isMark {c : Char} (h : IsMark c) : Text.decimalValue? c = none := by
  have hall : ∀ c ∈ ['.', 'e', 'E', '+', '-'], Text.decimalValue? c = none := by decide
  exact hall c h

/-- The character is a point or begins an exponent. -/
def IsInexact (c : Char) : Prop :=
  c = '.' ∨ c = 'e' ∨ c = 'E'

theorem not_isInexact_of_isDecimal {c : Char} (h : Text.isDecimal c = true) : ¬ IsInexact c := by
  rintro (rfl | rfl | rfl) <;> exact absurd h (by decide)

/-- How a decimal number is read: digits alone are an integer, everything else is not. -/
theorem read?_of_spells {m x : List Char} (hm : mantissa.Spells m) (hx : exponent.Spells x) :
    ∃ numeral, read? Text.decimalValue? (m ++ x) = some (numeral, []) ∧
      (IsInteger (m ++ x) ∧
          numeral =
            { whole := (m ++ x).filterMap Text.decimalValue?, fraction := none, exponent := none } ∨
        (∃ c ∈ m ++ x, IsInexact c) ∧ numeral.isPlain = false) := by
  have hpoint : Text.decimalValue? '.' = none := decimalValue?_of_isMark (by simp [IsMark])
  have hhead : ∀ c, x.head? = some c → Text.decimalValue? c = none ∧ c ≠ '.' := by
    rcases exponent_cases hx with rfl | ⟨letter, sign, digits, rfl, hletter, -, -⟩
    · rintro _ ⟨⟩
    · rintro _ ⟨⟩
      rcases hletter with rfl | rfl <;> decide
  have hsize : ∃ size, takeExponent Text.decimalValue? x = (size, []) ∧
      (x = [] ∧ size = none ∨ (∃ c ∈ x, IsInexact c) ∧ size.isNone = false) := by
    rcases exponent_cases hx with rfl | ⟨letter, sign, digits, rfl, hletter, hsign, hd⟩
    · exact ⟨none, rfl, .inl ⟨rfl, rfl⟩⟩
    · obtain ⟨size, hsize⟩ := takeExponent_mark hletter hsign
        (by decide : ∀ c ∈ ['+', '-'], Text.decimalValue? c = none) hd.1 hd.2
      exact ⟨_, hsize, .inr ⟨⟨letter, List.mem_cons_self, .inr hletter⟩, rfl⟩⟩
  obtain ⟨size, hsize, hexponent⟩ := hsize
  rcases isMantissa_of_spells hm with hm | ⟨whole, fraction, rfl, hw, hf⟩ | ⟨fraction, rfl, hf⟩
  · refine ⟨_, read?_digits hm.2 hm.1 hhead hsize, ?_⟩
    rcases hexponent with ⟨rfl, rfl⟩ | ⟨⟨c, hc, hinexact⟩, hsome⟩
    · rw [List.append_nil]
      exact .inl ⟨hm, rfl⟩
    · exact .inr ⟨⟨c, List.mem_append_right _ hc, hinexact⟩, hsome⟩
  · have hread := read?_point hpoint hw.2 hf (.inl hw.1) (fun c hc => (hhead c hc).1) hsize
    rw [List.append_assoc, List.cons_append]
    exact ⟨_, hread, .inr ⟨⟨'.', by simp, .inl rfl⟩, rfl⟩⟩
  · have hread : read? Text.decimalValue? ([] ++ '.' :: (fraction ++ x)) = _ :=
      read?_point hpoint (List.forall_mem_nil _) hf.2 (.inr hf.1) (fun c hc => (hhead c hc).1) hsize
    rw [List.cons_append]
    exact ⟨_, hread, .inr ⟨⟨'.', by simp, .inl rfl⟩, rfl⟩⟩

/-- A number in decimal notation. -/
def decimalNumber : Regex :=
  .seq mantissa exponent

/-- The value of an ASCII digit. -/
def asciiDigit? (c : Char) : Option Nat :=
  (Text.asciiDigitValue? c).filter (· < 10)

theorem asciiDigit?_eq {c : Char} (h : c.toNat < 128) : asciiDigit? c = Text.decimalValue? c :=
  Text.forall_ascii (P := fun c => asciiDigit? c = Text.decimalValue? c) (by decide +kernel) h

theorem ascii_of_isSome_asciiDigit? {c : Char} (h : (asciiDigit? c).isSome = true) :
    c.toNat < 128 :=
  Text.ascii_of_isSome_filter h

theorem ascii_of_isMark {c : Char} (h : IsMark c) : c.toNat < 128 := by
  have hall : ∀ c ∈ ['.', 'e', 'E', '+', '-'], c.toNat < 128 := by decide
  exact hall c h

section

variable (h : decimalNumber.Spells raw)

include h

theorem not_mem_of_decimalNumber {c : Char} (hc : decimalNumber.mentions c = false) : c ∉ raw :=
  not_mem_of_mentions h hc

theorem head_of_decimalNumber : ∃ c rest, raw = c :: rest ∧ (Text.isDecimal c = true ∨ c = '.') :=
  number_head (.right h)

theorem takeSign_of_decimalNumber : takeSign raw = (false, raw) := by
  obtain ⟨c, rest, rfl, hc⟩ := head_of_decimalNumber h
  refine takeSign_of_forall ?_
  rintro _ ⟨⟩
  rcases hc with hc | rfl
  · constructor <;>
      · rintro rfl
        exact absurd hc (by decide)
  · decide

theorem withoutPadding_of_decimalNumber : withoutPadding raw = raw := by
  refine withoutPadding_of_forall fun c hc => ?_
  rw [isPadding, not_blank_of_number (.right h) c hc, Bool.false_and]

theorem hasHexMark_of_decimalNumber : hasHexMark raw = false := by
  unfold hasHexMark
  split
  · next x rest =>
    rw [Bool.or_eq_false_iff, beq_eq_false_iff_ne, beq_eq_false_iff_ne]
    constructor
    · rintro rfl
      exact not_mem_of_decimalNumber h (c := 'x') (by decide) (by simp)
    · rintro rfl
      exact not_mem_of_decimalNumber h (c := 'X') (by decide) (by simp)
  · rfl

theorem hexDigits?_of_decimalNumber : hexDigits? raw = none := by
  have hmark := hasHexMark_of_decimalNumber h
  unfold hexDigits?
  split
  · next x rest =>
    rw [hasHexMark] at hmark
    rw [hmark]
    rfl
  · rfl

/-- What a decimal number is as a token: an integer if there are only digits, and otherwise the
double that it reads. -/
theorem ofToken?_of_decimalNumber : ∃ numeral,
    read? Text.decimalValue? raw = some (numeral, []) ∧
      (IsInteger raw ∧ numeral = { whole := raw.filterMap Text.decimalValue?, fraction := none,
                                   exponent := none } ∧
          Number.ofToken? raw = some (.int (decimalValue raw)) ∨
        (∃ c ∈ raw, IsInexact c) ∧ numeral.isPlain = false ∧
          Number.ofToken? raw = some (.float numeral.toFloat)) := by
  obtain ⟨m, x, rfl, hm, hx⟩ := seq_iff.mp h
  obtain ⟨numeral, hread, hcases⟩ := read?_of_spells hm hx
  refine ⟨numeral, hread, ?_⟩
  have hsign := takeSign_of_decimalNumber h
  have hpadding := withoutPadding_of_decimalNumber h
  have hmark := hasHexMark_of_decimalNumber h
  have hseparator : '_' ∉ m ++ x := not_mem_of_decimalNumber h (by decide)
  rcases hcases with ⟨hinteger, hnumeral⟩ | ⟨hinexact, hplain⟩
  · have hexact : ((m ++ x).any fun c => c == '.' || c == 'e' || c == 'E') = false := by
      rw [List.any_eq_false]
      intro c hc
      simpa [IsInexact, or_assoc] using not_isInexact_of_isDecimal (hinteger.2 c hc)
    have hvalues := separatedDigits?_of_forall hinteger.2 hinteger.1 (by decide) false
    refine .inl ⟨hinteger, hnumeral, ?_⟩
    simp only [Number.ofToken?, hmark, hexact, integer?, hpadding, hsign, hvalues,
      Bool.false_eq_true, if_false, Option.bind_eq_bind, Option.bind_some]
    rfl
  · have hexact : ((m ++ x).any fun c => c == '.' || c == 'e' || c == 'E') = true := by
      rw [List.any_eq_true]
      obtain ⟨c, hc, hinexact⟩ := hinexact
      exact ⟨c, hc, by simpa [IsInexact, or_assoc] using hinexact⟩
    refine .inr ⟨hinexact, hplain, ?_⟩
    simp only [Number.ofToken?, hmark, hexact, float?, hpadding, hsign,
      withoutSeparators?_of_not_mem hseparator, hread, Bool.false_eq_true, if_false, if_true,
      Option.bind_eq_bind, Option.bind_some]
    rfl

theorem ne_infinity_of_decimalNumber : raw ≠ "Infinity".toList := by
  rintro rfl
  exact not_mem_of_decimalNumber h (c := 'I') (by decide) (by decide)

/-- What a decimal number is as a text: not-a-number unless all digits are ASCII digits. -/
theorem ofText_of_not_ascii (hc : ¬ ∀ c ∈ raw, c.toNat < 128) : Number.ofText raw = Number.nan := by
  simp only [Number.ofText, hexDigits?_of_decimalNumber h, takeSign_of_decimalNumber h,
    if_neg (ne_infinity_of_decimalNumber h)]
  split
  · next numeral hread =>
    refine absurd (fun c hmem => ?_) hc
    exact (digits_or_marks_of_read? hread c hmem).elim ascii_of_isSome_asciiDigit? ascii_of_isMark
  · rfl

/-- As a text the digits are read as a double, which is cut off to an integer if nothing in the
text says that it is none. -/
theorem ofText_of_ascii (hascii : ∀ c ∈ raw, c.toNat < 128) {numeral : Numeral}
    (hread : read? Text.decimalValue? raw = some (numeral, [])) :
    Number.ofText raw =
      if numeral.isPlain then
        match Number.truncate (.float numeral.toFloat) with
        | .ok n => .int n
        | .error _ => .float numeral.toFloat
      else .float numeral.toFloat := by
  have hdigits : ∀ c ∈ raw, asciiDigit? c = Text.decimalValue? c := fun c hc =>
    asciiDigit?_eq (hascii c hc)
  have hread' : read? (fun c => (Text.asciiDigitValue? c).filter (· < 10)) raw =
      some (numeral, []) := (read?_congr hdigits).trans hread
  simp only [Number.ofText, hexDigits?_of_decimalNumber h, takeSign_of_decimalNumber h,
    if_neg (ne_infinity_of_decimalNumber h), hread']
  rfl

end

/-! ## Both readings -/

/-- What the text of a number must be like for both readings to agree. -/
def ReadsSame (raw : List Char) : Prop :=
  hasHexMark raw = true ∨
    (∀ c ∈ raw, c.toNat < 128) ∧
      ((∃ c ∈ raw, IsInexact c) ∨ Number.IsDouble (decimalValue raw))

theorem exactValue?_toFloat_ne_none (numeral : Numeral) :
    (Number.float numeral.toFloat).exactValue? ≠ none :=
  (Binary64.isNearest_ofDecimal _ _).exactValue?_ne_none

theorem toFloat_of_plain (values : List Nat) :
    toFloat { whole := values, fraction := none, exponent := none } =
      Binary64.ofDecimal (Text.valueOfDigits 10 values) 0 := by
  simp [toFloat]

/-- What a text is as a token and as a text: a number that is not not-a-number, and the same
number if both readings agree, but no equal one if they do not. -/
structure Readings (raw : List Char) (agree : Prop) (n : Number) : Prop where
  token : Number.ofToken? raw = some n
  exact : n.exactValue? ≠ none
  same : agree → Number.ofText raw = n
  apart : ¬ agree → (Number.ofText raw).equals n = false

theorem readings_of_hexNumber (h : hexNumber.Spells raw) : ∃ n, Readings raw True n := by
  obtain ⟨values, htext, htoken⟩ := hexDigits?_of_spells h
  refine ⟨.int (Text.valueOfDigits 16 values), ?_, ?_, fun _ => ?_, fun hne => absurd trivial hne⟩
  · simp only [Number.ofToken?, hasHexMark_of_spells h, if_true, htoken]
    rfl
  · rw [Number.exactValue?_int]
    nofun
  · simp only [Number.ofText, htext]

/-- Whether the readings of a decimal number agree is seen from its digits and its marks. -/
theorem readings_of_decimalNumber (h : decimalNumber.Spells raw) : ∃ n, Readings raw
    ((∀ c ∈ raw, c.toNat < 128) ∧
      ((∃ c ∈ raw, IsInexact c) ∨ Number.IsDouble (decimalValue raw))) n := by
  obtain ⟨numeral, hread, ⟨hinteger, rfl, htoken⟩ | ⟨hinexact, hplain, htoken⟩⟩ :=
    ofToken?_of_decimalNumber h
  · have hdigits : ¬ ∃ c ∈ raw, IsInexact c := fun ⟨c, hc, hinexact⟩ =>
      not_isInexact_of_isDecimal (hinteger.2 c hc) hinexact
    have htext (hascii : ∀ c ∈ raw, c.toNat < 128) :
        Number.ofText raw = Number.throughDouble (decimalValue raw) := by
      rw [ofText_of_ascii h hascii hread, toFloat_of_plain]
      rfl
    refine ⟨_, htoken, ?_, fun ⟨hascii, hdouble⟩ => ?_, fun hne => ?_⟩
    · rw [Number.exactValue?_int]
      nofun
    · rw [htext hascii, Number.throughDouble_of_isDouble (hdouble.resolve_left hdigits)]
    · by_cases hascii : ∀ c ∈ raw, c.toNat < 128
      · rw [htext hascii, Number.throughDouble_of_not_isDouble fun hdouble =>
          hne ⟨hascii, .inr hdouble⟩]
      · rw [ofText_of_not_ascii h hascii, Number.nan_equals]
  · refine ⟨_, htoken, exactValue?_toFloat_ne_none numeral, fun ⟨hascii, _⟩ => ?_, fun hne => ?_⟩
    · rw [ofText_of_ascii h hascii hread, hplain]
      rfl
    · rw [ofText_of_not_ascii h fun hascii => hne ⟨hascii, .inl hinexact⟩, Number.nan_equals]

/-- A number token has a value, and whether that is its value as a text as well is seen from its
characters. -/
theorem readings_of_number (h : number.regex.Spells raw) : ∃ n, Readings raw (ReadsSame raw) n := by
  rcases alt_iff.mp (number_regex ▸ h) with hhex | hdecimal
  · have halike : ReadsSame raw ↔ True := iff_true_intro (.inl (hasHexMark_of_spells hhex))
    rw [halike]
    exact readings_of_hexNumber hhex
  · have hdecimal : decimalNumber.Spells raw := hdecimal
    have hmark := hasHexMark_of_decimalNumber hdecimal
    have halike := or_iff_right (b := (∀ c ∈ raw, c.toNat < 128) ∧
      ((∃ c ∈ raw, IsInexact c) ∨ Number.IsDouble (decimalValue raw)))
      (Bool.eq_false_iff.mp hmark)
    rw [ReadsSame, halike]
    exact readings_of_decimalNumber hdecimal

/-- A text is coerced to the number that it reads, since no blanks stand around a number. -/
theorem toNumber_of_spells (h : number.regex.Spells raw) :
    (Value.text (String.ofList raw)).toNumber = Number.ofText raw := by
  have hblank := not_blank_of_number h
  have htrim : Text.trim raw = raw := by
    rw [Text.trim, Text.trimLeft, dropWhile_of_forall hblank, Text.trimRight,
      dropLastWhile_of_forall hblank]
  obtain ⟨c, rest, rfl, -⟩ := number_head h
  rw [Value.toNumber, String.toList_ofList, htrim, List.isEmpty_cons]
  rfl

end Token

end GatedExpr
