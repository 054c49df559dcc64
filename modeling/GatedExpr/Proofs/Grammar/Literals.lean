import Mathlib.Data.List.TakeWhile
import GatedExpr.Proofs.Expr.Basic
import GatedExpr.Proofs.Grammar.NumberTokens
import GatedExpr.Proofs.Number.Numerals
import GatedExpr.Value.Printer

/-! # Literals

A text in double quotes, escaped as printed values are, is a string token of that text, and the
decimal digits of a natural number are a number token of that number.
-/

namespace GatedExpr

/-! ## Reading what is spelled -/

namespace Regex

/-- What is spelled can be read, whatever follows. -/
theorem mem_ways_of_spells {regex : Regex} {t : List Char} (h : regex.Spells t)
    (hp : regex.IsPlain) : ∀ rest, ⟨t.length, rest⟩ ∈ regex.ways false (t ++ rest) := by
  induction h with
  | empty => exact fun rest => List.mem_singleton.mpr rfl
  | @oneOf negated classes c hc =>
    intro rest
    have hone : (Regex.oneOf negated classes).ways false (c :: rest) = [⟨1, rest⟩] := if_pos hc
    rw [List.singleton_append, hone]
    exact List.mem_singleton.mpr rfl
  | seq _ _ ihs iht =>
    intro rest
    rw [ways, List.append_assoc]
    refine List.mem_flatMap.mpr ⟨_, ihs hp.1 _, List.mem_map.mpr ⟨_, iht hp.2 rest, ?_⟩⟩
    rw [List.length_append]
  | left _ ih => exact fun rest => List.mem_append_left _ (ih hp.1 rest)
  | right _ ih => exact fun rest => List.mem_append_right _ (ih hp.2 rest)
  | nil =>
    intro rest
    rw [ways_star]
    exact List.mem_append_right _ (List.mem_singleton.mpr rfl)
  | @more body s t _ _ ihs iht =>
    intro rest
    rcases s with _ | ⟨c, s⟩
    · exact iht hp rest
    · rw [ways_star, List.append_assoc]
      refine List.mem_append_left _ (List.mem_flatMap.mpr ⟨_, List.mem_filter.mpr ⟨ihs hp _, ?_⟩,
        List.mem_map.mpr ⟨_, iht hp rest, ?_⟩⟩)
      · simp
      · simp [Way.after, Nat.add_right_comm]
  | notAhead => exact hp.elim

end Regex

/-- What is spelled is accepted if no proper start of it is spelled. -/
theorem Pattern.accepts_of_spells {pattern : Pattern} {text : List Char} (hf : pattern.flags = 0)
    (hp : pattern.regex.IsPlain) (h : pattern.regex.Spells text)
    (hunique : ∀ t, pattern.regex.Spells t → t <+: text → t = text) : pattern.Accepts text := by
  rw [Accepts, match?_of_flags hf]
  have hmem := Regex.mem_ways_of_spells h hp []
  rw [List.append_nil] at hmem
  cases hw : pattern.regex.ways false text with
  | nil => simp [hw] at hmem
  | cons way ways =>
    have hfirst : way ∈ pattern.regex.ways false text := hw ▸ List.mem_cons_self
    have hreads := Regex.reads_of_mem_ways false _ _ way hfirst
    have hall : way.length = text.length := by
      have := congrArg List.length (hunique _ (Regex.spells_of_mem_ways _ hfirst)
        (List.take_prefix _ _))
      rw [List.length_take] at this
      have := hreads.length_le
      omega
    have hnone : way.rest = [] := by rw [hreads.rest_eq, hall, List.drop_length]
    rw [List.head?_cons, ← hall, ← hnone]

namespace Token

open Regex.Spells

/-! ## Strings -/

/-- A printed text holds a character as it is, behind a backslash that stands for it together
with another character, or by its code. -/
theorem escapeValue_cases (c : Char) :
    (c ≠ '"' ∧ c ≠ '\\' ∧ c ≠ '\n' ∧ Text.escapeValue c = [c]) ∨
      (∃ d, d ≠ '\n' ∧ d ≠ 'u' ∧ d ≠ 'x' ∧ Text.escapeValue c = ['\\', d] ∧
        simpleEscape d = [c]) ∨
      (c.toNat < 0x20 ∧ Text.escapeValue c = '\\' :: 'u' :: Text.hex 4 c.toNat) := by
  have paired (d : Char) (h : d ≠ '\n' ∧ d ≠ 'u' ∧ d ≠ 'x') (hd : simpleEscape d = [c])
      (he : Text.escapeValue c = ['\\', d]) : ∃ d, d ≠ '\n' ∧ d ≠ 'u' ∧ d ≠ 'x' ∧
        Text.escapeValue c = ['\\', d] ∧ simpleEscape d = [c] :=
    ⟨d, h.1, h.2.1, h.2.2, he, hd⟩
  by_cases hpaired : c ∈ ['"', '\\', '\n', '\r', '\t', '\x0c', '\x08']
  · refine .inr (.inl ?_)
    simp only [List.mem_cons, List.not_mem_nil, or_false] at hpaired
    rcases hpaired with rfl | rfl | rfl | rfl | rfl | rfl | rfl
    · exact paired '"' (by decide) rfl rfl
    · exact paired '\\' (by decide) rfl rfl
    · exact paired 'n' (by decide) rfl rfl
    · exact paired 'r' (by decide) rfl rfl
    · exact paired 't' (by decide) rfl rfl
    · exact paired 'f' (by decide) rfl rfl
    · exact paired 'b' (by decide) rfl rfl
  · simp only [List.mem_cons, List.not_mem_nil, or_false, not_or] at hpaired
    obtain ⟨hmark, hslash, hfeed, hreturn, htab, hpage, hback⟩ := hpaired
    simp only [Text.escapeValue, beq_false_of_ne hmark, beq_false_of_ne hslash,
      beq_false_of_ne hfeed, beq_false_of_ne hreturn, beq_false_of_ne htab, beq_false_of_ne hpage,
      beq_false_of_ne hback, Bool.false_eq_true, if_false]
    split
    · next hcode => exact .inr (.inr ⟨hcode, rfl⟩)
    · exact .inl ⟨hmark, hslash, hfeed, rfl⟩

/-- The code of a control character is written with four digits, which are read again. -/
theorem hex_control : ∀ code < 0x20, (Text.hex 4 code).length = 4 ∧
    hexCode? (Text.hex 4 code) = some code ∧ ∀ d ∈ Text.hex 4 code, d ∉ ['"', '\\', '\n'] := by
  decide +kernel

theorem resolveEscapes_skip (skipped rest : List Char) :
    resolveEscapes skipped.length (skipped ++ rest) = resolveEscapes 0 rest := by
  induction skipped with
  | nil => rfl
  | cons c skipped ih => exact ih

/-- What is written for a character stands for it. -/
theorem resolveEscapes_escapeValue (c : Char) (rest : List Char) :
    resolveEscapes 0 (Text.escapeValue c ++ rest) = c :: resolveEscapes 0 rest := by
  rcases escapeValue_cases c with ⟨_, hslash, _, he⟩ | ⟨d, _, hu, hx, he, hd⟩ | ⟨hcode, he⟩
  · rw [he, List.singleton_append, resolveEscapes, if_neg (by simpa using hslash)]
  · have hescape : escape? (d :: rest) = some ([c], 1) := by
      rw [escape?, hd]
      · exact hu
      · exact hx
    rw [he, List.cons_append, List.singleton_append, resolveEscapes, hescape]
    exact congrArg (c :: ·) (resolveEscapes_skip [d] rest)
  · obtain ⟨hlength, hread, _⟩ := hex_control c.toNat hcode
    have htake : (Text.hex 4 c.toNat ++ rest).take 4 = Text.hex 4 c.toNat :=
      List.take_left' hlength
    have hc : charOfCode c.toNat = c := by
      have hvalid : c.toNat.isValidChar := c.valid
      rw [charOfCode, dif_pos hvalid, Char.ofNat_toNat]
    have hescape : escape? ('u' :: (Text.hex 4 c.toNat ++ rest)) = some ([c], 5) := by
      simp only [escape?, htake, hlength, hread, hc]
    rw [he, List.cons_append, List.cons_append, resolveEscapes, hescape]
    have hskip := resolveEscapes_skip ('u' :: Text.hex 4 c.toNat) rest
    rw [List.length_cons, hlength] at hskip
    exact congrArg (c :: ·) hskip

theorem decodeString_literal (text : List Char) : decodeString (Text.literal text) = text := by
  have hbody : ∀ text : List Char, resolveEscapes 0 (text.flatMap Text.escapeValue) = text := by
    intro text
    induction text with
    | nil => rfl
    | cons c text ih => rw [List.flatMap_cons, resolveEscapes_escapeValue, ih]
  rw [decodeString, Text.literal, List.cons_append, List.drop_succ_cons, List.drop_zero,
    List.dropLast_concat, hbody]

/-- What stands between double quotes. -/
def stringBody : Regex :=
  .star
    (.alt (.oneOf true [.char '"', .char '\\', .char '\n']) (.seq (.char '\\') Regex.anyChar))

theorem spells_plain {c : Char} {rest : List Char} (hc : c ∉ ['"', '\\', '\n'])
    (h : stringBody.Spells rest) : stringBody.Spells (c :: rest) := by
  refine .more (s := [c]) (.left (.oneOf ?_)) h
  simpa [CharClass.contains, and_assoc] using hc

theorem spells_escaped {c : Char} {rest : List Char} (hc : c ≠ '\n')
    (h : stringBody.Spells rest) : stringBody.Spells ('\\' :: c :: rest) := by
  refine .more (s := ['\\', c]) (.right (.seq (s := ['\\']) (char_iff.mpr rfl) (.oneOf ?_))) h
  simpa [CharClass.contains] using hc

theorem spells_escapeValue (c : Char) {rest : List Char} (h : stringBody.Spells rest) :
    stringBody.Spells (Text.escapeValue c ++ rest) := by
  rcases escapeValue_cases c with ⟨hmark, hslash, hfeed, he⟩ | ⟨d, hd, _, _, he, _⟩ | ⟨hcode, he⟩
  · rw [he]
    exact spells_plain (by simp [hmark, hslash, hfeed]) h
  · rw [he]
    exact spells_escaped hd h
  · rw [he]
    refine spells_escaped (by decide) ?_
    have hall := (hex_control c.toNat hcode).2.2
    revert hall
    generalize Text.hex 4 c.toNat = digits
    intro hall
    induction digits with
    | nil => exact h
    | cons d digits ih =>
      obtain ⟨hd, hdigits⟩ := List.forall_mem_cons.mp hall
      exact spells_plain hd (ih hdigits)

/-- What is spelled as a string is a string token: the mark that closes a shorter token would close
the longer one as well. -/
theorem accepts_string {raw : List Char} (h : string.regex.Spells raw) : string.Accepts raw := by
  refine Pattern.accepts_of_spells rfl isPlain_string h fun t ht ⟨rest, he⟩ => ?_
  cases rest with
  | nil => exact (List.append_nil t).symm.trans he
  | cons c rest =>
    exact absurd ⟨rest, by simpa using he⟩ (bounds_string ht (c :: rest) c rest rfl _ h)

/-- A printed text is a string token: none of its characters closes it early. -/
theorem accepts_literal (text : List Char) : string.Accepts (Text.literal text) := by
  have hbody : stringBody.Spells (text.flatMap Text.escapeValue) := by
    induction text with
    | nil => exact .nil
    | cons c text ih => exact spells_escapeValue c ih
  exact accepts_string
    (.left (.seq (s := ['"']) (char_iff.mpr rfl) (.seq hbody (char_iff.mpr rfl))))

theorem isString_literal (s : String) : IsString (Value.printText s) (.text s) := by
  have hs : (Value.printText s).toList = Text.literal s.toList := String.toList_ofList
  refine ⟨hs ▸ accepts_literal _, ?_⟩
  rw [hs, decodeString_literal, String.ofList_toList]

/-! ## Numbers -/

theorem forall_digits {P : Char → Prop} (h : ∀ n : Fin 128, (Char.ofNat n).isDigit = true →
    P (Char.ofNat n)) {c : Char} (hc : c.isDigit = true) : P c := by
  have hnine : '9'.toNat = 57 := rfl
  have := (Char.isDigit_iff_toNat.mp hc).2
  exact Text.forall_ascii (P := fun c => c.isDigit = true → P c) h (by omega) hc

theorem decimalValue?_of_isDigit {c : Char} (h : c.isDigit = true) :
    Text.decimalValue? c = some (c.toNat - '0'.toNat) :=
  forall_digits (P := fun c => Text.decimalValue? c = some (c.toNat - '0'.toNat))
    (by decide +kernel) h

theorem isDigit_of_mem_decimal {n : Nat} {c : Char} (h : c ∈ Text.decimal n) : c.isDigit = true :=
  Nat.isDigit_of_mem_toDigits (by decide) (by decide) h

theorem isInteger_decimal (n : Nat) : IsInteger (Text.decimal n) := by
  refine ⟨Nat.toDigits_ne_nil, fun c hc => ?_⟩
  rw [Text.isDecimal, decimalValue?_of_isDigit (isDigit_of_mem_decimal hc)]
  rfl

theorem valueOfDigits_decimal (n : Nat) :
    Text.valueOfDigits 10 ((Text.decimal n).map fun c => c.toNat - '0'.toNat) = n := by
  have hn : Nat.ofDigitChars 10 (Text.decimal n) 0 = n :=
    Nat.ofDigitChars_toDigits (by decide) (by decide)
  rw [Text.valueOfDigits, List.foldl_map]
  simpa only [Nat.ofDigitChars, Nat.mul_comm] using hn

/-- The digits of a number are read as that number. -/
theorem integer?_decimal (n : Nat) : Numeral.integer? (Text.decimal n) = some (n : Int) := by
  have hall : ∀ c ∈ Text.decimal n, c.isDigit = true := fun c hc => isDigit_of_mem_decimal hc
  have hpadding : ∀ c ∈ Text.decimal n, Numeral.isPadding c = false := fun c hc =>
    forall_digits (P := fun c => Numeral.isPadding c = false) (by decide +kernel) (hall c hc)
  have hsign : ∀ c, (Text.decimal n).head? = some c → c ≠ '+' ∧ c ≠ '-' := fun c hc =>
    forall_digits (P := fun c => c ≠ '+' ∧ c ≠ '-') (by decide +kernel)
      (hall c (List.mem_of_mem_head? hc))
  have hdigits : (Text.decimal n).filterMap Text.decimalValue? =
      (Text.decimal n).map fun c => c.toNat - '0'.toNat := by
    rw [← List.filterMap_eq_map]
    exact List.filterMap_congr fun c hc => decimalValue?_of_isDigit (hall c hc)
  simp only [Numeral.integer?, Numeral.withoutPadding_of_forall hpadding,
    Numeral.takeSign_of_forall hsign,
    Numeral.separatedDigits?_of_forall (isInteger_decimal n).2 (isInteger_decimal n).1 (by decide),
    hdigits, Option.bind_eq_bind, Option.bind_some, valueOfDigits_decimal]
  rfl

theorem isNumber_decimal (n : Nat) :
    IsNumber (String.ofList (Text.decimal n)) (.ofNumber (.int n)) := by
  have hall : ∀ c ∈ Text.decimal n, c.isDigit = true := fun c hc => isDigit_of_mem_decimal hc
  have hhex : Numeral.hasHexMark (Text.decimal n) = false := by
    unfold Numeral.hasHexMark
    split
    · next x rest he =>
      have hx := hall x (he ▸ by simp)
      exact forall_digits (P := fun x => (x == 'x' || x == 'X') = false) (by decide +kernel) hx
    · rfl
  have hplain : ((Text.decimal n).any fun c => c == '.' || c == 'e' || c == 'E') = false := by
    rw [List.any_eq_false]
    intro c hc
    exact Bool.eq_false_iff.mp (forall_digits
      (P := fun c => (c == '.' || c == 'e' || c == 'E') = false) (by decide +kernel) (hall c hc))
  rw [IsNumber, String.toList_ofList]
  refine ⟨accepts_of_isInteger (isInteger_decimal n), .int n, ?_, rfl⟩
  rw [Number.ofToken?, hhex, hplain, integer?_decimal]
  rfl

end Token

end GatedExpr
