import GatedExpr.Proofs.Grammar.Matching
import GatedExpr.Proofs.Grammar.Reading

/-! # What follows a token

A token that is followed by blanks or by a mark that may follow it is read as it stands: nothing
longer can be read there. The character that comes next tells which tokens are not read.
-/

namespace GatedExpr

namespace Token

variable {raw text : String} {value : Value} {c : Char} {s r : List Char}

/-- What an item of a list can stand before. -/
def terminators : List Char :=
  [')', ']', '\x7d', ',', ':']

/-- What a suffix begins with. -/
def suffixHeads : List Char :=
  ['.', '[', '(']

/-- What can follow an operand, an expression in brackets or a leaf. -/
def followers : List Char :=
  terminators ++ '?' :: infixHeads ++ suffixHeads

theorem terminators_subset : terminators ⊆ followers := by
  decide

/-- The first character that is no blank. -/
def next (s : List Char) : Option Char :=
  (s.dropWhile Text.isBlank).head?

/-- What comes next, blanks aside, is one of the characters. -/
def Follows (characters : List Char) (r : List Char) : Prop :=
  ∀ c, next r = some c → c ∈ characters

theorem Follows.mono {characters others : List Char} (h : Follows characters r)
    (hsub : characters ⊆ others) : Follows others r :=
  fun c hc => hsub (h c hc)

theorem Follows.head (h : Follows followers r) (hc : r.head? = some c) :
    Text.isBlank c = true ∨ c ∈ followers := by
  cases hb : Text.isBlank c with
  | true => exact .inl rfl
  | false =>
    refine .inr (h c ?_)
    obtain ⟨more, rfl⟩ : ∃ more, r = c :: more := by
      cases r with
      | nil => cases hc
      | cons d more =>
        cases hc
        exact ⟨more, rfl⟩
    rw [next, List.dropWhile_cons_of_neg (by simp [hb]), List.head?_cons]

/-! ## Blanks -/

/-- What is decided for each of the blanks holds of all of them. -/
theorem forall_blank {P : Char → Prop}
    (h : ∀ range ∈ Text.blankRanges, ∀ n ∈ List.range (range.2 + 1 - range.1),
      P (Char.ofNat (range.1 + n))) (hc : Text.isBlank c = true) : P c := by
  rw [Text.isBlank, Text.Ranges.contains, List.any_eq_true] at hc
  obtain ⟨range, hr, hin⟩ := hc
  simp only [Bool.and_eq_true, decide_eq_true_eq] at hin
  have := h range hr (c.toNat - range.1) (List.mem_range.mpr (by omega))
  rwa [Nat.add_sub_cancel' hin.1, Char.ofNat_toNat] at this

theorem isNameChar_of_follower (h : Text.isBlank c = true ∨ c ∈ followers) :
    isNameChar c = false := by
  have hall : ∀ d ∈ followers, isNameChar d = false := by decide +kernel
  exact h.elim (forall_blank (P := fun c => isNameChar c = false) (by decide +kernel)) (hall c)

theorem mentions_name_of_follower (h : Text.isBlank c = true ∨ c ∈ followers) :
    name.regex.mentions c = false := by
  have hchar := Bool.eq_false_iff.mp (isNameChar_of_follower h)
  exact Bool.eq_false_of_not_eq_true fun hm => hchar (isNameChar_of_mentions hm)

/-! ## Numbers -/

open Regex.Spells in
/-- What a sign continues to a number is no number yet: its exponent lacks digits. -/
theorem not_number_before_sign {sign : Char} {before after : List Char}
    (hsign : sign = '+' ∨ sign = '-') (h : number.regex.Spells (before ++ sign :: after)) :
    ¬ number.regex.Spells before := by
  have hmantissa : ∀ d ∈ ['+', '-', 'e', 'E', 'x', 'X'], mantissa.mentions d = false := by decide
  have hhex : ∀ d ∈ ['+', '-'], hexNumber.mentions d = false := by decide
  have hin : sign ∈ ['+', '-'] := by simpa using hsign
  -- the sign stands right after the letter of the exponent
  obtain ⟨m, letter, rfl, hm, hletter⟩ : ∃ m letter, before = m ++ [letter] ∧ mantissa.Spells m ∧
      (letter = 'e' ∨ letter = 'E') := by
    rw [number_regex] at h
    rcases alt_iff.mp h with h | h
    · exact absurd (by simp) (not_mem_of_mentions h (hhex sign hin))
    · obtain ⟨m, x, he, hm, hx⟩ := seq_iff.mp h
      have hbefore := not_mem_of_mentions hm (hmantissa sign (by
        rcases hsign with rfl | rfl <;> simp))
      have hmem : sign ∈ m ++ x := he ▸ by simp
      rcases exponent_cases hx with rfl | ⟨letter, s, digits, rfl, hletter, hs, hd⟩
      · simp [hbefore] at hmem
      · have hdigits : sign ∉ digits := by
          intro hin
          have := hd.2 sign hin
          rcases hsign with rfl | rfl <;> exact absurd this (by decide)
        have hne : sign ≠ letter := by
          rcases hsign with rfl | rfl <;> rcases hletter with rfl | rfl <;> decide
        obtain rfl : s = [sign] := by
          rcases hs with rfl | rfl | rfl <;> simp_all
        rw [List.singleton_append, List.append_cons m letter, eq_comm,
          List.append_cons_inj_of_notMem (by simp [hbefore, hne]) hdigits] at he
        exact ⟨m, letter, he.1.symm, hm, hletter⟩
  have hnotin {d : Char} (hd : d ∈ ['e', 'E', 'x', 'X']) : d ∉ m :=
    not_mem_of_mentions hm (hmantissa d (List.mem_cons_of_mem _ (List.mem_cons_of_mem _ hd)))
  intro hspells
  rw [number_regex] at hspells
  rcases alt_iff.mp hspells with hspells | hspells
  · obtain ⟨zero, t, he, -, ht⟩ := seq_iff.mp hspells
    obtain ⟨u, digits, rfl, hu, -⟩ := seq_iff.mp ht
    obtain ⟨x, rfl, hx⟩ := oneOf_iff.mp hu
    have hxd : x = 'x' ∨ x = 'X' := by simpa [CharClass.contains] using hx
    have hmem : x ∈ m ++ [letter] := he ▸ by simp
    rcases hxd with rfl | rfl <;> rcases hletter with rfl | rfl <;> simp [hnotin] at hmem
  · obtain ⟨n, x, he, hn, hx⟩ := seq_iff.mp hspells
    rcases exponent_cases hx with rfl | ⟨other, t, digits, rfl, hother, -, hd⟩
    · have hmem : letter ∈ n := by
        rw [← List.append_nil n, ← he]
        simp
      exact not_mem_of_mentions hn (hmantissa letter (by rcases hletter with rfl | rfl <;> simp))
        hmem
    · have hother : other ∉ m := hnotin (by rcases hother with rfl | rfl <;> simp)
      rw [List.append_cons_inj_of_notMem hother (by simp)] at he
      exact hd.1 (List.append_eq_nil_iff.mp he.2.2.symm).2

theorem mentions_number_of_blank (h : Text.isBlank c = true) : number.regex.mentions c = false :=
  forall_blank (P := fun c => number.regex.mentions c = false) (by decide +kernel) h

/-- A number that goes on with nothing is read as it stands. -/
theorem match?_number_of_ends (h : number.Accepts raw.toList) (he : Ends raw r.head?)
    (hr : Follows followers r) :
    number.match? (raw.toList ++ r) = some ⟨raw.toList.length, r⟩ := by
  refine Pattern.match?_of_accepts rfl isPlain_number h ?_
  cases r with
  | nil => exact Pattern.bounds_nil _ _
  | cons c more =>
    by_cases hpoint : c = '.'
    · subst hpoint
      rintro _ _ ⟨⟩ longer hl ⟨after, rfl⟩
      rw [List.append_assoc] at hl
      obtain ⟨d, rest, hraw, -⟩ := number_head (h.spells rfl)
      exact he.integer ⟨hraw ▸ List.cons_ne_nil d rest, decimal_before_point hl⟩ rfl
    by_cases hsign : c = '+' ∨ c = '-'
    · rintro _ _ ⟨⟩ longer hl ⟨after, rfl⟩
      rw [List.append_assoc] at hl
      exact not_number_before_sign hsign hl (h.spells rfl)
    · apply Pattern.bounds_of_not_mentions
      have hall : ∀ d ∈ followers, d ≠ '.' → ¬ (d = '+' ∨ d = '-') →
          number.regex.mentions d = false := by decide
      exact (hr.head rfl).elim mentions_number_of_blank fun hc => hall c hc hpoint hsign

theorem match?_name_of_follows (h : name.Accepts raw.toList) (hr : Follows followers r) :
    name.match? (raw.toList ++ r) = some ⟨raw.toList.length, r⟩ := by
  refine Pattern.match?_of_accepts rfl isPlain_name h ?_
  cases r with
  | nil => exact Pattern.bounds_nil _ _
  | cons c more =>
    exact Pattern.bounds_of_not_mentions (mentions_name_of_follower (hr.head rfl)) _ _

theorem Follows.not_nameChar (h : Follows followers r) : r.head?.any isNameChar = false := by
  cases hr : r.head? with
  | none => rfl
  | some c => exact isNameChar_of_follower (h.head hr)

/-! ## Other tokens -/

theorem match?_string {raw : List Char} (h : string.Accepts raw) (r : List Char) :
    string.match? (raw ++ r) = some ⟨raw.length, r⟩ :=
  Pattern.match?_of_accepts rfl isPlain_string h (bounds_string (h.spells rfl) r)

/-- A pattern does not match before a character that nothing it spells begins with. -/
theorem match?_eq_none_of_head {pattern : Pattern} {s : List Char} (hf : pattern.flags = 0)
    (h : ∀ t, pattern.regex.Spells t → ∃ c rest, t = c :: rest ∧ s.head? ≠ some c) :
    pattern.match? s = none := by
  refine Pattern.match?_eq_none hf fun t ht hp => ?_
  obtain ⟨c, rest, rfl, hc⟩ := h t ht
  obtain ⟨more, rfl⟩ := hp
  exact hc rfl

theorem keyword_eq_none {s : List Char} (h : ∀ c, s.head? = some c → isNameStart c = false) :
    keyword.match? s = none := by
  cases hm : keyword.match? s with
  | none => rfl
  | some way =>
    obtain ⟨word, hword, rfl, -⟩ := keyword_cases hm
    have hall : ∀ w ∈ keywords, ∃ c ∈ w.head?, isNameStart c = true := by decide +kernel
    obtain ⟨c, hc, hs⟩ := hall word hword
    have hhead : (word ++ way.rest).head? = some c := by
      rw [List.head?_append, Option.mem_def.mp hc]
      rfl
    rw [h c hhead] at hs
    cases hs

/-! ## Texts that begin with something to read -/

/-- The text begins with a character that is no blank. -/
def Opens (text : String) : Prop :=
  ∃ c ∈ text.toList.head?, Text.isBlank c = false

instance (text : String) : Decidable (Opens text) :=
  inferInstanceAs (Decidable (∃ c ∈ text.toList.head?, Text.isBlank c = false))

theorem isBlank_of_isMark (h : isMark c = false) : Text.isBlank c = false :=
  (Bool.or_eq_false_iff.mp h).1

theorem opens_of_number (h : IsNumber raw value) : Opens raw := by
  obtain ⟨c, rest, he, hc⟩ := number_head (h.1.spells rfl)
  refine ⟨c, by rw [he]; rfl, ?_⟩
  rcases hc with hc | rfl
  · exact isBlank_of_isMark (isMark_of_decimal hc)
  · decide

theorem opens_of_string (h : IsString raw value) : Opens raw := by
  obtain ⟨mark, body, hmark, he, -⟩ := string_cases (h.1.spells rfl)
  refine ⟨mark, by rw [he]; rfl, ?_⟩
  rcases hmark with rfl | rfl <;> decide

theorem opens_of_keyword (h : IsKeyword raw value) : Opens raw := by
  cases h <;> decide

theorem opens_of_name (h : IsName raw) : Opens raw := by
  obtain ⟨c, rest, he, hstart, -⟩ := name_cases (h.spells rfl)
  exact ⟨c, by rw [he]; rfl, isBlank_of_isMark (isMark_of_start hstart)⟩

end Token

namespace Spread

variable {text : String} {texts : List String} {s r : List Char}

/-- The first text comes next, blanks aside. -/
theorem peel (h : Spread (text :: texts) s r) (ho : Token.Opens text) :
    ∃ after, s.dropWhile Text.isBlank = text.toList ++ after ∧ Token.Ends text after.head? ∧
      Spread texts after r := by
  obtain ⟨gap, after, rfl, hg, he, hs⟩ := h.of_cons
  refine ⟨after, ?_, he, hs⟩
  obtain ⟨c, hc, hb⟩ := ho
  rw [hg.dropWhile_append]
  cases ht : text.toList with
  | nil => simp [ht] at hc
  | cons d rest =>
    rw [ht] at hc
    cases hc
    exact List.dropWhile_cons_of_neg (by simp [hb])

theorem length_le (h : Spread texts s r) : r.length ≤ s.length := by
  induction h with
  | done => exact Nat.le_refl _
  | text _ _ _ ih =>
    simp only [List.length_append]
    omega

theorem length_lt (h : Spread (text :: texts) s r) (ho : Token.Opens text) :
    r.length < s.length := by
  obtain ⟨gap, after, rfl, -, -, hs⟩ := h.of_cons
  have hle := hs.length_le
  obtain ⟨c, hc, -⟩ := ho
  cases ht : text.toList with
  | nil => simp [ht] at hc
  | cons d rest =>
    simp only [List.length_append, List.length_cons]
    omega

/-- The first text tells what comes next. -/
theorem next_eq (h : Spread (text :: texts) s r) {c : Char} (hc : c ∈ text.toList.head?)
    (hb : Text.isBlank c = false) : Token.next s = some c := by
  obtain ⟨after, hs, -, -⟩ := h.peel ⟨c, hc, hb⟩
  rw [Token.next, hs, List.head?_append, Option.mem_def.mp hc]
  rfl

/-- The first text is one that may follow. -/
theorem follows {characters : List Char} (h : Spread (text :: texts) s r)
    (hc : ∃ c ∈ text.toList.head?, Text.isBlank c = false ∧ c ∈ characters) :
    Token.Follows characters s := by
  obtain ⟨c, hc, hb, hin⟩ := hc
  intro d hd
  rw [h.next_eq hc hb] at hd
  cases hd
  exact hin

end Spread

end GatedExpr
