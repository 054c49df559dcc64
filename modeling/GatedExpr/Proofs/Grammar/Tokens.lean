import GatedExpr.Grammar.Token
import GatedExpr.Proofs.Grammar.Greedy
import GatedExpr.Proofs.Text.Digits

/-! # Tokens

What the tokens of the expression language look like, where they end and what they cannot be
confused with.
-/

namespace GatedExpr

/-! ## Characters of a list

Whether something holds of all characters of a list is decided by going through the list, never
through all characters. -/

instance decidableForallMem {P : Char → Prop} [DecidablePred P] (text : List Char) :
    Decidable (∀ c ∈ text, P c) :=
  List.decidableBAll P text

instance decidableExistsMem {P : Char → Prop} [DecidablePred P] (text : List Char) :
    Decidable (∃ c ∈ text, P c) :=
  List.decidableBEx P text

instance decidableForallMemOption {P : Char → Prop} [DecidablePred P] (c? : Option Char) :
    Decidable (∀ c ∈ c?, P c) :=
  Option.decidableForallMem c?

instance decidableExistsMemOption {P : Char → Prop} [DecidablePred P] (c? : Option Char) :
    Decidable (∃ c ∈ c?, P c) :=
  Option.decidableExistsMem c?

namespace Token

open Regex.Spells
open Text (forall_ascii)

theorem isPlain_number : number.regex.IsPlain := by
  simp [number, Regex.IsPlain, Regex.char, Regex.plus, Regex.optional, hexDigit, decimalDigit]

theorem isPlain_string : string.regex.IsPlain := by
  simp [string, stringIn, Regex.IsPlain, Regex.char, Regex.anyChar]

theorem isPlain_name : name.regex.IsPlain := by
  simp [name, Regex.IsPlain, wordOrDollar]

theorem not_mem_of_mentions {regex : Regex} {t : List Char} {c : Char} (h : regex.Spells t)
    (hc : regex.mentions c = false) : c ∉ t := by
  intro hmem
  rw [Regex.mentions_of_spells h c hmem] at hc
  cases hc

/-! ## Numbers -/

/-- The text is a plain run of decimal digits. -/
def IsInteger (raw : List Char) : Prop :=
  raw ≠ [] ∧ ∀ c ∈ raw, Text.isDecimal c = true

instance (raw : List Char) : Decidable (IsInteger raw) :=
  inferInstanceAs (Decidable (_ ∧ _))

theorem isInteger_of_plus {t : List Char} (h : decimalDigit.plus.Spells t) : IsInteger t := by
  obtain ⟨hne, hall⟩ := plus_oneOf h
  exact ⟨hne, by simpa [CharClass.contains] using hall⟩

theorem decimal_of_star {t : List Char} (h : (Regex.star decimalDigit).Spells t) :
    ∀ c ∈ t, Text.isDecimal c = true := by
  simpa [CharClass.contains] using star_oneOf h

theorem not_mem_of_decimal {t : List Char} (h : ∀ c ∈ t, Text.isDecimal c = true) : '.' ∉ t := by
  intro hmem
  have := h '.' hmem
  revert this
  decide

/-- Digits around an optional point. -/
def IsMantissa (t : List Char) : Prop :=
  IsInteger t ∨
    (∃ whole fraction, t = whole ++ '.' :: fraction ∧ IsInteger whole ∧
      ∀ c ∈ fraction, Text.isDecimal c = true) ∨
    ∃ fraction, t = '.' :: fraction ∧ IsInteger fraction

/-! ### Parts of numbers -/

/-- The hexadecimal numbers. -/
def hexNumber : Regex :=
  .seq (.char '0') (.seq (.oneOf false [.char 'x', .char 'X']) hexDigit.plus)

/-- A point and digits after it, if they are there. -/
def point : Regex :=
  (Regex.seq (.char '.') (.star decimalDigit)).optional

/-- Digits around an optional point. -/
def mantissa : Regex :=
  .alt (.seq decimalDigit.plus point) (.seq (.char '.') decimalDigit.plus)

def exponent : Regex :=
  (Regex.seq (.oneOf false [.char 'e', .char 'E'])
    (.seq (Regex.optional (.oneOf false [.char '+', .char '-'])) decimalDigit.plus)).optional

theorem number_regex : number.regex = .alt hexNumber (.seq mantissa exponent) :=
  rfl

theorem isMantissa_of_spells {t : List Char} (h : mantissa.Spells t) : IsMantissa t := by
  rcases alt_iff.mp h with h | h
  · obtain ⟨whole, point, rfl, hw, hp⟩ := seq_iff.mp h
    rcases optional_iff.mp hp with hp | rfl
    · obtain ⟨s, fraction, rfl, hs, hf⟩ := seq_iff.mp hp
      rw [char_iff] at hs
      subst hs
      exact .inr (.inl ⟨whole, fraction, rfl, isInteger_of_plus hw, decimal_of_star hf⟩)
    · rw [List.append_nil]
      exact .inl (isInteger_of_plus hw)
  · obtain ⟨s, fraction, rfl, hs, hf⟩ := seq_iff.mp h
    rw [char_iff] at hs
    subst hs
    exact .inr (.inr ⟨fraction, rfl, isInteger_of_plus hf⟩)

/-- An exponent is a letter with a sign, if there is one, and digits. -/
theorem exponent_cases {t : List Char} (h : exponent.Spells t) :
    t = [] ∨ ∃ letter sign digits, t = letter :: (sign ++ digits) ∧
      (letter = 'e' ∨ letter = 'E') ∧ (sign = [] ∨ sign = ['+'] ∨ sign = ['-']) ∧
      IsInteger digits := by
  rcases optional_iff.mp h with h | rfl
  · obtain ⟨u, v, rfl, hu, hv⟩ := seq_iff.mp h
    obtain ⟨sign, digits, rfl, hs, hd⟩ := seq_iff.mp hv
    obtain ⟨letter, rfl, hletter⟩ := oneOf_iff.mp hu
    refine .inr ⟨letter, sign, digits, rfl, by simpa [CharClass.contains] using hletter, ?_,
      isInteger_of_plus hd⟩
    rcases optional_iff.mp hs with hs | rfl
    · obtain ⟨d, rfl, hd'⟩ := oneOf_iff.mp hs
      exact .inr (by simpa [CharClass.contains] using hd')
    · exact .inl rfl
  · exact .inl rfl

/-- A hexadecimal number, or a mantissa and an exponent, which holds no point. -/
theorem number_cases {t : List Char} (h : number.regex.Spells t) :
    (∃ digits, t = '0' :: digits ∧ '.' ∉ digits) ∨
      ∃ mantissa exponent, t = mantissa ++ exponent ∧ IsMantissa mantissa ∧ '.' ∉ exponent := by
  rw [number_regex] at h
  rcases alt_iff.mp h with h | h
  · obtain ⟨s, r, rfl, hs, hr⟩ := seq_iff.mp h
    rw [char_iff] at hs
    subst hs
    refine .inl ⟨r, rfl, fun hmem => ?_⟩
    have := Regex.mentions_of_spells hr '.' hmem
    revert this
    decide
  · obtain ⟨mantissa, exponent, rfl, hm, he⟩ := seq_iff.mp h
    refine .inr ⟨mantissa, exponent, rfl, isMantissa_of_spells hm, fun hmem => ?_⟩
    have := Regex.mentions_of_spells he '.' hmem
    revert this
    decide

/-- Before a point in a number there are nothing but digits. -/
theorem decimal_before_point {before after : List Char}
    (h : number.regex.Spells (before ++ '.' :: after)) :
    ∀ c ∈ before, Text.isDecimal c = true := by
  rcases number_cases h with ⟨digits, he, hd⟩ | ⟨mantissa, exponent, he, hm, hx⟩
  · have : '.' ∈ '0' :: digits := by
      rw [← he]
      simp
    simp [hd] at this
  · rcases hm with hm | ⟨whole, fraction, rfl, hw, hf⟩ | ⟨fraction, rfl, hf⟩
    · have : '.' ∈ mantissa ++ exponent := by
        rw [← he]
        simp
      simp [hx, not_mem_of_decimal hm.2] at this
    · rw [List.append_assoc, List.cons_append, eq_comm, List.append_cons_inj_of_notMem
        (not_mem_of_decimal hw.2) (by simp [not_mem_of_decimal hf, hx])] at he
      exact he.1 ▸ hw.2
    · rw [← List.nil_append ('.' :: fraction), List.append_assoc, List.cons_append, eq_comm,
        List.append_cons_inj_of_notMem (by simp) (by simp [not_mem_of_decimal hf.2, hx])] at he
      simp [← he.1]

/-- A hexadecimal number is told by its second character. -/
theorem hexNumber_ways_eq_nil {text : List Char}
    (h : ∀ x, text[1]? = some x → x ≠ 'x' ∧ x ≠ 'X') : hexNumber.ways false text = [] := by
  rw [List.eq_nil_iff_forall_not_mem]
  intro way hway
  obtain ⟨s, t, he, hs, ht⟩ := seq_iff.mp (Regex.spells_of_mem_ways _ hway)
  obtain ⟨u, v, rfl, hu, -⟩ := seq_iff.mp ht
  rw [char_iff] at hs
  obtain ⟨x, rfl, hx⟩ := oneOf_iff.mp hu
  subst hs
  have hxd : x = 'x' ∨ x = 'X' := by simpa [CharClass.contains] using hx
  have hsecond : text[1]? = some x := by
    have := congrArg (·[1]?) he
    simp only [List.cons_append, List.nil_append, List.getElem?_cons_succ,
      List.getElem?_cons_zero, List.getElem?_take] at this
    split at this
    · exact this
    · cases this
  exact hxd.elim (h x hsecond).1 (h x hsecond).2

theorem not_hexMark_of_decimal {x : Char} (h : Text.isDecimal x = true) : x ≠ 'x' ∧ x ≠ 'X' := by
  constructor <;>
    · rintro rfl
      revert h
      decide

theorem hexNumber_ways_point {raw more : List Char} (h : IsInteger raw) :
    hexNumber.ways false (raw ++ '.' :: more) = [] := by
  refine hexNumber_ways_eq_nil fun x hsecond => ?_
  match raw, h with
  | [d], _ =>
    obtain rfl : x = '.' := by simpa [eq_comm] using hsecond
    decide
  | d :: e :: rest, h =>
    obtain rfl : x = e := by simpa [eq_comm] using hsecond
    exact not_hexMark_of_decimal (h.2 x (by simp))

theorem head?_ways_decimals (text : List Char) :
    ((Regex.star decimalDigit).ways false text).head? =
      some ⟨(text.takeWhile Text.isDecimal).length, text.dropWhile Text.isDecimal⟩ := by
  have hclass : (fun c => ([CharClass.decimal].any (·.contains c) != false)) = Text.isDecimal := by
    funext c
    simp [CharClass.contains]
  rw [decimalDigit, Regex.head?_ways_star, hclass]

theorem takes_decimal (c : Char) :
    ([CharClass.decimal].any (·.contains c) != false) = Text.isDecimal c := by
  simp [CharClass.contains]

theorem readsFirst_digits {raw rest : List Char} (h : IsInteger raw)
    (hr : ∀ c, rest.head? = some c → Text.isDecimal c = false) :
    decimalDigit.plus.ReadsFirst raw rest :=
  .plus (fun c hc => (takes_decimal c).trans (h.2 c hc)) h.1
    fun c hc => (takes_decimal c).trans (hr c hc)

/-- A point after plain digits belongs to the number. -/
theorem number_takes_point {raw more : List Char} (h : IsInteger raw) :
    number.match? (raw ++ '.' :: more) ≠ some ⟨raw.length, '.' :: more⟩ := by
  intro hm
  rw [Pattern.match?_of_flags rfl, number_regex, Regex.ways, hexNumber_ways_point h,
    List.nil_append] at hm
  have hdot : ((Regex.char '.').ways false ('.' :: more)).head? = some ⟨1, more⟩ := rfl
  have hpoint : (point.ways false ('.' :: more)).head? = _ :=
    Regex.head?_ways_left _ (Regex.head?_ways_seq hdot (head?_ways_decimals more))
  have hdigits : decimalDigit.plus.ReadsFirst raw ('.' :: more) :=
    readsFirst_digits h (by rintro _ ⟨⟩; decide)
  have hwhole : (mantissa.ways false (raw ++ '.' :: more)).head? = _ :=
    Regex.head?_ways_left _ (Regex.head?_ways_seq hdigits hpoint)
  obtain ⟨last, hlast⟩ : ∃ last,
      (exponent.ways false (more.dropWhile Text.isDecimal)).head? = some last :=
    Regex.head?_ways_optional _ _
  rw [Regex.head?_ways_seq hwhole hlast, Option.some.injEq] at hm
  have := congrArg Regex.Way.length hm
  simp only [Regex.Way.length_after] at this
  omega

theorem number_head {t : List Char} (h : number.regex.Spells t) :
    ∃ c rest, t = c :: rest ∧ (Text.isDecimal c = true ∨ c = '.') := by
  rcases number_cases h with ⟨digits, rfl, -⟩ | ⟨mantissa, exponent, rfl, hm, -⟩
  · exact ⟨_, _, rfl, .inl (by decide)⟩
  · have hdigit : ∀ {m : List Char}, IsInteger m →
        ∃ c rest, m ++ exponent = c :: rest ∧ (Text.isDecimal c = true ∨ c = '.') := by
      rintro (_ | ⟨c, m⟩) ⟨hne, hall⟩
      · exact absurd rfl hne
      · exact ⟨c, _, rfl, .inl (hall c List.mem_cons_self)⟩
    rcases hm with hm | ⟨whole, fraction, rfl, hw, -⟩ | ⟨fraction, rfl, -⟩
    · exact hdigit hm
    · obtain ⟨c, m, rfl⟩ := List.exists_cons_of_ne_nil hw.1
      exact ⟨c, _, rfl, .inl (hw.2 c List.mem_cons_self)⟩
    · exact ⟨_, _, rfl, .inr rfl⟩

/-! ## Names and keywords -/

def isNameStart (c : Char) : Bool :=
  ('A' ≤ c && c ≤ 'Z') || ('a' ≤ c && c ≤ 'z') || c == '_' || c == '$'

def isNameChar (c : Char) : Bool :=
  Text.isWord c || c == '$'

theorem ascii_of_start {c : Char} (h : isNameStart c = true) : c.toNat < 128 := by
  simp only [isNameStart, Bool.or_eq_true, Bool.and_eq_true, decide_eq_true_eq, beq_iff_eq,
    Char.le_def, UInt32.le_iff_toNat_le] at h
  rcases h with ((h | h) | rfl) | rfl
  · have hc : 65 ≤ c.toNat ∧ c.toNat ≤ 90 := h
    omega
  · have hc : 97 ≤ c.toNat ∧ c.toNat ≤ 122 := h
    omega
  · decide
  · decide

theorem isNameChar_of_start {c : Char} (h : isNameStart c = true) : isNameChar c = true :=
  forall_ascii (P := fun c => isNameStart c = true → isNameChar c = true) (by decide +kernel)
    (ascii_of_start h) h

theorem isNameChar_of_mentions {c : Char} (h : name.regex.mentions c = true) :
    isNameChar c = true := by
  have h : isNameStart c = true ∨ isNameChar c = true := by
    simpa [name, wordOrDollar, Regex.mentions, CharClass.contains, isNameStart, isNameChar,
      or_assoc] using h
  exact h.elim isNameChar_of_start id

theorem name_cases {t : List Char} (h : name.regex.Spells t) :
    ∃ c rest, t = c :: rest ∧ isNameStart c = true ∧ ∀ d ∈ t, isNameChar d = true := by
  obtain ⟨s, rest, rfl, hs, hr⟩ := seq_iff.mp h
  obtain ⟨c, rfl, hc⟩ := oneOf_iff.mp hs
  have hstart : isNameStart c = true := by
    simpa [isNameStart, CharClass.contains, or_assoc] using hc
  refine ⟨c, rest, rfl, hstart, List.forall_mem_cons.mpr ⟨isNameChar_of_start hstart, ?_⟩⟩
  intro d hd
  have := star_oneOf hr d hd
  simpa [isNameChar, CharClass.contains] using this

/-- The words that are literals. -/
def keywords : List (List Char) :=
  ["true".toList, "false".toList, "null".toList]

theorem ways_wordOrDollar (text : List Char) :
    (wordOrDollar.ways false text).isEmpty = !text.head?.any isNameChar := by
  cases text with
  | nil => rfl
  | cons c rest =>
    have hclass : Regex.classesContain false [.word, .char '$'] c = isNameChar c := by
      simp [Regex.classesContain, CharClass.contains, isNameChar]
    rw [wordOrDollar, Regex.ways, hclass]
    cases h : isNameChar c <;> simp [h]

/-- One of the keywords, without what must not follow it. -/
def anyKeyword : Regex :=
  .alt (Regex.literal ['t', 'r', 'u', 'e'])
    (.alt (Regex.literal ['f', 'a', 'l', 's', 'e']) (Regex.literal ['n', 'u', 'l', 'l']))

theorem mem_ways_anyKeyword {text : List Char} {way : Regex.Way} :
    way ∈ anyKeyword.ways false text ↔
      ∃ word ∈ keywords, word <+: text ∧ way = ⟨word.length, text.drop word.length⟩ := by
  simp only [anyKeyword, Regex.ways, List.mem_append, Regex.mem_ways_literal, keywords,
    List.mem_cons, List.not_mem_nil, or_false, exists_eq_or_imp, exists_eq_left]
  rfl

theorem mem_ways_keyword {text : List Char} {way : Regex.Way} :
    way ∈ keyword.regex.ways false text ↔
      ∃ word ∈ keywords, word <+: text ∧ way = ⟨word.length, text.drop word.length⟩ ∧
        way.rest.head?.any isNameChar = false := by
  change way ∈ (Regex.seq anyKeyword (.notAhead wordOrDollar)).ways false text ↔ _
  rw [Regex.ways, List.mem_flatMap]
  constructor
  · rintro ⟨w, hw, h⟩
    obtain ⟨word, hword, hp, rfl⟩ := mem_ways_anyKeyword.mp hw
    obtain ⟨n, hn, rfl⟩ := List.mem_map.mp h
    rw [Regex.ways, ways_wordOrDollar] at hn
    cases hc : (text.drop word.length).head?.any isNameChar with
    | true =>
      simp only [hc, Bool.not_true, Bool.false_eq_true, if_false, List.not_mem_nil] at hn
    | false =>
      simp only [hc, Bool.not_false, if_true, List.mem_singleton] at hn
      subst hn
      exact ⟨word, hword, hp, by simp, hc⟩
  · rintro ⟨word, hword, hp, rfl, hc⟩
    refine ⟨_, mem_ways_anyKeyword.mpr ⟨word, hword, hp, rfl⟩, List.mem_map.mpr
      ⟨⟨0, text.drop word.length⟩, ?_, rfl⟩⟩
    rw [Regex.ways, ways_wordOrDollar, hc]
    simp

theorem keyword_cases {text : List Char} {way : Regex.Way} (h : keyword.match? text = some way) :
    ∃ word ∈ keywords, text = word ++ way.rest ∧ way.length = word.length ∧
      way.rest.head?.any isNameChar = false := by
  rw [Pattern.match?_of_flags rfl] at h
  obtain ⟨word, hword, ⟨more, rfl⟩, rfl, hr⟩ := mem_ways_keyword.mp (List.mem_of_mem_head? h)
  exact ⟨word, hword, by simp, rfl, hr⟩

/-- No keyword is the start of another one. -/
theorem keywords_prefix {word other : List Char} (hw : word ∈ keywords) (ho : other ∈ keywords)
    {text : List Char} (h : word <+: text) (h' : other <+: text) : other = word := by
  have hall : ∀ v ∈ keywords, ∀ w ∈ keywords, v <+: w → v = w := by decide
  rcases List.prefix_or_prefix_of_prefix h h' with hp | hp
  · exact (hall word hw other ho hp).symm
  · exact hall other ho word hw hp

theorem match?_keyword {word rest : List Char} (hw : word ∈ keywords)
    (hr : rest.head?.any isNameChar = false) :
    keyword.match? (word ++ rest) = some ⟨word.length, rest⟩ := by
  have hmem : ⟨word.length, rest⟩ ∈ keyword.regex.ways false (word ++ rest) :=
    mem_ways_keyword.mpr ⟨word, hw, List.prefix_append _ _, by simp, hr⟩
  rw [Pattern.match?_of_flags rfl]
  cases hways : keyword.regex.ways false (word ++ rest) with
  | nil => simp [hways] at hmem
  | cons way ways =>
    obtain ⟨other, ho, hp, rfl, -⟩ :=
      mem_ways_keyword.mp (hways ▸ List.mem_cons_self : way ∈ keyword.regex.ways false _)
    obtain rfl := keywords_prefix hw ho (List.prefix_append _ _) hp
    simp

/-- A name that is no keyword is not read as one. -/
theorem match?_keyword_name {raw rest : List Char} (hn : ∀ c ∈ raw, isNameChar c = true)
    (hk : raw ∉ keywords) (hr : rest.head?.any isNameChar = false) :
    keyword.match? (raw ++ rest) = none := by
  have hwhile : ∀ {s t : List Char}, (∀ c ∈ s, isNameChar c = true) →
      t.head?.any isNameChar = false → (s ++ t).takeWhile isNameChar = s := by
    intro s t hs ht
    rw [List.takeWhile_append_of_pos hs]
    cases t with
    | nil => simp
    | cons c t => simp_all
  cases h : keyword.match? (raw ++ rest) with
  | none => rfl
  | some way =>
    obtain ⟨word, hword, he, -, hrest⟩ := keyword_cases h
    have hall : ∀ w ∈ keywords, ∀ c ∈ w, isNameChar c = true := by decide
    have := congrArg (List.takeWhile isNameChar) he
    rw [hwhile hn hr, hwhile (hall word hword) hrest] at this
    exact absurd (this ▸ hword) hk

/-! ## Strings -/

/-- What stands between the marks of a string. -/
inductive Body (mark : Char) : List Char → Prop where

  | nil : Body mark []

  | plain {c : Char} {rest : List Char} : c ≠ mark → c ≠ '\\' → Body mark rest →
      Body mark (c :: rest)

  | escaped {c : Char} {rest : List Char} : Body mark rest → Body mark ('\\' :: c :: rest)

theorem body_of_spells {mark : Char} {t : List Char}
    (h : (Regex.star (.alt (.oneOf true [.char mark, .char '\\', .char '\n'])
      (.seq (.char '\\') Regex.anyChar))).Spells t) : Body mark t := by
  generalize hr : Regex.star _ = regex at h
  induction h with
  | nil => exact .nil
  | more hs _ _ ih =>
    cases hr
    rcases alt_iff.mp hs with hs | hs
    · obtain ⟨c, rfl, hc⟩ := oneOf_iff.mp hs
      simp [CharClass.contains] at hc
      exact .plain hc.1 hc.2.1 (ih rfl)
    · obtain ⟨s, r, rfl, hs, hr⟩ := seq_iff.mp hs
      obtain rfl := char_iff.mp hs
      obtain ⟨c, rfl, -⟩ := oneOf_iff.mp hr
      exact .escaped (ih rfl)
  | _ => cases hr

/-- The first mark that is not escaped closes a string. -/
theorem Body.unique {mark : Char} (hm : mark ≠ '\\') {s t x y : List Char} (hs : Body mark s)
    (ht : Body mark t) (h : s ++ mark :: x = t ++ mark :: y) : s = t ∧ x = y := by
  induction hs generalizing t with
  | nil =>
    cases ht with
    | nil => simpa using h
    | plain hc _ _ => simp_all
    | escaped _ => simp_all
  | plain hc hb _ ih =>
    cases ht with
    | nil => simp_all
    | plain _ _ ht =>
      simp only [List.cons_append, List.cons.injEq] at h
      obtain ⟨rfl, h⟩ := h
      obtain ⟨rfl, rfl⟩ := ih ht h
      exact ⟨rfl, rfl⟩
    | escaped _ => simp_all
  | escaped _ ih =>
    cases ht with
    | nil =>
      simp only [List.cons_append, List.nil_append, List.cons.injEq] at h
      exact absurd h.1.symm hm
    | plain _ hb _ =>
      simp only [List.cons_append, List.cons.injEq] at h
      exact absurd h.1.symm hb
    | escaped ht =>
      simp only [List.cons_append, List.cons.injEq, true_and] at h
      obtain ⟨rfl, h⟩ := h
      obtain ⟨rfl, rfl⟩ := ih ht h
      exact ⟨rfl, rfl⟩

theorem string_cases {t : List Char} (h : string.regex.Spells t) :
    ∃ mark body, (mark = '"' ∨ mark = '\'') ∧ t = mark :: body ++ [mark] ∧ Body mark body := by
  have hin : ∀ {mark : Char}, (stringIn mark).Spells t →
      ∃ body, t = mark :: body ++ [mark] ∧ Body mark body := by
    intro mark h
    obtain ⟨s, r, rfl, hs, hr⟩ := seq_iff.mp h
    obtain ⟨body, e, rfl, hb, he⟩ := seq_iff.mp hr
    rw [char_iff] at hs he
    subst hs he
    exact ⟨body, rfl, body_of_spells hb⟩
  rcases alt_iff.mp h with h | h
  · obtain ⟨body, rfl, hb⟩ := hin h
    exact ⟨_, body, .inl rfl, rfl, hb⟩
  · obtain ⟨body, rfl, hb⟩ := hin h
    exact ⟨_, body, .inr rfl, rfl, hb⟩

/-- A string ends where it is closed, whatever follows. -/
theorem bounds_string {raw : List Char} (h : string.regex.Spells raw) (rest : List Char) :
    string.Bounds raw rest := by
  rintro c more rfl longer hl ⟨after, he⟩
  obtain ⟨mark, body, hm, rfl, hb⟩ := string_cases h
  obtain ⟨mark', body', -, rfl, hb'⟩ := string_cases hl
  simp only [List.cons_append, List.append_assoc, List.nil_append, List.cons.injEq] at he
  obtain ⟨rfl, he⟩ := he
  have := (hb.unique (by rcases hm with rfl | rfl <;> decide) hb' he).2
  simp at this

/-! ## Blanks and marks -/

theorem match?_blanks (text : List Char) :
    Pattern.blanks.match? text =
      some ⟨(text.takeWhile Text.isBlank).length, text.dropWhile Text.isBlank⟩ := by
  have hclass : (fun c => ([CharClass.blank].any (·.contains c) != false)) = Text.isBlank := by
    funext c
    simp [CharClass.contains]
  rw [Pattern.match?_of_flags rfl, Pattern.blanks, Regex.head?_ways_star, hclass]

def punctuation : List Char :=
  ['(', ')', '[', ']', '\x7b', '\x7d', ',', ':', '?', '.', '!', '~', '+', '-', '*', '/', '%', '<',
    '>', '=', '&', '|']

/-- What may stand between the tokens that hold the content of a source. -/
def isMark (c : Char) : Bool :=
  Text.isBlank c || punctuation.contains c

theorem isMark_of_start {c : Char} (h : isNameStart c = true) : isMark c = false :=
  forall_ascii (P := fun c => isNameStart c = true → isMark c = false) (by decide +kernel)
    (ascii_of_start h) h

theorem isDecimal_of_start {c : Char} (h : isNameStart c = true) : Text.isDecimal c = false :=
  forall_ascii (P := fun c => isNameStart c = true → Text.isDecimal c = false) (by decide +kernel)
    (ascii_of_start h) h

/-- A decimal digit is in one of the blocks. -/
theorem decimal_range {c : Char} (h : Text.isDecimal c = true) :
    ∃ first ∈ Text.decimalZeros, first ≤ c.toNat ∧ c.toNat < first + 10 := by
  rw [Text.isDecimal, Text.decimalValue?, Option.isSome_map, Option.isSome_iff_exists] at h
  obtain ⟨first, hz⟩ := h
  exact ⟨first, List.mem_of_find?_eq_some hz, by simpa using List.find?_some hz⟩

theorem isMark_of_decimal {c : Char} (h : Text.isDecimal c = true) : isMark c = false := by
  have hblank : Text.isBlank c = false := by
    obtain ⟨first, hz, hle, hlt⟩ := decimal_range h
    have hapart : ∀ z ∈ Text.decimalZeros, ∀ range ∈ Text.blankRanges,
        z + 10 ≤ range.1 ∨ range.2 < z := by decide +kernel
    rw [Text.isBlank, Text.Ranges.contains, List.any_eq_false]
    intro range hr
    have := hapart first hz range hr
    simp only [Bool.and_eq_true, decide_eq_true_eq]
    omega
  have hpunctuation : ∀ d ∈ punctuation, Text.isDecimal d = false := by decide
  rw [isMark, hblank, Bool.false_or, List.contains_eq_mem, decide_eq_false_iff_not]
  intro hmem
  rw [hpunctuation c hmem] at h
  cases h

end Token

end GatedExpr
