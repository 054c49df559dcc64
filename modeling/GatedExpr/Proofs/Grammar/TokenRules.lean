import GatedExpr.Proofs.Grammar.Following

/-! # The rules of tokens

When the rules of leaves and the matchers of marks match and when they fail: the texts that come
next are read if nothing follows that they could go on with, and the first character after the
blanks tells which rules cannot match.
-/

namespace GatedExpr

namespace Matcher

open ExpressionGrammar Token

variable {n depth : Nat} {matcher : Matcher} {s t r : List Char} {raw : String} {value : Value}
  {P : Value → Prop}

/-! ## Marks -/

theorem matches_mark {text : String} (hs : s.dropWhile Text.isBlank = text.toList ++ r) :
    (mark text).Matches depth s r (IsToken text) := by
  apply matches_spaced
  rw [hs]
  exact matches_literal text r

theorem fails_mark {text : String} {c : Char} {more : List Char} (ht : text.toList = c :: more)
    (h : next s ≠ some c) : (mark text).Fails depth s := by
  refine fails_spaced (fails_literal fun hp => h ?_)
  rw [ht] at hp
  obtain ⟨rest, hrest⟩ := hp
  rw [next, ← hrest]
  rfl

theorem matchEach_last {text : String} (hs : Spread [text] s r) (ho : Opens text) :
    MatchEach depth [mark text] s r fun vs => ∃ v, vs = [v] ∧ IsToken text v := by
  obtain ⟨after, hafter, -, hrest⟩ := hs.peel ho
  cases hrest
  intro source cursor hc
  obtain ⟨vs, last, hr, hl, v, _, rfl, hv, rfl⟩ :=
    matchEach_cons (matches_mark hafter) (matchEach_nil r) hc
  exact ⟨_, last, hr, hl, v, rfl, hv⟩

/-! ## Tokens -/

theorem matches_token {pattern : Pattern} (hs : s.dropWhile Text.isBlank = raw.toList ++ r)
    (hm : pattern.match? (raw.toList ++ r) = some ⟨raw.toList.length, r⟩) :
    (spaced (.pattern pattern)).Matches depth s r (IsToken raw) := by
  apply matches_spaced
  rw [hs]
  exact matches_pattern hm

theorem single (hs : Spread [raw] s r) (ho : Opens raw) :
    s.dropWhile Text.isBlank = raw.toList ++ r ∧ Ends raw r.head? := by
  obtain ⟨after, hafter, he, hrest⟩ := hs.peel ho
  cases hrest
  exact ⟨hafter, he⟩

theorem matches_number (h : IsNumber raw value) (hs : Spread [raw] s r)
    (hr : Follows followers r) :
    (named "Number").Matches (n + 1) s r fun v => ∃ span, v = .literal span raw value := by
  obtain ⟨hs, he⟩ := single hs (opens_of_number h)
  obtain ⟨ha, m, hm, rfl⟩ := h
  refine matches_rule rfl (matches_token hs (match?_number_of_ends ha he hr)) ?_
  rintro v ⟨span, rfl⟩
  exact ⟨_, onNumber_token.mpr ⟨m, hm, rfl⟩, fun _ => ⟨span, rfl⟩⟩

theorem matches_string (h : IsString raw value) (hs : Spread [raw] s r) :
    (named "String").Matches (n + 1) s r fun v => ∃ span, v = .literal span raw value := by
  obtain ⟨hs, -⟩ := single hs (opens_of_string h)
  obtain ⟨ha, rfl⟩ := h
  refine matches_rule rfl (matches_token hs (match?_string ha r)) ?_
  rintro v ⟨span, rfl⟩
  exact ⟨_, onString_token raw span, fun _ => ⟨span, rfl⟩⟩

theorem matches_keyword (h : IsKeyword raw value) (hs : Spread [raw] s r)
    (hr : Follows followers r) :
    (named "Keyword").Matches (n + 1) s r fun v => ∃ span, v = .literal span raw value := by
  obtain ⟨hs, -⟩ := single hs (opens_of_keyword h)
  have hword : raw.toList ∈ keywords := by
    cases h <;> decide
  refine matches_rule rfl (matches_token hs (match?_keyword hword hr.not_nameChar)) ?_
  rintro v ⟨span, rfl⟩
  exact ⟨_, onKeyword_token h, fun _ => ⟨span, rfl⟩⟩

theorem matches_identifierName (h : IsName raw) (hs : Spread [raw] s r)
    (hr : Follows followers r) :
    (named "IdentifierName").Matches (n + 1) s r fun v => ∃ span, v = .identifier span raw := by
  obtain ⟨hs, -⟩ := single hs (opens_of_name h)
  refine matches_rule rfl (matches_token hs (match?_name_of_follows h hr)) ?_
  rintro v ⟨span, rfl⟩
  exact ⟨_, onIdentifierName_token raw span, fun _ => ⟨span, rfl⟩⟩

theorem matches_identifier (h : IsName raw) (hfree : raw ∉ reservedWords)
    (hs : Spread [raw] s r) (hr : Follows followers r) :
    (named "Identifier").Matches (n + 1) s r fun v => ∃ span, v = .identifier span raw := by
  obtain ⟨hs, -⟩ := single hs (opens_of_name h)
  refine matches_rule rfl (matches_token hs (match?_name_of_follows h hr)) ?_
  rintro v ⟨span, rfl⟩
  refine ⟨.identifier span raw, ?_, fun _ => ⟨span, rfl⟩⟩
  exact (onIdentifier_token raw span).trans (by rw [if_neg hfree])

/-! ## Tokens that are not read -/

theorem fails_token {kind : String} {pattern : Pattern} {onMatch : Option Transform}
    (hl : withOperators.rules.lookup kind =
      some { kind, rule := some (spaced (.pattern pattern)), onMatch, fallback := none })
    (hm : pattern.match? (s.dropWhile Text.isBlank) = none) : (named kind).Fails (n + 1) s :=
  fails_rule hl (fails_spaced (fails_pattern hm))

theorem fails_number (h : ∀ c, next s = some c → Text.isDecimal c = false ∧ c ≠ '.') :
    (named "Number").Fails (n + 1) s := by
  refine fails_token rfl (match?_eq_none_of_head rfl fun t ht => ?_)
  obtain ⟨c, rest, rfl, hc⟩ := number_head ht
  refine ⟨c, rest, rfl, fun hn => ?_⟩
  obtain ⟨hdecimal, hpoint⟩ := h c hn
  rcases hc with hc | hc
  · rw [hdecimal] at hc
    cases hc
  · exact hpoint hc

theorem fails_string (h : ∀ c, next s = some c → c ≠ '"' ∧ c ≠ '\'') :
    (named "String").Fails (n + 1) s := by
  refine fails_token rfl (match?_eq_none_of_head rfl fun t ht => ?_)
  obtain ⟨mark, body, hmark, rfl, -⟩ := string_cases ht
  refine ⟨mark, _, rfl, fun hn => ?_⟩
  rcases hmark with rfl | rfl
  · exact (h _ hn).1 rfl
  · exact (h _ hn).2 rfl

theorem fails_keyword (h : ∀ c, next s = some c → isNameStart c = false) :
    (named "Keyword").Fails (n + 1) s :=
  fails_token rfl (keyword_eq_none h)

/-- A name that is no keyword is not read as one. -/
theorem fails_keyword_name (h : IsName raw) (hfree : raw ∉ reservedWords)
    (hs : Spread [raw] s r) (hr : Follows followers r) : (named "Keyword").Fails (n + 1) s := by
  obtain ⟨hs, -⟩ := single hs (opens_of_name h)
  refine fails_token rfl ?_
  rw [hs]
  obtain ⟨c, rest, he, -, hall⟩ := name_cases (h.spells rfl)
  refine match?_keyword_name hall (fun hk => hfree ?_) hr.not_nameChar
  have hreserved : ∀ w ∈ keywords, String.ofList w ∈ reservedWords := by decide
  rw [← String.ofList_toList (s := raw)]
  exact hreserved _ hk

theorem name_eq_none (h : ∀ c, next s = some c → isNameStart c = false) :
    name.match? (s.dropWhile Text.isBlank) = none := by
  refine match?_eq_none_of_head rfl fun t ht => ?_
  obtain ⟨c, rest, rfl, hc, -⟩ := name_cases ht
  refine ⟨c, rest, rfl, fun hn => ?_⟩
  rw [h c hn] at hc
  cases hc

/-- What holds of the first character of the first text holds of the one that comes next. -/
theorem forall_next {text : String} {texts : List String} {c : Char} {rest : List Char}
    {p : Char → Prop} (hs : Spread (text :: texts) s r) (he : text.toList = c :: rest)
    (hb : Text.isBlank c = false) (hp : p c) : ∀ d, next s = some d → p d := by
  intro d hd
  rw [hs.next_eq (by rw [he]; rfl) hb] at hd
  cases hd
  exact hp

theorem fails_number_string (h : IsString raw value) (hs : Spread [raw] s r) :
    (named "Number").Fails (n + 1) s := by
  obtain ⟨mark, body, hmark, he, -⟩ := string_cases (h.1.spells rfl)
  rcases hmark with rfl | rfl <;>
    exact fails_number (forall_next hs he (by decide) (by decide))

/-- Neither a number nor a string begins like a name. -/
theorem fails_leaves_name {c : Char} {rest : List Char} (hs : Spread [raw] s r)
    (he : raw.toList = c :: rest) (hc : isNameStart c = true) :
    (named "Number").Fails (n + 1) s ∧ (named "String").Fails (n + 1) s := by
  have hb := isBlank_of_isMark (isMark_of_start hc)
  refine ⟨fails_number (forall_next hs he hb ⟨isDecimal_of_start hc, ?_⟩),
    fails_string (forall_next hs he hb ⟨?_, ?_⟩)⟩ <;>
    · rintro rfl
      revert hc
      decide

/-- Neither a name nor a string begins like a number. -/
theorem fails_leaves_number (h : IsNumber raw value) (hs : Spread [raw] s r) :
    (named "IdentifierName").Fails (n + 1) s ∧ (named "String").Fails (n + 1) s := by
  obtain ⟨c, rest, he, hc⟩ := number_head (h.1.spells rfl)
  have hb : Text.isBlank c = false := by
    rcases hc with hc | rfl
    · exact isBlank_of_isMark (isMark_of_decimal hc)
    · decide
  have hstart : isNameStart c = false := by
    rw [Bool.eq_false_iff]
    intro hstart
    rcases hc with hc | rfl
    · rw [isDecimal_of_start hstart] at hc
      cases hc
    · revert hstart
      decide
  refine ⟨fails_token rfl (name_eq_none (forall_next hs he hb hstart)),
    fails_string (forall_next hs he hb ⟨?_, ?_⟩)⟩ <;>
    · rintro rfl
      revert hc
      decide

/-- Marks that no number, text or name begins with. -/
def plainMarks : List Char :=
  ['[', '\x7b', '('] ++ terminators

/-- No token is read before such a mark. -/
theorem fails_tokens (h : Follows plainMarks s) :
    (named "Number").Fails (n + 1) s ∧ (named "String").Fails (n + 1) s ∧
      (named "Keyword").Fails (n + 1) s ∧ (named "Identifier").Fails (n + 1) s ∧
      (named "IdentifierName").Fails (n + 1) s := by
  have hnumber : ∀ d ∈ plainMarks, Text.isDecimal d = false ∧ d ≠ '.' := by decide
  have hstring : ∀ d ∈ plainMarks, d ≠ '"' ∧ d ≠ '\'' := by decide
  have hname : ∀ d ∈ plainMarks, isNameStart d = false := by decide
  exact ⟨fails_number fun c hc => hnumber c (h c hc), fails_string fun c hc => hstring c (h c hc),
    fails_keyword fun c hc => hname c (h c hc),
    fails_token rfl (name_eq_none fun c hc => hname c (h c hc)),
    fails_token rfl (name_eq_none fun c hc => hname c (h c hc))⟩

/-- A rule that begins with a mark fails before another character. -/
theorem fails_opening {kind text : String} {c : Char} {more : List Char} {parts : List Matcher}
    {onMatch : Option Transform}
    (hl : withOperators.rules.lookup kind =
      some { kind, rule := some (.sequence (mark text :: parts)), onMatch, fallback := none })
    (ht : text.toList = c :: more) (h : next s ≠ some c) : (named kind).Fails (n + 1) s :=
  fails_rule hl (fails_sequence (fails_mark ht h))

/-! ## Operands that are missing -/

theorem fails_symbols {symbols : List String} {heads : List Char}
    (hheads : ∀ symbol ∈ symbols, ∃ c ∈ symbol.toList.head?, c ∈ heads)
    (h : ∀ c, next s = some c → c ∉ heads) :
    (spaced (.alternation (symbols.map .literal))).Fails depth s := by
  refine fails_spaced (fails_alternation fun option ho => ?_)
  obtain ⟨symbol, hmem, rfl⟩ := List.mem_map.mp ho
  obtain ⟨c, hc, hin⟩ := hheads symbol hmem
  refine fails_literal fun hp => h c ?_ hin
  cases ht : symbol.toList with
  | nil => simp [ht] at hc
  | cons d more =>
    rw [ht] at hc hp
    cases hc
    obtain ⟨rest, hrest⟩ := hp
    rw [next, ← hrest]
    rfl

/-- The characters that prefix operators begin with. -/
def signHeads : List Char :=
  ['!', '~', '+', '-']

theorem fails_unaryOperation (h : ∀ c, next s = some c → c ∉ signHeads) :
    (named "UnaryOperation").Fails (n + 1) s := by
  refine fails_rule rfl (fails_sequence ?_)
  rw [signs_eq_map]
  exact fails_symbols (by decide) h

/-- Nothing that begins an expression comes next. -/
theorem fails_expression (h : Follows terminators s) : (named "Expression").Fails (n + 4) s := by
  have hsign : ∀ d ∈ terminators, d ∉ signHeads := by decide
  have hopening : ∀ d ∈ terminators, d ≠ '[' ∧ d ≠ '\x7b' ∧ d ≠ '(' := by decide
  obtain ⟨hnumber, hstring, hkeyword, hname, -⟩ :=
    fails_tokens (h.mono (List.subset_append_right _ _))
  have hprimary : (named "Primary").Fails (n + 2) s := by
    refine fails_rule rfl (fails_alternation ?_)
    simp only [List.forall_mem_cons]
    exact ⟨hnumber, hstring, hkeyword, hname,
      fails_opening rfl rfl fun hc => (hopening _ (h _ hc)).1 rfl,
      fails_opening rfl rfl fun hc => (hopening _ (h _ hc)).2.1 rfl,
      fails_opening rfl rfl fun hc => (hopening _ (h _ hc)).2.2 rfl, by simp⟩
  refine fails_rule rfl (fails_sequence (fails_alternation ?_))
  simp only [List.forall_mem_cons]
  exact ⟨fails_unaryOperation fun c hc => hsign c (h c hc),
    fails_rule rfl (fails_sequence hprimary), by simp⟩

theorem fails_property (h : Follows terminators s) : (named "Property").Fails (n + 3) s := by
  obtain ⟨hnumber, hstring, -, -, hname⟩ :=
    fails_tokens (h.mono (List.subset_append_right _ _))
  refine fails_rule rfl (fails_sequence (fails_rule rfl (fails_alternation ?_)))
  simp only [List.forall_mem_cons]
  exact ⟨hname, hstring, hnumber, by simp⟩

end Matcher

end GatedExpr
