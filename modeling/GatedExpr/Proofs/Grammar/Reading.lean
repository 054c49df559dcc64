import GatedExpr.Proofs.Grammar.Shallow
import GatedExpr.Proofs.Grammar.Written

/-! # What a run has read

Every rule that succeeds yields a tree of some expression, and the lexemes of the run are a way to
write that expression at the depth of the run. The induction is on the depth; one rule at a time
is treated, given that references one level deeper are.
-/

namespace GatedExpr

namespace Token

variable {raw text : String} {value : Value} {c : Char} {rest r : List Char}

/-- The characters that infix operators begin with. -/
def infixHeads : List Char :=
  ['|', '&', '=', '!', '<', '>', '+', '-', '*', '/', '%']

theorem not_infix_of_head (he : raw.toList = c :: rest) (hc : c ∉ infixHeads) :
    raw ∉ infixSymbols := by
  have hall : ∀ symbol ∈ infixSymbols, ∃ d ∈ symbol.toList.head?, d ∈ infixHeads := by decide
  intro hmem
  obtain ⟨d, hd, hin⟩ := hall raw hmem
  rw [he] at hd
  cases hd
  exact hc hin

theorem not_infixHead (h : isMark c = false) : c ∉ infixHeads := by
  have hall : ∀ d ∈ infixHeads, isMark d = true := by decide
  intro hc
  rw [hall c hc] at h
  cases h

/-- A text that begins neither like an integer nor like an operator goes on with nothing. -/
theorem ends_of_head (he : raw.toList = c :: rest) (hd : Text.isDecimal c = false)
    (hc : c ∉ infixHeads) (next : Option Char) : Ends raw next := by
  refine ⟨fun hi => ?_, fun _ _ hmem => absurd hmem (not_infix_of_head he hc)⟩
  have := hi.2 c (he ▸ List.mem_cons_self)
  rw [hd] at this
  cases this

theorem ends_of_number (h : number.match? (raw.toList ++ r) = some ⟨raw.toList.length, r⟩) :
    Ends raw r.head? := by
  constructor
  · intro hi hr
    cases r with
    | nil => cases hr
    | cons c more =>
      cases hr
      exact number_takes_point hi h
  · intro _ _ hmem
    obtain ⟨c, rest, he, hc⟩ :=
      number_head ((Pattern.accepts_of_match? rfl isPlain_number h).spells rfl)
    refine absurd hmem (not_infix_of_head he ?_)
    rcases hc with hc | rfl
    · exact not_infixHead (isMark_of_decimal hc)
    · decide

theorem ends_of_string (h : IsString raw value) (next : Option Char) : Ends raw next := by
  obtain ⟨mark, body, hmark, he, -⟩ := string_cases (h.1.spells rfl)
  rcases hmark with rfl | rfl <;> exact ends_of_head he (by decide) (by decide) next

theorem ends_of_keyword (h : IsKeyword raw value) (next : Option Char) : Ends raw next := by
  cases h <;> exact ends_of_head rfl (by decide) (by decide) next

theorem ends_of_name (h : IsName raw) (next : Option Char) : Ends raw next := by
  obtain ⟨c, rest, he, hstart, -⟩ := name_cases (h.spells rfl)
  exact ends_of_head he (isDecimal_of_start hstart) (not_infixHead (isMark_of_start hstart)) next

theorem ends_of_sign (h : text ∈ UnaryOperator.all.map (·.symbol)) (next : Option Char) :
    Ends text next := by
  have hall : ∀ sign ∈ UnaryOperator.all.map (·.symbol), ¬ IsInteger sign.toList ∧
      ∀ other ∈ infixSymbols, sign ∈ infixSymbols → sign.toList <+: other.toList →
        other.toList.length = sign.toList.length := by decide
  obtain ⟨hi, hlong⟩ := hall text h
  refine ⟨fun hinteger => absurd hinteger hi, fun c _ hmem other ho hp => ?_⟩
  have hlength := hlong other ho hmem ((List.prefix_append _ _).trans hp)
  have := hp.length_le
  rw [List.length_append, List.length_singleton] at this
  omega

/-- An infix operator that was read after all longer ones had been tried. -/
theorem ends_of_first {symbol : String} (hmem : symbol ∈ infixSymbols)
    (hfirst : ∀ other ∈ infixSymbols.takeWhile (· != symbol),
      ¬ other.toList <+: symbol.toList ++ r) : Ends symbol r.head? := by
  have hall : ∀ symbol ∈ infixSymbols, ¬ IsInteger symbol.toList ∧
      ∀ other ∈ infixSymbols, symbol.toList <+: other.toList →
        other.toList.length ≤ symbol.toList.length ∨
          other.toList.length = symbol.toList.length + 1 ∧
            other ∈ infixSymbols.takeWhile (· != symbol) := by decide
  obtain ⟨hi, hlong⟩ := hall symbol hmem
  refine ⟨fun hinteger => absurd hinteger hi, fun c hr _ other ho hp => ?_⟩
  have hle := hp.length_le
  rw [List.length_append, List.length_singleton] at hle
  rcases hlong other ho ((List.prefix_append _ _).trans hp) with hshort | ⟨hlength, hearly⟩
  · omega
  · obtain ⟨more, rfl⟩ : ∃ more, r = c :: more := by
      cases r with
      | nil => cases hr
      | cons d more =>
        cases hr
        exact ⟨more, rfl⟩
    have heq := hp.eq_of_length (by rw [List.length_append, List.length_singleton, hlength])
    refine hfirst other hearly ⟨more, ?_⟩
    rw [← heq]
    simp

end Token

namespace Matcher

open ExpressionGrammar Family

/-- The result shows something that the lexemes write. -/
def ReadsAs {β : Type} (depth : Nat) (construct : β → Construct) (v : Value) (l : List Lexeme)
    (a b : Place) : Prop :=
  ∃ x, (construct x).Shows v ∧ Written depth (construct x) (l.map (·.text)) ∧ Laid a l b

/-- The result is a literal of some sort, whose text was read. -/
def ReadsLiteral (depth : Nat) (holds : String → Value → Prop) (v : Value) (l : List Lexeme)
    (a b : Place) : Prop :=
  1 ≤ depth ∧ ∃ span raw value, v = .literal span raw value ∧ holds raw value ∧
    l.map (·.text) = [raw] ∧ Laid a l b

/-- The result is a name, whose text was read. -/
def ReadsName (depth : Nat) (v : Value) (l : List Lexeme) (a b : Place) : Prop :=
  1 ≤ depth ∧ ∃ span name, v = .identifier span name ∧ Token.IsName name ∧
    l.map (·.text) = [name] ∧ Laid a l b

def ReadsText (text : String) (v : Value) (l : List Lexeme) (a b : Place) : Prop :=
  IsToken text v ∧ l.map (·.text) = [text] ∧ Laid a l b

/-- What every reference yields at some depth. -/
structure Sound (depth : Nat) : Prop where
  number : (named "Number").Traces depth (ReadsLiteral depth Token.IsNumber)
  string : (named "String").Traces depth (ReadsLiteral depth Token.IsString)
  keyword : (named "Keyword").Traces depth (ReadsLiteral depth Token.IsKeyword)
  identifier : (named "Identifier").Traces depth (ReadsAs (depth + 1) .base)
  identifierName : (named "IdentifierName").Traces depth (ReadsName depth)
  array : (named "ArrayExpression").Traces depth (ReadsAs (depth + 1) .base)
  propertyKey : (named "PropertyKey").Traces depth (ReadsAs depth (.item .key))
  property : (named "Property").Traces depth (ReadsAs depth (.item .property))
  object : (named "ObjectExpression").Traces depth (ReadsAs (depth + 1) .base)
  parenthesized : (named "Parenthesized").Traces depth (ReadsAs (depth + 1) .base)
  primary : (named "Primary").Traces depth (ReadsAs depth .base)
  dot : (named "DotSuffix").Traces depth (ReadsAs depth .suffix)
  index : (named "IndexSuffix").Traces depth (ReadsAs depth .suffix)
  arguments : (named "Arguments").Traces depth (ReadsAs depth .suffix)
  chain : (named "Postfix").Traces depth (ReadsAs depth .operand)
  unaryOperation : (named "UnaryOperation").Traces depth (ReadsAs depth .operand)
  unary : (named "Unary").Traces depth fun v l a b =>
    ∃ n, depth = n + 1 ∧ ReadsAs n .operand v l a b
  expression : (named "Expression").Traces depth (ReadsAs depth (.item .value))

variable {depth : Nat} {matcher : Matcher}

/-- A rule that makes a tree of what its matcher yields. -/
theorem traces_value {kind : String} {onMatch : Option Transform}
    {P : Value → List Lexeme → Place → Place → Prop}
    {W : Expr → List Lexeme → Place → Place → Prop}
    (hl : withOperators.rules.lookup kind =
      some { kind, rule := some matcher, onMatch, fallback := none })
    (hm : matcher.Traces depth P)
    (ht : ∀ {read : Value} {l : List Lexeme} {a b : Place}, P read l a b → ∃ v e,
      Descriptor.transformed { kind, rule := some matcher, onMatch, fallback := none } read =
        .ok (some v) ∧ Depicts .value v e ∧ W e l a b) :
    (named kind).Traces (depth + 1) fun v l a b => ∃ e, Depicts .value v e ∧ W e l a b := by
  refine traces_rule hl hm ?_
  intro read result l a b hread hresult
  obtain ⟨v, e, hv, hd, hw⟩ := ht hread
  cases hv.symm.trans hresult
  rw [hd.settle]
  exact ⟨e, hd, hw⟩

/-! ## Tokens -/

theorem laid_piece {raw : String} {v : Value} {l : List Lexeme} {a b : Place}
    (h : IsPiece raw v l a.skip b) (he : Token.Ends raw b.rest.head?) :
    l.map (·.text) = [raw] ∧ Laid a l b := by
  obtain ⟨-, rfl, hrest, hposition⟩ := h
  exact ⟨rfl, Laid.single hrest hposition he⟩

theorem traces_mark (text : String)
    (ht : ¬ Token.IsInteger text.toList ∧ text ∉ infixSymbols) :
    (mark text).Traces depth (ReadsText text) :=
  (traces_spaced (traces_literal text)).mono fun _ _ _ _ h =>
    ⟨⟨_, h.1⟩, laid_piece h (Token.ends_of_mark ht _)⟩

theorem traces_token (pattern : Pattern) :
    (spaced (.pattern pattern)).Traces depth fun v l a b => ∃ raw : String,
      IsPiece raw v l a.skip b ∧
        pattern.match? (raw.toList ++ b.rest) = some ⟨raw.toList.length, b.rest⟩ :=
  traces_spaced (traces_pattern pattern)

theorem reads_number : (named "Number").Traces (depth + 1)
    (ReadsLiteral (depth + 1) Token.IsNumber) := by
  refine traces_rule rfl (traces_token _) ?_
  rintro read result l a b ⟨raw, hpiece, hm⟩ hresult
  obtain rfl := hpiece.1
  obtain ⟨n, hn, rfl⟩ := onNumber_token.mp hresult
  exact ⟨Nat.le_add_left 1 depth, _, raw, _, rfl,
    ⟨Pattern.accepts_of_match? rfl Token.isPlain_number hm, n, hn, rfl⟩,
    laid_piece hpiece (Token.ends_of_number hm)⟩

theorem reads_string : (named "String").Traces (depth + 1)
    (ReadsLiteral (depth + 1) Token.IsString) := by
  refine traces_rule rfl (traces_token _) ?_
  rintro read result l a b ⟨raw, hpiece, hm⟩ hresult
  obtain rfl := hpiece.1
  cases (onString_token raw _).symm.trans hresult
  have hstring : Token.IsString raw _ :=
    ⟨Pattern.accepts_of_match? rfl Token.isPlain_string hm, rfl⟩
  exact ⟨Nat.le_add_left 1 depth, _, raw, _, rfl, hstring,
    laid_piece hpiece (Token.ends_of_string hstring _)⟩

theorem isKeyword_of_mem {raw : String} (h : raw.toList ∈ Token.keywords) :
    ∃ value, Token.IsKeyword raw value := by
  simp only [Token.keywords, List.mem_cons, List.not_mem_nil, or_false, String.toList_inj] at h
  rcases h with rfl | rfl | rfl
  · exact ⟨_, .true⟩
  · exact ⟨_, .false⟩
  · exact ⟨_, .null⟩

/-- What is matched as a keyword becomes its literal. -/
theorem onKeyword_of_match {raw : String} {span : Span} {rest : List Char} {v : Value}
    (hm : Token.keyword.match? (raw.toList ++ rest) = some ⟨raw.toList.length, rest⟩)
    (hv : onKeyword [.ofTree (.token raw span)] = .ok (some v)) :
    ∃ value, Token.IsKeyword raw value ∧ v = .literal span raw value := by
  obtain ⟨word, hword, he, -⟩ := Token.keyword_cases hm
  obtain rfl : raw.toList = word := List.append_cancel_right he
  obtain ⟨value, hvalue⟩ := isKeyword_of_mem hword
  cases (onKeyword_token hvalue).symm.trans hv
  exact ⟨value, hvalue, rfl⟩

theorem reads_keyword : (named "Keyword").Traces (depth + 1)
    (ReadsLiteral (depth + 1) Token.IsKeyword) := by
  refine traces_rule rfl (traces_token _) ?_
  rintro read result l a b ⟨raw, hpiece, hm⟩ hresult
  obtain rfl := hpiece.1
  obtain ⟨value, hvalue, rfl⟩ := onKeyword_of_match hm hresult
  exact ⟨Nat.le_add_left 1 depth, _, raw, value, rfl, hvalue,
    laid_piece hpiece (Token.ends_of_keyword hvalue _)⟩

theorem reads_identifier :
    (named "Identifier").Traces (depth + 1) (ReadsAs (depth + 2) .base) := by
  refine traces_rule rfl (traces_token _) ?_
  rintro read result l a b ⟨raw, hpiece, hm⟩ hresult
  obtain rfl := hpiece.1
  obtain ⟨hfree, rfl⟩ := onIdentifier_eq_ok.mp hresult
  have hname : Token.IsName raw := Pattern.accepts_of_match? rfl Token.isPlain_name hm
  obtain ⟨htext, hlaid⟩ := laid_piece hpiece (Token.ends_of_name hname _)
  refine ⟨.name raw, .name hname hfree, ?_, hlaid⟩
  rw [htext]
  exact .name (Nat.le_add_left 2 depth) hname hfree

theorem reads_identifierName :
    (named "IdentifierName").Traces (depth + 1) (ReadsName (depth + 1)) := by
  refine traces_rule rfl (traces_token _) ?_
  rintro read result l a b ⟨raw, hpiece, hm⟩ hresult
  obtain rfl := hpiece.1
  cases (onIdentifierName_token raw _).symm.trans hresult
  have hname : Token.IsName raw := Pattern.accepts_of_match? rfl Token.isPlain_name hm
  exact ⟨Nat.le_add_left 1 depth, _, raw, rfl, hname,
    laid_piece hpiece (Token.ends_of_name hname _)⟩

/-! ## Lists -/

/-- Things that are read one after the other, each with the texts that write it. -/
def ReadsEach {β : Type} (depth : Nat) (construct : β → Construct) (vs : List Value)
    (parts : List (β × List String)) (l : List Lexeme) (a b : Place) : Prop :=
  List.Forall₂ (fun v x => (construct x).Shows v) vs (parts.map (·.1)) ∧
    (∀ part ∈ parts, Written depth (construct part.1) part.2) ∧
    l.map (·.text) = parts.flatMap (·.2) ∧ Laid a l b

theorem readsEach_of_chain {β : Type} {construct : β → Construct} {vs : List Value}
    {l : List Lexeme} {a b : Place} (h : TraceChain (ReadsAs depth construct) vs l a b) :
    ∃ parts, ReadsEach depth construct vs parts l a b := by
  induction h with
  | nil => exact ⟨[], .nil, nofun, rfl, .done⟩
  | @cons v vs l m a b c hv _ ih =>
    obtain ⟨x, hx, hw, hl⟩ := hv
    obtain ⟨parts, hshows, hwritten, htexts, hlaid⟩ := ih
    refine ⟨(x, l.map (·.text)) :: parts, .cons hx hshows,
      List.forall_mem_cons.mpr ⟨hw, hwritten⟩, ?_, hl.append hlaid⟩
    rw [List.map_append, htexts, List.flatMap_cons]

theorem pairs_of_further {role : Role} {pairs : List Value} {es : List Expr}
    (h : List.Forall₂ (fun v e => (Construct.further role e).Shows v) pairs es) :
    ∃ items, Pairs pairs items ∧ List.Forall₂ (fun v e => role.Shows e v) items es := by
  induction h with
  | nil => exact ⟨[], .nil, .nil⟩
  | cons hp _ ih =>
    obtain ⟨comma, item, rfl, hd⟩ := hp
    obtain ⟨items, hpairs, hds⟩ := ih
    exact ⟨item :: items, .cons ⟨comma, rfl⟩ hpairs, .cons hd hds⟩

theorem reads_further {role : Role} (h : role.matcher.Traces depth (ReadsAs depth (.item role))) :
    (Matcher.sequence [mark ",", role.matcher]).Traces depth
      (ReadsAs depth (.further role)) := by
  refine (traces_sequence (traceEach_cons (traces_mark "," (by decide))
    (traceEach_cons h traceEach_nil))).mono ?_
  rintro v l a b ⟨vs, rfl, comma, _, k, m, c, rfl, rfl, ⟨-, hk, hkl⟩, item, _, k', m', d, rfl, rfl,
    ⟨e, hshows, hw, hl⟩, rfl, rfl, rfl⟩
  refine ⟨e, ⟨comma, item, rfl, hshows⟩, ?_, hkl.append (hl.append .done)⟩
  rw [List.map_append, hk, List.append_nil]
  exact .further hw

/-- The first item of a list, and more of its kind after commas. -/
theorem traceEach_listed (role : Role)
    (h : role.matcher.Traces depth (ReadsAs depth (.item role))) {parts : List Matcher}
    {Q : List Value → List Lexeme → Place → Place → Prop} (hp : TraceEach depth parts Q) :
    TraceEach depth
      (role.matcher :: .repetition 0 (.sequence [mark ",", role.matcher]) :: parts)
      fun vs l a b => ∃ first pairs items rest e, ∃ es : List (Expr × List String), ∃ s k m c,
        vs = first :: .ofList pairs :: rest ∧ l = k ++ m ∧ Pairs pairs items ∧
        List.Forall₂ (fun v e => role.Shows e v) (first :: items) (e :: es.map (·.1)) ∧
        Written depth (.item role e) s ∧ (∀ f ∈ es, Written depth (.further role f.1) f.2) ∧
        k.map (·.text) = s ++ es.flatMap (·.2) ∧ Laid a k c ∧ Q rest m c b := by
  intro start next vs hs hr
  obtain ⟨first, _, k, m, c, rfl, hlexemes, ⟨e, hshows, hw, hlaid⟩, _, rest, k', m', d, rfl, rfl,
    ⟨pairs, rfl, hchain⟩, hq⟩ :=
    traceEach_cons h (traceEach_cons (traces_repetition (reads_further h) 0) hp) hs hr
  obtain ⟨es, hfurther, hwritten, htexts, hlaid'⟩ := readsEach_of_chain hchain
  obtain ⟨items, hpairs, hitems⟩ := pairs_of_further hfurther
  refine ⟨first, pairs, items, rest, e, es, _, k ++ k', m', d, rfl, ?_, hpairs,
    .cons hshows hitems, hw, hwritten, ?_, hlaid.append hlaid', hq⟩
  · rw [hlexemes, List.append_assoc]
  · rw [List.map_append, htexts]

theorem depictsEach_of_forall₂ {role : Role} {items : List Value} {es : List Expr}
    (h : List.Forall₂ (fun v e => Depicts role v e) items es) : DepictsEach role items es := by
  induction h with
  | nil => exact .nil
  | cons hd _ ih => exact .cons hd ih

theorem listed_pairs {first : Value} {pairs items : List Value} (h : Pairs pairs items)
    (rest : List Value) : listed (.ofList (first :: .ofList pairs :: rest)) = first :: items := by
  rw [← seconds_pairs h]
  rfl

/-! ## Brackets -/

theorem reads_element (h : (named "Expression").Traces depth (ReadsAs depth (.item .value))) :
    (Role.matcher .element).Traces depth (ReadsAs depth (.item .element)) := by
  refine (traces_optional h).mono ?_
  rintro v l a b (⟨rfl, rfl, rfl, hfail⟩ | ⟨e, hshows, hw, hl⟩)
  · exact ⟨.hole, .inl ⟨rfl, rfl⟩, .hole (le_of_mayFail breaks_expression hfail), .done⟩
  · exact ⟨e, .inr hshows, .element hw, hl⟩

theorem reads_array (sound : Sound depth) :
    (named "ArrayExpression").Traces (depth + 1) (ReadsAs (depth + 2) .base) := by
  refine traces_value rfl (traces_sequence (traceEach_cons (traces_mark "[" (by decide))
    (traceEach_listed .element (reads_element sound.expression)
      (traceEach_cons (traces_mark "]" (by decide)) traceEach_nil)))) ?_
  rintro read l a b ⟨vs, rfl, opening, _, k, m, c, rfl, rfl, ⟨ho, hk, hkl⟩, first, pairs, items,
    _, e, es, s, k', m', d, rfl, rfl, hpairs, hes, hw, hws, hs, hlaid, closing, _, k'', m'', f, rfl,
    rfl, ⟨hc, hk'', hcl⟩, rfl, rfl, rfl⟩
  obtain ⟨v, hv, hd⟩ := depicts_onArray ho hc hpairs hes
  refine ⟨v, _, hv, hd, ?_, hkl.append (hlaid.append (hcl.append .done))⟩
  simp only [List.map_append, hk, hs, hk'', List.append_nil, List.append_assoc]
  exact .array hw hws

theorem reads_propertyKey (sound : Sound depth) :
    (named "PropertyKey").Traces (depth + 1) (ReadsAs (depth + 1) (.item .key)) := by
  refine traces_rule (P := ReadsAs (depth + 1) (.item .key)) rfl (traces_alternation ?_) ?_
  · have of_literal {holds : String → Value → Prop} (h : ∀ {raw value}, holds raw value →
        Token.IsNumber raw value ∨ Token.IsString raw value) : ∀ v l a b,
        ReadsLiteral depth holds v l a b → ReadsAs (depth + 1) (.item .key) v l a b := by
      rintro v l a b ⟨hn, span, raw, value, rfl, hraw, htext, hlaid⟩
      exact ⟨.literal raw, .keyLiteral (h hraw),
        htext ▸ .keyLiteral (Nat.succ_le_succ hn) (h hraw), hlaid⟩
    simp only [List.forall_mem_cons]
    refine ⟨sound.identifierName.mono ?_, sound.string.mono (of_literal .inr),
      sound.number.mono (of_literal .inl), by simp⟩
    rintro v l a b ⟨hn, span, name, rfl, hname, htext, hlaid⟩
    exact ⟨.name name, .keyName hname, htext ▸ .keyName (Nat.succ_le_succ hn) hname, hlaid⟩
  · rintro read result l a b ⟨e, hd, hw⟩ hresult
    cases hresult
    rw [Depicts.settle_key hd]
    exact ⟨e, hd, hw⟩

theorem reads_property (sound : Sound depth) :
    (named "Property").Traces (depth + 1) (ReadsAs (depth + 1) (.item .property)) := by
  refine traces_rule rfl (traces_sequence (traceEach_cons sound.propertyKey
    (traceEach_cons (traces_mark ":" (by decide))
      (traceEach_cons sound.expression traceEach_nil)))) ?_
  rintro read result l a b ⟨vs, rfl, k, _, l₁, m₁, c, rfl, rfl, ⟨key, hk, hkw, hkl⟩, colon, _, l₂,
    m₂, d, rfl, rfl, ⟨-, ht, htl⟩, v, _, l₃, m₃, f, rfl, rfl, ⟨value, hv, hvw, hvl⟩, rfl, rfl, rfl⟩
    hresult
  obtain ⟨p, hp, hd⟩ := depicts_onProperty colon hk hv
  cases hp.symm.trans hresult
  rw [hd.settle_property]
  refine ⟨_, hd, ?_, hkl.append (htl.append (hvl.append .done))⟩
  simp only [List.map_append, ht, List.append_nil]
  exact .property hkw hvw

theorem reads_object (sound : Sound depth) :
    (named "ObjectExpression").Traces (depth + 1) (ReadsAs (depth + 2) .base) := by
  refine traces_value rfl (traces_sequence (traceEach_cons (traces_mark "\x7b" (by decide))
    (traceEach_cons (traces_optional (traces_sequence (traceEach_listed .property sound.property
      (traceEach_cons (traces_optional (traces_mark "," (by decide))) traceEach_nil))))
      (traceEach_cons (traces_mark "\x7d" (by decide)) traceEach_nil)))) ?_
  rintro read l a b ⟨vs, rfl, opening, _, l₁, m₁, c, rfl, rfl, ⟨ho, h₁, hl₁⟩, body, _, l₂, m₂, d,
    rfl, rfl, hbody, closing, _, l₃, m₃, f, rfl, rfl, ⟨hc, h₃, hl₃⟩, rfl, rfl, rfl⟩
  rcases hbody with ⟨rfl, rfl, rfl, hfail⟩ | ⟨_, rfl, first, pairs, items, _, e, es, s, k, m, g,
    rfl, rfl, hpairs, hes, hw, hws, hs, hlaid, trailing, _, l₄, m₄, i, rfl, rfl, htrail, rfl, rfl,
    rfl⟩
  · have hnone : DepictsEach .property (listed .absent) [] := .nil
    obtain ⟨v, hv, hd⟩ := depicts_onObject ho hc hnone
    have hdeep := le_of_mayFail (fun hlt => breaks_sequence (breaks_property hlt)) hfail
    refine ⟨v, _, hv, hd, ?_, hl₁.append (hl₃.append .done)⟩
    simp only [List.map_append, h₁, h₃, List.map_nil, List.append_nil]
    exact .emptyObject hdeep
  · have hall : DepictsEach .property (listed (.ofList [first, .ofList pairs, trailing]))
        (e :: es.map (·.1)) := by
      rw [listed_pairs hpairs]
      exact depictsEach_of_forall₂ hes
    obtain ⟨v, hv, hd⟩ := depicts_onObject ho hc hall
    obtain ⟨ht, htl⟩ : (l₄.map (·.text) = [] ∨ l₄.map (·.text) = [","]) ∧ Laid g l₄ d := by
      rcases htrail with ⟨-, rfl, rfl, -⟩ | ⟨-, ht, htl⟩
      · exact ⟨.inl rfl, .done⟩
      · exact ⟨.inr ht, htl⟩
    refine ⟨v, _, hv, hd, ?_, hl₁.append ((hlaid.append (htl.append .done)).append
      (hl₃.append .done))⟩
    simp only [List.map_append, h₁, hs, h₃, List.append_nil, List.append_assoc]
    exact .object hw hws ht

theorem reads_parenthesized (sound : Sound depth) :
    (named "Parenthesized").Traces (depth + 1) (ReadsAs (depth + 2) .base) := by
  refine traces_value rfl (traces_sequence (traceEach_cons (traces_mark "(" (by decide))
    (traceEach_cons sound.expression
      (traceEach_cons (traces_mark ")" (by decide)) traceEach_nil)))) ?_
  rintro read l a b ⟨vs, rfl, opening, _, l₁, m₁, c, rfl, rfl, ⟨-, h₁, hl₁⟩, v, _, l₂, m₂, d, rfl,
    rfl, ⟨e, hd, hw, hl₂⟩, closing, _, l₃, m₃, f, rfl, rfl, ⟨-, h₃, hl₃⟩, rfl, rfl, rfl⟩
  refine ⟨v, e, rfl, hd, ?_, hl₁.append (hl₂.append (hl₃.append .done))⟩
  simp only [List.map_append, h₁, h₃, List.append_nil]
  exact .parenthesized hw

/-- What a primary expression may be. -/
theorem reads_primaries (sound : Sound depth) :
    ∀ option ∈ [named "Number", named "String", named "Keyword", named "Identifier",
      named "ArrayExpression", named "ObjectExpression", named "Parenthesized"],
      option.Traces depth (ReadsAs (depth + 1) .base) := by
  have of_literal {holds : String → Value → Prop} (h : ∀ {raw value}, holds raw value →
      Token.IsNumber raw value ∨ Token.IsString raw value ∨ Token.IsKeyword raw value) :
      ∀ v l a b, ReadsLiteral depth holds v l a b → ReadsAs (depth + 1) .base v l a b := by
    rintro v l a b ⟨hn, span, raw, value, rfl, hraw, htext, hlaid⟩
    exact ⟨.literal raw, .literal (h hraw),
      htext ▸ .literal (Nat.succ_le_succ hn) (h hraw), hlaid⟩
  simp only [List.forall_mem_cons]
  exact ⟨sound.number.mono (of_literal .inl),
    sound.string.mono (of_literal fun h => .inr (.inl h)),
    sound.keyword.mono (of_literal fun h => .inr (.inr h)), sound.identifier, sound.array,
    sound.object, sound.parenthesized, by simp⟩

theorem reads_primary (sound : Sound depth) :
    (named "Primary").Traces (depth + 1) (ReadsAs (depth + 1) .base) := by
  refine traces_value (P := ReadsAs (depth + 1) .base) rfl
    (traces_alternation (reads_primaries sound)) ?_
  rintro read l a b ⟨e, hd, hw⟩
  exact ⟨read, e, rfl, hd, hw⟩

/-! ## Chains -/

theorem reads_dot (sound : Sound depth) :
    (named "DotSuffix").Traces (depth + 1) (ReadsAs (depth + 1) .suffix) := by
  refine traces_rule rfl (traces_sequence (traceEach_cons (traces_mark "." (by decide))
    (traceEach_cons sound.identifierName traceEach_nil))) ?_
  rintro read result l a b ⟨vs, rfl, dot, _, l₁, m₁, c, rfl, rfl, ⟨-, h₁, hl₁⟩, v, _, l₂, m₂, d,
    rfl, rfl, ⟨hn, inner, name, rfl, hname, h₂, hl₂⟩, rfl, rfl, rfl⟩ hresult
  cases hresult
  refine ⟨.dot name, .dot hname, ?_, hl₁.append (hl₂.append .done)⟩
  simp only [List.map_append, h₁, h₂, List.append_nil]
  exact .dot (Nat.succ_le_succ hn) hname

theorem reads_index (sound : Sound depth) :
    (named "IndexSuffix").Traces (depth + 1) (ReadsAs (depth + 1) .suffix) := by
  refine traces_rule rfl (traces_sequence (traceEach_cons (traces_mark "[" (by decide))
    (traceEach_cons sound.expression
      (traceEach_cons (traces_mark "]" (by decide)) traceEach_nil)))) ?_
  rintro read result l a b ⟨vs, rfl, opening, _, l₁, m₁, c, rfl, rfl, ⟨-, h₁, hl₁⟩, v, _, l₂, m₂,
    d, rfl, rfl, ⟨e, hd, hw, hl₂⟩, closing, _, l₃, m₃, f, rfl, rfl, ⟨-, h₃, hl₃⟩, rfl, rfl, rfl⟩
    hresult
  cases hresult
  refine ⟨.index e, .index hd, ?_, hl₁.append (hl₂.append (hl₃.append .done))⟩
  simp only [List.map_append, h₁, h₃, List.append_nil]
  exact .index hw

theorem reads_arguments (sound : Sound depth) :
    (named "Arguments").Traces (depth + 1) (ReadsAs (depth + 1) .suffix) := by
  refine traces_rule rfl (traces_sequence (traceEach_cons (traces_mark "(" (by decide))
    (traceEach_cons (traces_optional (traces_sequence
      (traceEach_listed .value sound.expression traceEach_nil)))
      (traceEach_cons (traces_mark ")" (by decide)) traceEach_nil)))) ?_
  rintro read result l a b ⟨vs, rfl, opening, _, l₁, m₁, c, rfl, rfl, ⟨-, h₁, hl₁⟩, body, _, l₂, m₂,
    d, rfl, rfl, hbody, closing, _, l₃, m₃, f, rfl, rfl, ⟨-, h₃, hl₃⟩, rfl, rfl, rfl⟩ hresult
  cases hresult
  rcases hbody with ⟨rfl, rfl, rfl, hfail⟩ | ⟨_, rfl, first, pairs, items, _, e, es, s, k, m, g,
    rfl, rfl, hpairs, hes, hw, hws, hs, hlaid, rfl, rfl, rfl⟩
  · have hdeep := le_of_mayFail (fun hlt => breaks_sequence (breaks_expression hlt)) hfail
    refine ⟨.arguments [], .arguments .nil, ?_, hl₁.append (hl₃.append .done)⟩
    simp only [List.map_append, h₁, h₃, List.map_nil, List.append_nil]
    exact .noArguments hdeep
  · refine ⟨.arguments (e :: es.map (·.1)), .arguments ?_,
      ?_, hl₁.append ((hlaid.append .done).append (hl₃.append .done))⟩
    · rw [listed_pairs hpairs]
      exact depictsEach_of_forall₂ hes
    · simp only [List.map_append, h₁, hs, h₃, List.append_nil, List.append_assoc]
      exact .arguments hw hws

theorem reads_suffixes (sound : Sound depth) :
    suffixes.Traces depth (ReadsAs depth .suffix) := by
  apply traces_alternation
  simp only [List.forall_mem_cons]
  exact ⟨sound.dot, sound.index, sound.arguments, by simp⟩

theorem reads_chain (sound : Sound depth) :
    (named "Postfix").Traces (depth + 1) (ReadsAs (depth + 1) .operand) := by
  refine traces_value rfl (traces_sequence (traceEach_cons sound.primary
    (traceEach_cons (traces_repetition (reads_suffixes sound) 0) traceEach_nil))) ?_
  rintro read l a b ⟨vs, rfl, base, _, l₁, m₁, c, rfl, rfl, ⟨e, hd, hw, hl₁⟩, _, _, l₂, m₂, d, rfl,
    rfl, ⟨items, rfl, hchain⟩, rfl, rfl, rfl⟩
  obtain ⟨suffixes, hsuffixes, hws, hs, hl₂⟩ := readsEach_of_chain hchain
  obtain ⟨v, hv, hdv⟩ := depicts_onPostfix hd hsuffixes
  refine ⟨v, _, hv, hdv, ?_, hl₁.append (hl₂.append .done)⟩
  simp only [List.map_append, hs, List.append_nil]
  exact .chain hw hws

/-! ## Operators -/

/-- A literal that fails does not come next. -/
theorem not_prefix_of_failed {text : String} {start next : Cursor} (hs : start.InSource)
    (hr : (Matcher.literal text).run (followExpression depth) start = (.failed, next)) :
    ¬ text.toList <+: start.rest := by
  intro hp
  have hstarts : start.startsWith text.toList = true := by
    rw [Cursor.startsWith, List.isPrefixOf_iff_prefix.mpr hp]
    simp [hs.le_length]
  rw [run, Cursor.readLiteral, if_pos hstarts] at hr
  cases hr

/-- The first of the texts that comes next. -/
def IsFirst (symbols : List String) (v : Value) (l : List Lexeme) (a b : Place) : Prop :=
  ∃ symbol ∈ symbols, IsPiece symbol v l a b ∧
    ∀ other ∈ symbols.takeWhile (· != symbol), ¬ other.toList <+: symbol.toList ++ b.rest

theorem traces_symbols (symbols : List String) :
    (Matcher.alternation (symbols.map .literal)).Traces depth (IsFirst symbols) := by
  intro start next v hs hr
  rw [run] at hr
  rw [lexemes]
  induction symbols generalizing start with
  | nil => cases hr
  | cons head symbols ih =>
    rw [List.map_cons, runFirst] at hr
    rw [List.map_cons, lexemesFirst]
    cases ho : (Matcher.literal head).run (followExpression depth) start with
    | mk outcome last =>
      rw [ho] at hr
      cases outcome with
      | broken fault => cases hr
      | matched u =>
        cases hr
        exact ⟨head, List.mem_cons_self, traces_literal head hs ho, by simp⟩
      | failed =>
        simp only at hr ⊢
        obtain ⟨symbol, hmem, hpiece, hfirst⟩ := ih (Cursor.inSource_rewind hs) hr
        rw [Cursor.place_rewind] at hpiece
        refine ⟨symbol, List.mem_cons_of_mem _ hmem, hpiece, fun other ho' => ?_⟩
        rw [List.takeWhile_cons] at ho'
        split at ho'
        · rcases List.mem_cons.mp ho' with rfl | ho'
          · rw [← hpiece.2.2.1]
            exact not_prefix_of_failed hs ho
          · exact hfirst other ho'
        · cases ho'

theorem signs_eq_map :
    signs = .alternation ((UnaryOperator.all.map (·.symbol)).map .literal) := by
  rw [signs, List.map_map]
  rfl

theorem traces_signs : (spaced signs).Traces depth fun v l a b =>
    IsFirst (UnaryOperator.all.map (·.symbol)) v l a.skip b := by
  rw [signs_eq_map]
  exact traces_spaced (traces_symbols _)

theorem reads_unaryOperation (sound : Sound depth) :
    (named "UnaryOperation").Traces (depth + 1) (ReadsAs (depth + 1) .operand) := by
  refine traces_value rfl (traces_sequence (traceEach_cons traces_signs
    (traceEach_cons sound.unary traceEach_nil))) ?_
  rintro read l a b ⟨vs, rfl, operator, _, l₁, m₁, c, rfl, rfl, ⟨symbol, hmem, hpiece, -⟩, v, _, l₂,
    m₂, d, rfl, rfl, ⟨n, rfl, e, hd, hw, hl₂⟩, rfl, rfl, rfl⟩
  obtain ⟨h₁, hl₁⟩ := laid_piece hpiece (Token.ends_of_sign hmem _)
  obtain ⟨u, hu, hdu⟩ := depicts_onUnary ⟨_, hpiece.1⟩ hmem hd
  refine ⟨u, _, hu, hdu, ?_, hl₁.append (hl₂.append .done)⟩
  simp only [List.map_append, h₁, List.append_nil]
  exact .unary hmem hw

theorem reads_operand (sound : Sound depth) : operand.Traces depth (ReadsAs depth .operand) := by
  apply traces_alternation
  simp only [List.forall_mem_cons]
  exact ⟨sound.unaryOperation, sound.chain, by simp⟩

theorem reads_unary (sound : Sound depth) :
    (named "Unary").Traces (depth + 1) fun v l a b =>
      ∃ n, depth + 1 = n + 1 ∧ ReadsAs n .operand v l a b := by
  refine traces_rule rfl (reads_operand sound) ?_
  rintro read result l a b ⟨e, hd, hw⟩ hresult
  cases hresult
  rw [Depicts.settle hd]
  exact ⟨depth, rfl, e, hd, hw⟩

theorem reads_operation (sound : Sound depth) :
    operation.Traces depth (ReadsAs depth .operation) := by
  refine (traces_sequence (traceEach_cons (traces_spaced (traces_symbols infixSymbols))
    (traceEach_cons (reads_operand sound) traceEach_nil))).mono ?_
  rintro v l a b ⟨vs, rfl, operator, _, l₁, m₁, c, rfl, rfl, ⟨symbol, hmem, hpiece, hfirst⟩, right,
    _, l₂, m₂, d, rfl, rfl, ⟨e, hd, hw, hl₂⟩, rfl, rfl, rfl⟩
  obtain ⟨h₁, hl₁⟩ := laid_piece hpiece (Token.ends_of_first hmem hfirst)
  refine ⟨(symbol, e), ⟨operator, right, rfl, ⟨_, hpiece.1⟩, hmem, hd⟩, ?_,
    hl₁.append (hl₂.append .done)⟩
  simp only [List.map_append, h₁, List.append_nil]
  exact .operation hmem hw

theorem reads_branches (sound : Sound depth) :
    (Matcher.optional branches).Traces depth (ReadsAs depth .branches) := by
  refine (traces_optional (traces_sequence (traceEach_cons (traces_mark "?" (by decide))
    (traceEach_cons sound.expression (traceEach_cons (traces_mark ":" (by decide))
      (traceEach_cons sound.expression traceEach_nil)))))).mono ?_
  rintro v l a b (⟨rfl, rfl, rfl, -⟩ | ⟨vs, rfl, question, _, l₁, m₁, c, rfl, rfl, ⟨-, h₁, hl₁⟩, x,
    _, l₂, m₂, d, rfl, rfl, ⟨e, hx, hwe, hl₂⟩, colon, _, l₃, m₃, f, rfl, rfl, ⟨-, h₃, hl₃⟩, y, _,
    l₄, m₄, g, rfl, rfl, ⟨e', hy, hwf, hl₄⟩, rfl, rfl, rfl⟩)
  · exact ⟨none, .inl ⟨rfl, rfl⟩, .noBranches, .done⟩
  · refine ⟨some (e, e'), .inr ⟨question, x, colon, y, e, e', rfl, rfl, hx, hy⟩, ?_,
      hl₁.append (hl₂.append (hl₃.append (hl₄.append .done)))⟩
    simp only [List.map_append, h₁, h₃, List.append_nil]
    exact .branches hwe hwf

theorem reads_expression (sound : Sound depth) :
    (named "Expression").Traces (depth + 1) (ReadsAs (depth + 1) (.item .value)) := by
  refine traces_value rfl (traces_sequence (traceEach_cons (reads_operand sound)
    (traceEach_cons (traces_repetition (reads_operation sound) 0)
      (traceEach_cons (reads_branches sound) traceEach_nil)))) ?_
  rintro read l a b ⟨vs, rfl, first, _, l₁, m₁, c, rfl, rfl, ⟨e, hd, hw, hl₁⟩, _, _, l₂, m₂, d, rfl,
    rfl, ⟨pairs, rfl, hchain⟩, branches, _, l₃, m₃, f, rfl, rfl, ⟨chosen, hb, hwb, hl₃⟩, rfl, rfl,
    rfl⟩
  obtain ⟨operations, hpairs, hws, hs, hl₂⟩ := readsEach_of_chain hchain
  obtain ⟨v, hv, hdv⟩ := depicts_onExpression hd hpairs hb
  refine ⟨v, _, hv, hdv, ?_, hl₁.append (hl₂.append (hl₃.append .done))⟩
  simp only [List.map_append, hs, List.append_nil]
  exact .expression hw hws hwb

/-! ## All rules -/

theorem sound (depth : Nat) : Sound depth := by
  induction depth with
  | zero =>
    have hnone : ∀ kind (P : Value → List Lexeme → Place → Place → Prop),
        (named kind).Traces 0 P :=
      fun kind P start next v _ hr => ((breaks_named kind).barren hr).elim
    constructor <;> exact hnone _ _
  | succ depth sound =>
    exact
      { number := reads_number
        string := reads_string
        keyword := reads_keyword
        identifier := reads_identifier
        identifierName := reads_identifierName
        array := reads_array sound
        propertyKey := reads_propertyKey sound
        property := reads_property sound
        object := reads_object sound
        parenthesized := reads_parenthesized sound
        primary := reads_primary sound
        dot := reads_dot sound
        index := reads_index sound
        arguments := reads_arguments sound
        chain := reads_chain sound
        unaryOperation := reads_unaryOperation sound
        unary := reads_unary sound
        expression := reads_expression sound }

end Matcher

end GatedExpr
