import GatedExpr.Proofs.Grammar.TokenRules

/-! # What is written is read

Texts that write something at some depth are read as that at the same depth, however they are
spread and whatever follows them that is not a part of it. There is one lemma for each way to write
something; what comes next settles every choice between matchers.
-/

namespace GatedExpr

/-- What can follow the texts of a construct. -/
def Construct.followers : Construct → List Char
  | item _ _ | further _ _ | branches _ => Token.terminators
  | operand _ | operation _ => Token.terminators ++ '?' :: Token.infixHeads
  | base _ | suffix _ => Token.followers

/-- The texts begin with one of the characters. -/
def Leads (characters : List Char) (texts : List String) : Prop :=
  ∃ text rest, texts = text :: rest ∧
    ∃ c ∈ text.toList.head?, Text.isBlank c = false ∧ c ∈ characters

theorem Leads.mono {characters others : List Char} {texts : List String}
    (h : Leads characters texts) (hsub : characters ⊆ others) : Leads others texts := by
  obtain ⟨text, rest, rfl, c, hc, hb, hin⟩ := h
  exact ⟨text, rest, rfl, c, hc, hb, hsub hin⟩

theorem Spread.follows_of_leads {characters : List Char} {texts : List String} {s r : List Char}
    (h : Spread texts s r) (hl : Leads characters texts) : Token.Follows characters s := by
  obtain ⟨text, rest, rfl, hc⟩ := hl
  exact h.follows hc

namespace Written

variable {n : Nat} {e : Expr} {texts : List String}

theorem two_le_of_base (h : Written n (.base e) texts) : 2 ≤ n := by
  cases h <;> omega

theorem two_le_of_key (h : Written n (.item .key e) texts) : 2 ≤ n := by
  cases h <;> assumption

theorem three_le_of_property (h : Written n (.item .property e) texts) : 3 ≤ n := by
  cases h with
  | property hk _ => exact Nat.succ_le_succ hk.two_le_of_key

theorem leads_operation {operation : String × Expr} (h : Written n (.operation operation) texts) :
    Leads Token.infixHeads texts := by
  cases h with
  | @operation _ symbol _ s hs _ =>
    have hall : ∀ symbol ∈ infixSymbols, ∃ c ∈ symbol.toList.head?, Text.isBlank c = false ∧
        c ∈ Token.infixHeads := by decide
    exact ⟨symbol, s, rfl, hall symbol hs⟩

theorem leads_suffix {suffix : Expr.Suffix} (h : Written n (.suffix suffix) texts) :
    Leads Token.suffixHeads texts := by
  cases h <;> exact ⟨_, _, rfl, by decide⟩

theorem leads_further {role : Role} (h : Written n (.further role e) texts) :
    Leads [','] texts := by
  cases h
  exact ⟨_, _, rfl, by decide⟩

theorem not_sign_of_literal {raw : String} {value : Value}
    (h : Token.IsNumber raw value ∨ Token.IsString raw value ∨ Token.IsKeyword raw value) :
    Token.Opens raw ∧ ∀ c ∈ raw.toList.head?, c ∉ Matcher.signHeads := by
  rcases h with h | h | h
  · refine ⟨Token.opens_of_number h, ?_⟩
    obtain ⟨c, rest, he, hc⟩ := Token.number_head (h.1.spells rfl)
    rw [he]
    rintro _ ⟨⟩
    have hall : ∀ d ∈ Matcher.signHeads, Text.isDecimal d = false ∧ d ≠ '.' := by decide
    intro hin
    obtain ⟨hd, hp⟩ := hall c hin
    exact hc.elim (fun hc => by rw [hd] at hc; cases hc) hp
  · refine ⟨Token.opens_of_string h, ?_⟩
    obtain ⟨mark, body, hmark, he, -⟩ := Token.string_cases (h.1.spells rfl)
    rw [he]
    rintro _ ⟨⟩
    rcases hmark with rfl | rfl <;> decide
  · refine ⟨Token.opens_of_keyword h, ?_⟩
    cases h <;> decide

/-- A base begins with no sign. -/
theorem not_sign_of_base (h : Written n (.base e) texts) :
    ∃ text rest, texts = text :: rest ∧ Token.Opens text ∧
      ∀ c ∈ text.toList.head?, c ∉ Matcher.signHeads := by
  cases h with
  | literal _ h => exact ⟨_, _, rfl, not_sign_of_literal h⟩
  | name _ h _ =>
    refine ⟨_, _, rfl, Token.opens_of_name h, ?_⟩
    obtain ⟨c, rest, he, hc, -⟩ := Token.name_cases (h.spells rfl)
    rw [he]
    rintro _ ⟨⟩
    have hall : ∀ d ∈ Matcher.signHeads, Token.isNameStart d = false := by decide
    intro hin
    rw [hall c hin] at hc
    cases hc
  | _ => exact ⟨_, _, rfl, by decide, by decide⟩

end Written

namespace Matcher

open ExpressionGrammar Token

variable {n : Nat} {s t r : List Char} {texts : List String} {e : Expr}

/-- The texts are read as the construct wherever they are spread. -/
def Recognizes (n : Nat) (c : Construct) (texts : List String) : Prop :=
  ∀ ⦃s r : List Char⦄, Spread texts s r → Follows c.followers r →
    c.matcher.Matches n s r c.Shows

/-! ## Lists -/

theorem repeats {β : Type} (construct : β → Construct) {matcher : Matcher}
    {characters : List Char} {parts : List (β × List String)}
    (hm : ∀ b, (construct b).matcher = matcher)
    (hc : ∀ b, (construct b).followers = characters)
    (hlead : ∀ part ∈ parts, Leads characters part.2)
    (h : ∀ part ∈ parts, Recognizes n (construct part.1) part.2)
    (hs : Spread (parts.flatMap (·.2)) s r) (hr : Follows characters r)
    (hf : matcher.Fails n r) :
    Follows characters s ∧
      Repeats n matcher (fun b => (construct b).Shows) (parts.map (·.1)) s r := by
  induction parts generalizing s with
  | nil =>
    cases hs
    exact ⟨hr, .nil hf⟩
  | cons part parts ih =>
    obtain ⟨hlead, hleads⟩ := List.forall_mem_cons.mp hlead
    obtain ⟨h, hall⟩ := List.forall_mem_cons.mp h
    rw [List.flatMap_cons] at hs
    obtain ⟨t, hfirst, hrest⟩ := hs.of_append
    obtain ⟨hfollows, hrepeats⟩ := ih hleads hall hrest
    have hmatch := h hfirst (hc part.1 ▸ hfollows)
    rw [hm] at hmatch
    refine ⟨hfirst.follows_of_leads hlead, .cons hmatch ?_ hrepeats⟩
    obtain ⟨text, rest, he, c, hhead, hb, -⟩ := hlead
    rw [he] at hfirst
    exact hfirst.length_lt ⟨c, hhead, hb⟩

/-- The first item of a list and the further ones, and then whatever closes the list. -/
theorem matchEach_listed {role : Role} {es : List (Expr × List String)}
    {parts : List Matcher} {Q : List Value → Prop} {b : List Char}
    (h : Recognizes n (.item role e) texts)
    (hs : ∀ f ∈ es, Recognizes n (.further role f.1) f.2)
    (hlead : ∀ f ∈ es, Leads [','] f.2)
    (ha : Spread (texts ++ es.flatMap (·.2)) s b) (hb : Follows terminators b)
    (hf : (Matcher.sequence [mark ",", role.matcher]).Fails n b)
    (hparts : MatchEach n parts b r Q) :
    MatchEach n (role.matcher :: .repetition 0 (.sequence [mark ",", role.matcher]) :: parts) s r
      fun vs => ∃ first pairs items rest, vs = first :: .ofList pairs :: rest ∧ Pairs pairs items ∧
        List.Forall₂ (fun v e => role.Shows e v) (first :: items) (e :: es.map (·.1)) ∧
        Q rest := by
  obtain ⟨t, hfirst, hfurther⟩ := ha.of_append
  obtain ⟨hfollows, hrepeats⟩ := repeats (.further role) (fun _ => rfl)
    (fun _ => rfl) (fun f hm => (hlead f hm).mono (by decide)) hs hfurther hb hf
  intro source cursor hc
  obtain ⟨vs, last, hr, hl, first, _, rfl, hshows, _, rest, rfl, ⟨pairs, rfl, hpairs⟩, hq⟩ :=
    matchEach_cons (h hfirst hfollows)
      (matchEach_cons (matches_repetition hrepeats) hparts) hc
  obtain ⟨items, hitems, hds⟩ := pairs_of_further hpairs
  exact ⟨_, last, hr, hl, first, pairs, items, rest, rfl, hitems, .cons hshows hds, hq⟩

/-! ## Operators -/

/-- No operator that is tried before a symbol comes next where the symbol stands alone. -/
theorem earlier_does_not_begin {symbol : String} (hmem : symbol ∈ infixSymbols)
    (he : Ends symbol r.head?) : ∀ other ∈ infixSymbols.takeWhile (· != symbol),
      ¬ other.toList <+: symbol.toList ++ r := by
  have hall : ∀ symbol ∈ infixSymbols, ∀ other ∈ infixSymbols.takeWhile (· != symbol),
      ¬ other.toList <+: symbol.toList := by decide
  intro other ho hp
  rcases List.prefix_or_prefix_of_prefix hp (List.prefix_append symbol.toList r) with hp' | hp'
  · exact hall symbol hmem other ho hp'
  · obtain ⟨more, hmore⟩ := hp'
    rw [← hmore, List.prefix_append_right_inj] at hp
    cases more with
    | nil =>
      rw [List.append_nil] at hmore
      exact hall symbol hmem other ho (hmore ▸ List.prefix_rfl)
    | cons c more =>
      obtain ⟨rest, rfl⟩ := hp
      refine he.operator c rfl hmem other ((List.takeWhile_sublist _).subset ho) ⟨more, ?_⟩
      rw [← hmore]
      simp

theorem matches_symbols {symbols : List String} {symbol : String} (hmem : symbol ∈ symbols)
    (hfirst : ∀ other ∈ symbols.takeWhile (· != symbol),
      ¬ other.toList <+: symbol.toList ++ r) :
    (Matcher.alternation (symbols.map .literal)).Matches n (symbol.toList ++ r) r
      (IsToken symbol) := by
  induction symbols with
  | nil => cases hmem
  | cons head symbols ih =>
    rw [List.map_cons]
    by_cases he : head = symbol
    · rw [he]
      exact matches_alternation_head (matches_literal symbol r)
    · rw [List.takeWhile_cons_of_pos (by simpa using he), List.forall_mem_cons] at hfirst
      refine matches_alternation_tail (fails_literal hfirst.1) (ih ?_ hfirst.2)
      exact (List.mem_cons.mp hmem).resolve_left fun h => he h.symm

theorem recognizes_operation {symbol : String} (hmem : symbol ∈ infixSymbols)
    (h : Recognizes n (.operand e) texts) :
    Recognizes n (.operation (symbol, e)) (symbol :: texts) := by
  intro s r hs hr
  have hopens : ∀ symbol ∈ infixSymbols, Opens symbol := by decide
  obtain ⟨t, ht, he, hrest⟩ := hs.peel (hopens symbol hmem)
  have hsymbol : (spaced infixes).Matches n s t (IsToken symbol) := by
    apply matches_spaced
    rw [ht]
    exact matches_symbols hmem (earlier_does_not_begin hmem he)
  refine (matches_sequence (matchEach_cons hsymbol
    (matchEach_cons (h hrest hr) (matchEach_nil r)))).mono ?_
  rintro v ⟨vs, rfl, operator, _, rfl, ho, right, _, rfl, hd, rfl⟩
  exact ⟨operator, right, rfl, ho, hmem, hd⟩

theorem recognizes_unary {symbol : String} (hmem : symbol ∈ UnaryOperator.all.map (·.symbol))
    (h : Recognizes n (.operand e) texts) :
    Recognizes (n + 2) (.operand (.unary symbol e)) (symbol :: texts) := by
  intro s r hs hr
  have hopens : ∀ symbol ∈ UnaryOperator.all.map (·.symbol), Opens symbol := by decide
  have hapart : ∀ symbol ∈ UnaryOperator.all.map (·.symbol),
      ∀ other ∈ (UnaryOperator.all.map (·.symbol)).takeWhile (· != symbol),
        ¬ other.toList <+: symbol.toList ∧ ¬ symbol.toList <+: other.toList := by decide
  obtain ⟨t, ht, -, hrest⟩ := hs.peel (hopens symbol hmem)
  have hsign : (spaced signs).Matches (n + 1) s t (IsToken symbol) := by
    apply matches_spaced
    rw [ht, signs_eq_map]
    refine matches_symbols hmem fun other ho hp => ?_
    exact (List.prefix_or_prefix_of_prefix hp (List.prefix_append _ t)).elim
      (hapart symbol hmem other ho).1 (hapart symbol hmem other ho).2
  have hunary : (named "Unary").Matches (n + 1) t r (Depicts .value · e) :=
    matches_value rfl (h hrest hr) fun v hd => ⟨v, rfl, hd⟩
  refine matches_alternation_head (matches_value rfl (matches_sequence (matchEach_cons hsign
    (matchEach_cons hunary (matchEach_nil r)))) ?_)
  rintro v ⟨vs, rfl, operator, _, rfl, ho, argument, _, rfl, hd, rfl⟩
  exact depicts_onUnary ho hmem hd

theorem recognizes_noBranches : Recognizes n (.branches none) [] := by
  intro s r hs hr
  cases hs
  have hquestion : ∀ d ∈ terminators, d ≠ '?' := by decide
  refine (matches_optional_absent (fails_sequence (fails_mark rfl fun hn => ?_))).mono fun v hv =>
    .inl ⟨hv, rfl⟩
  exact hquestion _ (hr _ hn) rfl

theorem recognizes_branches {f : Expr} {others : List String}
    (h : Recognizes n (.item .value e) texts) (h' : Recognizes n (.item .value f) others) :
    Recognizes n (.branches (some (e, f))) ("?" :: (texts ++ ":" :: others)) := by
  intro s r hs hr
  obtain ⟨t, ht, -, hs⟩ := hs.peel (by decide)
  obtain ⟨u, hfirst, hs⟩ := hs.of_append
  have hcolon : Follows terminators u := hs.follows (by decide)
  obtain ⟨w, hw, -, hsecond⟩ := hs.peel (by decide)
  refine (matches_optional (matches_sequence (matchEach_cons (matches_mark ht)
    (matchEach_cons (h hfirst hcolon) (matchEach_cons (matches_mark hw)
      (matchEach_cons (h' hsecond hr) (matchEach_nil r))))))).mono ?_
  rintro v ⟨vs, rfl, question, _, rfl, -, x, _, rfl, hx, colon, _, rfl, -, y, _, rfl, hy, rfl⟩
  exact .inr ⟨question, x, colon, y, e, f, rfl, rfl, hx, hy⟩

theorem recognizes_expression {chosen : Option (Expr × Expr)} {others : List String}
    {operations : List ((String × Expr) × List String)}
    (h : Recognizes n (.operand e) texts)
    (hs : ∀ o ∈ operations, Recognizes n (.operation o.1) o.2)
    (hw : ∀ o ∈ operations, Written n (.operation o.1) o.2)
    (hb : Recognizes n (.branches chosen) others) (hwb : Written n (.branches chosen) others) :
    Recognizes (n + 1)
      (.item .value ((Expr.fold e (operations.map (·.1))).withBranches chosen))
      (texts ++ (operations.flatMap (·.2) ++ others)) := by
  intro s r hspread hr
  obtain ⟨t, hfirst, hspread⟩ := hspread.of_append
  obtain ⟨u, hoperations, hbranches⟩ := hspread.of_append
  have hu : Follows (terminators ++ ['?']) u := by
    cases hwb with
    | noBranches =>
      cases hbranches
      exact hr.mono (List.subset_append_left _ _)
    | branches => exact hbranches.follows (by decide)
  have hfail : ExpressionGrammar.operation.Fails n u := by
    have hapart : ∀ d ∈ terminators ++ ['?'], d ∉ infixHeads := by decide
    exact fails_sequence (fails_symbols (by decide) fun c hc => hapart c (hu c hc))
  obtain ⟨ht, hrepeats⟩ := repeats .operation (fun _ => rfl) (fun _ => rfl)
    (fun o ho => (hw o ho).leads_operation.mono (by decide)) hs hoperations
    (hu.mono (by decide)) hfail
  refine matches_value rfl (matches_sequence (matchEach_cons (h hfirst ht)
    (matchEach_cons (matches_repetition hrepeats)
      (matchEach_cons (hb hbranches hr) (matchEach_nil r))))) ?_
  rintro v ⟨vs, rfl, first, _, rfl, hd, _, _, rfl, ⟨pairs, rfl, hpairs⟩, branches, _, rfl, hbr, rfl⟩
  exact depicts_onExpression hd hpairs hbr

/-! ## Chains -/

theorem recognizes_chain {suffixes : List (Expr.Suffix × List String)}
    (h : Recognizes n (.base e) texts) (hw : Written n (.base e) texts)
    (hs : ∀ x ∈ suffixes, Recognizes n (.suffix x.1) x.2)
    (hws : ∀ x ∈ suffixes, Written n (.suffix x.1) x.2) :
    Recognizes (n + 1) (.operand ((suffixes.map (·.1)).foldl Expr.Suffix.apply e))
      (texts ++ suffixes.flatMap (·.2)) := by
  intro s r hspread hr
  obtain ⟨t, hfirst, hsuffixes⟩ := hspread.of_append
  obtain ⟨m, rfl⟩ := Nat.exists_eq_add_of_le hw.two_le_of_base
  have hfail : ExpressionGrammar.suffixes.Fails (2 + m) r := by
    have hapart : ∀ d ∈ terminators ++ '?' :: infixHeads, d ≠ '.' ∧ d ≠ '[' ∧ d ≠ '(' := by decide
    rw [Nat.add_comm]
    refine fails_alternation ?_
    simp only [List.forall_mem_cons]
    exact ⟨fails_opening rfl rfl fun hc => (hapart _ (hr _ hc)).1 rfl,
      fails_opening rfl rfl fun hc => (hapart _ (hr _ hc)).2.1 rfl,
      fails_opening rfl rfl fun hc => (hapart _ (hr _ hc)).2.2 rfl, by simp⟩
  obtain ⟨ht, hrepeats⟩ := repeats .suffix (fun _ => rfl) (fun _ => rfl)
    (fun x hx => (hws x hx).leads_suffix.mono (by decide)) hs hsuffixes
    (hr.mono (List.subset_append_left _ _)) hfail
  have hsign : ∀ c, next s = some c → c ∉ signHeads := by
    obtain ⟨text, rest, rfl, ⟨c, hc, hb⟩, hall⟩ := hw.not_sign_of_base
    intro d hd
    rw [hfirst.next_eq hc hb] at hd
    cases hd
    exact hall c hc
  refine matches_alternation_tail (fails_unaryOperation hsign)
    (matches_alternation_head (matches_value rfl (matches_sequence
      (matchEach_cons (h hfirst ht) (matchEach_cons (matches_repetition hrepeats)
        (matchEach_nil r)))) ?_))
  rintro v ⟨vs, rfl, base, _, rfl, hd, _, _, rfl, ⟨items, rfl, hitems⟩, rfl⟩
  exact depicts_onPostfix hd hitems

theorem recognizes_dot {name : String} (hn : 2 ≤ n) (h : IsName name) :
    Recognizes n (.suffix (.dot name)) [".", name] := by
  intro s r hs hr
  obtain ⟨m, rfl⟩ := Nat.exists_eq_add_of_le' hn
  obtain ⟨t, ht, -, hname⟩ := hs.peel (by decide)
  refine matches_alternation_head (matches_rule rfl (matches_sequence
    (matchEach_cons (matches_mark ht) (matchEach_cons (matches_identifierName h hname hr)
      (matchEach_nil r)))) ?_)
  rintro v ⟨vs, rfl, dot, _, rfl, -, w, _, rfl, ⟨inner, rfl⟩, rfl⟩
  exact ⟨_, rfl, fun span => .dot h⟩

theorem recognizes_index (h : Recognizes n (.item .value e) texts) :
    Recognizes (n + 1) (.suffix (.index e)) ("[" :: (texts ++ ["]"])) := by
  intro s r hs hr
  have hdot : (named "DotSuffix").Fails (n + 1) s :=
    fails_opening rfl rfl (by rw [hs.next_eq rfl (by decide)]; decide)
  obtain ⟨t, ht, -, hs⟩ := hs.peel (by decide)
  obtain ⟨u, hfirst, hs⟩ := hs.of_append
  have hclose : Follows terminators u := hs.follows (by decide)
  refine matches_alternation_tail hdot (matches_alternation_head (matches_rule rfl
    (matches_sequence (matchEach_cons (matches_mark ht)
      (matchEach_cons (h hfirst hclose) (matchEach_last hs (by decide))))) ?_))
  rintro v ⟨vs, rfl, opening, _, rfl, -, w, _, rfl, hd, closing, rfl, -⟩
  exact ⟨_, rfl, fun span => .index hd⟩

/-- Arguments are read where they begin, whatever they are. -/
theorem matches_arguments {t u : List Char} {P : Value → Prop} {arguments : List Expr}
    (ht : s.dropWhile Text.isBlank = "(".toList ++ t)
    (h : (Matcher.optional expressions).Matches n t u P) (hs : Spread [")"] u r)
    (hp : ∀ v, P v → DepictsEach .value (listed v) arguments) :
    suffixes.Matches (n + 1) s r (ShowsSuffix · (.arguments arguments)) := by
  have hnext : next s = some '(' := by
    rw [next, ht]
    rfl
  have hdot : (named "DotSuffix").Fails (n + 1) s := fails_opening rfl rfl (by rw [hnext]; decide)
  have hindex : (named "IndexSuffix").Fails (n + 1) s :=
    fails_opening rfl rfl (by rw [hnext]; decide)
  refine matches_alternation_tail hdot (matches_alternation_tail hindex
    (matches_alternation_head (matches_rule rfl (matches_sequence (matchEach_cons (matches_mark ht)
      (matchEach_cons h (matchEach_last hs (by decide))))) ?_)))
  rintro v ⟨vs, rfl, opening, _, rfl, -, body, _, rfl, hbody, closing, rfl, -⟩
  exact ⟨_, rfl, fun span => .arguments (hp body hbody)⟩

theorem recognizes_noArguments (hn : 4 ≤ n) :
    Recognizes (n + 1) (.suffix (.arguments [])) ["(", ")"] := by
  intro s r hs hr
  obtain ⟨m, rfl⟩ := Nat.exists_eq_add_of_le' hn
  obtain ⟨t, ht, -, hs⟩ := hs.peel (by decide)
  refine matches_arguments ht (matches_optional_absent
    (fails_sequence (fails_expression (hs.follows (by decide))))) hs ?_
  rintro v rfl
  exact .nil

theorem recognizes_arguments {es : List (Expr × List String)}
    (h : Recognizes n (.item .value e) texts)
    (hs : ∀ f ∈ es, Recognizes n (.further .value f.1) f.2)
    (hw : ∀ f ∈ es, Written n (.further .value f.1) f.2) :
    Recognizes (n + 1) (.suffix (.arguments (e :: es.map (·.1))))
      ("(" :: (texts ++ (es.flatMap (·.2) ++ [")"]))) := by
  intro s r hspread hr
  obtain ⟨t, ht, -, hspread⟩ := hspread.peel (by decide)
  rw [← List.append_assoc] at hspread
  obtain ⟨u, hlist, hclose⟩ := hspread.of_append
  have hcomma : (Matcher.sequence [mark ",", Role.matcher .value]).Fails n u :=
    fails_sequence (fails_mark rfl (by rw [hclose.next_eq rfl (by decide)]; decide))
  refine matches_arguments ht (matches_optional (matches_sequence (matchEach_listed h hs
    (fun f hf => (hw f hf).leads_further) hlist (hclose.follows (by decide)) hcomma
    (matchEach_nil u)))) hclose ?_
  rintro v ⟨vs, rfl, first, pairs, items, _, rfl, hpairs, hds, rfl⟩
  rw [listed_pairs hpairs]
  exact depictsEach_of_forall₂ hds

/-! ## Leaves and keys -/

theorem recognizes_literal {raw : String} {value : Value} (hn : 2 ≤ n)
    (h : IsNumber raw value ∨ IsString raw value ∨ IsKeyword raw value) :
    Recognizes n (.base (.literal raw)) [raw] := by
  intro s r hs hr
  obtain ⟨m, rfl⟩ := Nat.exists_eq_add_of_le' hn
  have hd : ∀ v : Value, (∃ span, v = .literal span raw value) → ∃ tree,
      (Except.ok (some v) : Except Fault (Option Value)) = .ok (some tree) ∧
        Depicts .value tree (.literal raw) := by
    rintro v ⟨span, rfl⟩
    exact ⟨_, rfl, .literal h⟩
  rcases h with h | h | h
  · exact matches_value rfl (matches_alternation_head (matches_number h hs hr)) hd
  · exact matches_value rfl (matches_alternation_tail (fails_number_string h hs)
      (matches_alternation_head (matches_string h hs))) hd
  · obtain ⟨c, rest, he, hc⟩ : ∃ c rest, raw.toList = c :: rest ∧ isNameStart c = true := by
      cases h <;> exact ⟨_, _, rfl, by decide⟩
    obtain ⟨hnumber, hstring⟩ := fails_leaves_name hs he hc
    exact matches_value rfl (matches_alternation_tail hnumber (matches_alternation_tail hstring
      (matches_alternation_head (matches_keyword h hs hr)))) hd

theorem recognizes_name {name : String} (hn : 2 ≤ n) (h : IsName name)
    (hfree : name ∉ reservedWords) : Recognizes n (.base (.name name)) [name] := by
  intro s r hs hr
  obtain ⟨m, rfl⟩ := Nat.exists_eq_add_of_le' hn
  obtain ⟨c, rest, he, hc, -⟩ := name_cases (h.spells rfl)
  obtain ⟨hnumber, hstring⟩ := fails_leaves_name hs he hc
  refine matches_value rfl (matches_alternation_tail hnumber (matches_alternation_tail hstring
    (matches_alternation_tail (fails_keyword_name h hfree hs hr)
      (matches_alternation_head (matches_identifier h hfree hs hr))))) ?_
  rintro v ⟨span, rfl⟩
  exact ⟨_, rfl, .name h hfree⟩

theorem recognizes_keyName {name : String} (hn : 2 ≤ n) (h : IsName name) :
    Recognizes n (.item .key (.name name)) [name] := by
  intro s r hs hr
  obtain ⟨m, rfl⟩ := Nat.exists_eq_add_of_le' hn
  refine matches_rule rfl (matches_alternation_head
    (matches_identifierName h hs (hr.mono terminators_subset))) ?_
  rintro v ⟨span, rfl⟩
  exact ⟨_, rfl, fun _ => .keyName h⟩

theorem recognizes_keyLiteral {raw : String} {value : Value} (hn : 2 ≤ n)
    (h : IsNumber raw value ∨ IsString raw value) :
    Recognizes n (.item .key (.literal raw)) [raw] := by
  intro s r hs hr
  obtain ⟨m, rfl⟩ := Nat.exists_eq_add_of_le' hn
  have hshows : ∀ v : Value, (∃ span, v = .literal span raw value) → ∃ tree,
      (Except.ok (some v) : Except Fault (Option Value)) = .ok (some tree) ∧
        ∀ span, Depicts .key (Descriptor.settle "PropertyKey" span tree) (.literal raw) := by
    rintro v ⟨span, rfl⟩
    exact ⟨_, rfl, fun _ => .keyLiteral h⟩
  rcases h with h | h
  · obtain ⟨hname, hstring⟩ := fails_leaves_number h hs
    exact matches_rule rfl (matches_alternation_tail hname (matches_alternation_tail hstring
      (matches_alternation_head (matches_number h hs (hr.mono terminators_subset))))) hshows
  · have hname : (named "IdentifierName").Fails (m + 1) s := by
      obtain ⟨mark, body, hmark, he, -⟩ := string_cases (h.1.spells rfl)
      refine fails_token rfl (name_eq_none ?_)
      rcases hmark with rfl | rfl <;> exact forall_next hs he (by decide) (by decide)
    exact matches_rule rfl (matches_alternation_tail hname
      (matches_alternation_head (matches_string h hs))) hshows

/-! ## Brackets -/

/-- A primary expression that begins with a bracket is no leaf. -/
theorem matches_bracket {c : Char} (h : next s = some c) (hc : c ∈ plainMarks)
    (hm : (Matcher.alternation [named "ArrayExpression", named "ObjectExpression",
      named "Parenthesized"]).Matches (n + 1) s r (Depicts .value · e)) :
    (named "Primary").Matches (n + 2) s r (Depicts .value · e) := by
  obtain ⟨hnumber, hstring, hkeyword, hname, -⟩ := @fails_tokens n s fun d hd => by
    cases h.symm.trans hd
    exact hc
  exact matches_value rfl (matches_alternation_tail hnumber (matches_alternation_tail hstring
    (matches_alternation_tail hkeyword (matches_alternation_tail hname hm))))
    fun v hd => ⟨v, rfl, hd⟩

theorem recognizes_array {es : List (Expr × List String)}
    (h : Recognizes n (.item .element e) texts)
    (hs : ∀ f ∈ es, Recognizes n (.further .element f.1) f.2)
    (hw : ∀ f ∈ es, Written n (.further .element f.1) f.2) :
    Recognizes (n + 2) (.base (.array (Expr.kept (e :: es.map (·.1)))))
      ("[" :: (texts ++ (es.flatMap (·.2) ++ ["]"]))) := by
  intro s r hspread hr
  have hnext : next s = some '[' := hspread.next_eq rfl (by decide)
  obtain ⟨t, ht, -, hspread⟩ := hspread.peel (by decide)
  rw [← List.append_assoc] at hspread
  obtain ⟨u, hlist, hclose⟩ := hspread.of_append
  have hcomma : (Matcher.sequence [mark ",", Role.matcher .element]).Fails n u :=
    fails_sequence (fails_mark rfl (by rw [hclose.next_eq rfl (by decide)]; decide))
  have harray : (named "ArrayExpression").Matches (n + 1) s r
      (Depicts .value · (.array (Expr.kept (e :: es.map (·.1))))) := by
    refine matches_value rfl (matches_sequence (matchEach_cons (matches_mark ht)
      (matchEach_listed h hs (fun f hf => (hw f hf).leads_further) hlist
        (hclose.follows (by decide)) hcomma (matchEach_last hclose (by decide))))) ?_
    rintro v ⟨vs, rfl, opening, _, rfl, ho, first, pairs, items, _, rfl, hpairs, hds, closing, rfl,
      hc⟩
    exact depicts_onArray ho hc hpairs hds
  exact matches_bracket hnext (by decide) (matches_alternation_head harray)

/-- An object is read where it begins, whatever it holds. -/
theorem matches_object {t u : List Char} {P : Value → Prop} {ps : List Expr}
    (ht : s.dropWhile Text.isBlank = "\x7b".toList ++ t)
    (h : (Matcher.optional properties).Matches n t u P) (hs : Spread ["\x7d"] u r)
    (hp : ∀ v, P v → DepictsEach .property (listed v) ps) :
    (named "Primary").Matches (n + 2) s r (Depicts .value · (.object ps)) := by
  have hnext : next s = some '\x7b' := by
    rw [next, ht]
    rfl
  have harray : (named "ArrayExpression").Fails (n + 1) s :=
    fails_opening rfl rfl (by rw [hnext]; decide)
  have hobject :
      (named "ObjectExpression").Matches (n + 1) s r (Depicts .value · (.object ps)) := by
    refine matches_value rfl (matches_sequence (matchEach_cons (matches_mark ht)
      (matchEach_cons h (matchEach_last hs (by decide))))) ?_
    rintro v ⟨vs, rfl, opening, _, rfl, ho, body, _, rfl, hbody, closing, rfl, hc⟩
    exact depicts_onObject ho hc (hp body hbody)
  exact matches_bracket hnext (by decide)
    (matches_alternation_tail harray (matches_alternation_head hobject))

theorem recognizes_emptyObject (hn : 3 ≤ n) :
    Recognizes (n + 2) (.base (.object [])) ["\x7b", "\x7d"] := by
  intro s r hs hr
  obtain ⟨m, rfl⟩ := Nat.exists_eq_add_of_le' hn
  obtain ⟨t, ht, -, hs⟩ := hs.peel (by decide)
  refine matches_object ht (matches_optional_absent
    (fails_sequence (fails_property (hs.follows (by decide))))) hs ?_
  rintro v rfl
  exact .nil

theorem recognizes_object {es : List (Expr × List String)} {trailing : List String}
    (h : Recognizes n (.item .property e) texts) (hw : Written n (.item .property e) texts)
    (hs : ∀ f ∈ es, Recognizes n (.further .property f.1) f.2)
    (hws : ∀ f ∈ es, Written n (.further .property f.1) f.2)
    (ht : trailing = [] ∨ trailing = [","]) :
    Recognizes (n + 2) (.base (.object (e :: es.map (·.1))))
      ("\x7b" :: (texts ++ (es.flatMap (·.2) ++ (trailing ++ ["\x7d"])))) := by
  intro s r hspread hr
  obtain ⟨t, hopen, -, hspread⟩ := hspread.peel (by decide)
  rw [← List.append_assoc] at hspread
  obtain ⟨u, hlist, hrest⟩ := hspread.of_append
  obtain ⟨m, rfl⟩ := Nat.exists_eq_add_of_le' hw.three_le_of_property
  -- a comma before the closing bracket is tried as the beginning of one more property
  obtain ⟨w, hu, hfurther, htrailing, hclose⟩ : ∃ w, Follows terminators u ∧
      (Matcher.sequence [mark ",", Role.matcher .property]).Fails (m + 3) u ∧
      MatchEach (m + 3) [.optional (mark ",")] u w (fun vs => ∃ v, vs = [v]) ∧
      Spread ["\x7d"] w r := by
    rcases ht with rfl | rfl
    · rw [List.nil_append] at hrest
      have hcomma : (mark ",").Fails (m + 3) u :=
        fails_mark rfl (by rw [hrest.next_eq rfl (by decide)]; decide)
      refine ⟨u, hrest.follows (by decide), fails_sequence hcomma, ?_, hrest⟩
      intro source cursor hc
      obtain ⟨vs, last, hr, hl, v, _, rfl, -, rfl⟩ :=
        matchEach_cons (matches_optional_absent hcomma) (matchEach_nil u) hc
      exact ⟨_, last, hr, hl, v, rfl⟩
    · rw [List.singleton_append] at hrest
      obtain ⟨w, hw, -, hclose⟩ := hrest.peel (by decide)
      have hcomma := @matches_mark (m + 3) u w "," hw
      refine ⟨w, hrest.follows (by decide), fails_sequence_second hcomma
        (fails_property (hclose.follows (by decide))), ?_, hclose⟩
      intro source cursor hc
      obtain ⟨vs, last, hr, hl, v, _, rfl, -, rfl⟩ :=
        matchEach_cons (matches_optional hcomma) (matchEach_nil w) hc
      exact ⟨_, last, hr, hl, v, rfl⟩
  have hlisted := matchEach_listed h hs (fun f hf => (hws f hf).leads_further) hlist hu hfurther
    htrailing
  refine matches_object hopen (matches_optional (matches_sequence hlisted)) hclose ?_
  rintro v ⟨vs, rfl, first, pairs, items, _, rfl, hpairs, hds, -⟩
  rw [listed_pairs hpairs]
  exact depictsEach_of_forall₂ hds

theorem recognizes_parenthesized (h : Recognizes n (.item .value e) texts) :
    Recognizes (n + 2) (.base e) ("(" :: (texts ++ [")"])) := by
  intro s r hs hr
  have hnext : next s = some '(' := hs.next_eq rfl (by decide)
  obtain ⟨t, ht, -, hs⟩ := hs.peel (by decide)
  obtain ⟨u, hfirst, hs⟩ := hs.of_append
  have hclose : Follows terminators u := hs.follows (by decide)
  have harray : (named "ArrayExpression").Fails (n + 1) s :=
    fails_opening rfl rfl (by rw [hnext]; decide)
  have hobject : (named "ObjectExpression").Fails (n + 1) s :=
    fails_opening rfl rfl (by rw [hnext]; decide)
  have hparenthesized : (named "Parenthesized").Matches (n + 1) s r (Depicts .value · e) := by
    refine matches_value rfl (matches_sequence (matchEach_cons (matches_mark ht)
      (matchEach_cons (h hfirst hclose) (matchEach_last hs (by decide))))) ?_
    rintro v ⟨vs, rfl, opening, _, rfl, -, w, _, rfl, hd, closing, rfl, -⟩
    exact ⟨w, rfl, hd⟩
  exact matches_bracket hnext (by decide) (matches_alternation_tail harray
    (matches_alternation_tail hobject (matches_alternation_head hparenthesized)))

/-! ## Items -/

theorem recognizes_hole (hn : 4 ≤ n) : Recognizes n (.item .element .hole) [] := by
  intro s r hs hr
  cases hs
  obtain ⟨m, rfl⟩ := Nat.exists_eq_add_of_le' hn
  exact (matches_optional_absent (fails_expression hr)).mono fun v hv => .inl ⟨hv, rfl⟩

theorem recognizes_element (h : Recognizes n (.item .value e) texts) :
    Recognizes n (.item .element e) texts :=
  fun _ _ hs hr => (matches_optional (h hs hr)).mono fun _ => .inr

theorem recognizes_property {k : Expr} {others : List String}
    (h : Recognizes n (.item .key k) texts) (h' : Recognizes n (.item .value e) others) :
    Recognizes (n + 1) (.item .property (.property k e)) (texts ++ ":" :: others) := by
  intro s r hs hr
  obtain ⟨t, hfirst, hs⟩ := hs.of_append
  have hcolon : Follows terminators t := hs.follows (by decide)
  obtain ⟨u, hu, -, hsecond⟩ := hs.peel (by decide)
  refine matches_rule rfl (matches_sequence (matchEach_cons (h hfirst hcolon)
    (matchEach_cons (matches_mark hu) (matchEach_cons (h' hsecond hr) (matchEach_nil r))))) ?_
  rintro v ⟨vs, rfl, key, _, rfl, hk, colon, _, rfl, -, value, _, rfl, hv, rfl⟩
  obtain ⟨p, hp, hd⟩ := depicts_onProperty colon hk hv
  refine ⟨p, hp, fun span => ?_⟩
  rw [hd.settle_property]
  exact hd

theorem recognizes_further {role : Role} (h : Recognizes n (.item role e) texts) :
    Recognizes n (.further role e) ("," :: texts) := by
  intro s r hs hr
  obtain ⟨t, ht, -, hs⟩ := hs.peel (by decide)
  refine (matches_sequence (matchEach_cons (matches_mark ht)
    (matchEach_cons (h hs hr) (matchEach_nil r)))).mono ?_
  rintro v ⟨vs, rfl, comma, _, rfl, -, item, _, rfl, hshows, rfl⟩
  exact ⟨comma, item, rfl, hshows⟩

/-! ## All ways to write something -/

/-- Texts that write something are read as that. -/
theorem recognizes_of_written {c : Construct} (h : Written n c texts) : Recognizes n c texts := by
  induction h with
  | expression _ hs hb ih ihs ihb => exact recognizes_expression ih ihs hs ihb hb
  | operation hmem _ ih => exact recognizes_operation hmem ih
  | noBranches => exact recognizes_noBranches
  | branches _ _ ih ih' => exact recognizes_branches ih ih'
  | hole hn => exact recognizes_hole hn
  | element _ ih => exact recognizes_element ih
  | keyName hn h => exact recognizes_keyName hn h
  | keyLiteral hn h => exact recognizes_keyLiteral hn h
  | property _ _ ih ih' => exact recognizes_property ih ih'
  | further _ ih => exact recognizes_further ih
  | literal hn h => exact recognizes_literal hn h
  | name hn h hfree => exact recognizes_name hn h hfree
  | array _ hs ih ihs => exact recognizes_array ih ihs hs
  | emptyObject hn => exact recognizes_emptyObject hn
  | object h hs ht ih ihs => exact recognizes_object ih h ihs hs ht
  | parenthesized _ ih => exact recognizes_parenthesized ih
  | dot hn h => exact recognizes_dot hn h
  | index _ ih => exact recognizes_index ih
  | noArguments hn => exact recognizes_noArguments hn
  | arguments _ hs ih ihs => exact recognizes_arguments ih ihs hs
  | unary hmem _ ih => exact recognizes_unary hmem ih
  | chain h hs ih ihs => exact recognizes_chain ih h ihs hs

end Matcher

end GatedExpr
