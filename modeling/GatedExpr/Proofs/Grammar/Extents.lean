import GatedExpr.Proofs.Grammar.Placement
import GatedExpr.Proofs.Grammar.Reading

/-! # What a run has placed

Every rule that succeeds yields a tree that is placed between the offsets where the run began and
ended, and whose leaves are the lexemes of the run, punctuation and operators aside. The induction
is on the depth, one rule at a time.
-/

namespace GatedExpr

namespace Matcher

open ExpressionGrammar Family

/-- The lexemes of `k` are among those of `l`, and the others of `l` are made of marks. -/
def Kept (k l : List Lexeme) : Prop :=
  k ⊆ l ∧ ∀ lexeme ∈ l, lexeme ∈ k ∨ ∀ c ∈ lexeme.text.toList, Token.isMark c = true

theorem Kept.append {k l m n : List Lexeme} (h : Kept k l) (h' : Kept m n) :
    Kept (k ++ m) (l ++ n) := by
  refine ⟨List.append_subset.mpr ⟨List.subset_append_of_subset_left _ h.1,
    List.subset_append_of_subset_right _ h'.1⟩, fun lexeme hm => ?_⟩
  rcases List.mem_append.mp hm with hm | hm
  · exact (h.2 lexeme hm).imp_left (List.mem_append_left _)
  · exact (h'.2 lexeme hm).imp_left (List.mem_append_right _)

/-- The nodes stand one after the other between two places, and the lexemes are theirs. -/
def StandEach (vs : List Value) (l : List Lexeme) (a b : Place) : Prop :=
  ∃ k, PlacedEach vs a.position k b.position ∧ Kept k l

def Stands (v : Value) : List Lexeme → Place → Place → Prop :=
  StandEach [v]

/-- An item of a list, which is no node if it is missing. -/
def StandsItem (v : Value) : List Lexeme → Place → Place → Prop :=
  StandEach ([v].filter (·.node?.isSome))

/-- A token that is no leaf of the tree. -/
def StandsMark (v : Value) (l : List Lexeme) (a b : Place) : Prop :=
  ∃ raw span, v = .ofTree (.token raw span) ∧ a.position ≤ span.start ∧
    span.start ≤ span.stop ∧ span.stop ≤ b.position ∧ Kept [] l

/-- The node of a suffix, which ends where the run did. -/
def StandsSuffix (v : Value) (l : List Lexeme) (a b : Place) : Prop :=
  ∃ k, PlacedSuffix v a.position k b.position ∧ Kept k l

variable {depth : Nat} {matcher : Matcher} {v w : Value} {vs ws : List Value}
  {k l m n : List Lexeme} {a b c d : Place}

theorem StandEach.append (h : StandEach vs l a b) (h' : StandEach ws m b c) :
    StandEach (vs ++ ws) (l ++ m) a c := by
  obtain ⟨k, hk, hl⟩ := h
  obtain ⟨n, hn, hm⟩ := h'
  exact ⟨k ++ n, hk.append hn, hl.append hm⟩

theorem StandEach.nil : StandEach [] [] a a :=
  ⟨[], .nil (Int.le_refl _), List.Subset.refl _, nofun⟩

theorem StandsMark.each (h : StandsMark v l a b) : StandEach [] l a b := by
  obtain ⟨raw, span, rfl, ha, hs, hb, hl⟩ := h
  exact ⟨[], .nil (by omega), hl⟩

theorem Stands.item (h : Stands v l a b) : StandsItem v l a b := by
  have hnode : v.node?.isSome = true := by
    obtain ⟨k, hk, -⟩ := h
    obtain ⟨span, hv, -⟩ := hk.of_single
    exact hv.isNode
  have hfilter : [v].filter (·.node?.isSome) = [v] := by simp [hnode]
  rwa [StandsItem, hfilter]

/-- A node around nodes that stand next to each other. -/
theorem StandEach.branch {kind : String} {fields : List (String × Value)} {span : Span}
    (hkind : kind ≠ "Literal" ∧ kind ≠ "Identifier")
    (hparts : PlacedEach (Value.partsOf fields) span.start k span.stop) (hk : Kept k l)
    (ha : a.position ≤ span.start) (hb : span.stop ≤ b.position) :
    Stands (.branch kind span fields) l a b :=
  ⟨k, .branch hkind hparts ha hb, hk⟩

/-- A node whose parts stand between two marks, which are its first and last token. -/
theorem StandEach.enclosed {opening closing : Value} (kind field : String) {items : List Value}
    (hkind : kind ≠ "Literal" ∧ kind ≠ "Identifier") (ho : StandsMark opening l a b)
    (h : StandEach (Node.directNodes (.ofList items)) m b c) (hc : StandsMark closing n c d) :
    ∃ span, opening.spanning closing = .ok span ∧
      Stands (.branch kind span [(field, .ofList items)]) (l ++ (m ++ n)) a d := by
  obtain ⟨_, s, rfl, ha, hs, hb, hl⟩ := ho
  obtain ⟨k, hk, hm⟩ := h
  obtain ⟨_, t, rfl, hc, ht, hd, hn⟩ := hc
  have hkept : Kept k (l ++ (m ++ n)) := by
    simpa using hl.append (hm.append hn)
  refine ⟨⟨s.start, t.stop⟩, rfl, .branch hkind ?_ hkept ha hd⟩
  have hparts : PlacedEach (Node.directNodes (.ofList items)) s.start k t.stop :=
    hk.mono (by omega) (by omega)
  simpa [Value.partsOf] using hparts

/-! ## Tokens -/

theorem kept_mark {raw : String} {span : Span} (h : ∀ c ∈ raw.toList, Token.isMark c = true) :
    Kept [] [⟨raw, span⟩] :=
  ⟨nofun, List.forall_mem_singleton.mpr (.inr h)⟩

theorem standsMark_piece {raw : String} (h : IsPiece raw v l a.skip b)
    (hm : ∀ c ∈ raw.toList, Token.isMark c = true) : StandsMark v l a b := by
  obtain ⟨rfl, rfl, -, hb⟩ := h
  refine ⟨raw, _, rfl, ?_, ?_, Int.le_refl _, kept_mark hm⟩
  · simp only [Place.skip]
    omega
  · simp only
    omega

theorem stands_mark (text : String) (h : ∀ c ∈ text.toList, Token.isMark c = true) :
    (mark text).Traces depth StandsMark :=
  (traces_spaced (traces_literal text)).mono fun _ _ _ _ hp => standsMark_piece hp h

theorem stands_symbols {symbols : List String}
    (h : ∀ symbol ∈ symbols, ∀ c ∈ symbol.toList, Token.isMark c = true) :
    (spaced (.alternation (symbols.map .literal))).Traces depth StandsMark :=
  (traces_spaced (traces_symbols symbols)).mono fun _ _ _ _ ⟨symbol, hmem, hp, _⟩ =>
    standsMark_piece hp (h symbol hmem)

/-- A token that is a leaf of the tree is one lexeme of the run. -/
theorem stands_leaf {raw : String} (h : IsPiece raw v l a.skip b)
    (hw : Placed w ⟨a.skip.position, b.position⟩ [⟨raw, ⟨a.skip.position, b.position⟩⟩]) :
    Stands w l a b := by
  obtain ⟨rfl, rfl, -, hb⟩ := h
  refine ⟨_, .single hw ?_ (Int.le_refl _), List.Subset.refl _, fun _ => .inl⟩
  simp only [Place.skip]
  omega

theorem IsPiece.le {raw : String} (h : IsPiece raw v l a b) : a.position ≤ b.position := by
  rw [h.2.2.2]
  omega

/-- A rule that yields placed trees. -/
theorem stands_rule {kind : String} {onMatch : Option Transform}
    {P : Value → List Lexeme → Place → Place → Prop}
    (hl : withOperators.rules.lookup kind =
      some { kind, rule := some matcher, onMatch, fallback := none })
    (hm : matcher.Traces depth P)
    (ht : ∀ {read result : Value} {l : List Lexeme} {a b : Place}, P read l a b →
      Descriptor.transformed { kind, rule := some matcher, onMatch, fallback := none } read =
        .ok (some result) → Stands result l a b) :
    (named kind).Traces (depth + 1) Stands := by
  refine traces_rule hl hm fun hread hresult => ?_
  obtain ⟨k, hk, hkept⟩ := ht hread hresult
  obtain ⟨span, hplaced, -⟩ := hk.of_single
  rw [hplaced.settle_eq]
  exact ⟨k, hk, hkept⟩

theorem stands_number : (named "Number").Traces (depth + 1) Stands := by
  refine stands_rule rfl (traces_token _) ?_
  rintro read result l a b ⟨raw, hpiece, -⟩ hresult
  obtain rfl := hpiece.1
  obtain ⟨n, -, rfl⟩ := onNumber_token.mp hresult
  exact stands_leaf hpiece (.literal hpiece.le (by cases n <;> rfl))

theorem stands_string : (named "String").Traces (depth + 1) Stands := by
  refine stands_rule rfl (traces_token _) ?_
  rintro read result l a b ⟨raw, hpiece, -⟩ hresult
  obtain rfl := hpiece.1
  cases (onString_token raw _).symm.trans hresult
  exact stands_leaf hpiece (.literal hpiece.le rfl)

theorem stands_keyword : (named "Keyword").Traces (depth + 1) Stands := by
  refine stands_rule rfl (traces_token _) ?_
  rintro read result l a b ⟨raw, hpiece, hm⟩ hresult
  obtain rfl := hpiece.1
  obtain ⟨value, hvalue, rfl⟩ := onKeyword_of_match hm hresult
  exact stands_leaf hpiece (.literal hpiece.le (by cases hvalue <;> rfl))

theorem stands_identifierName : (named "IdentifierName").Traces (depth + 1) Stands := by
  refine stands_rule rfl (traces_token _) ?_
  rintro read result l a b ⟨raw, hpiece, -⟩ hresult
  obtain rfl := hpiece.1
  cases (onIdentifierName_token raw _).symm.trans hresult
  exact stands_leaf hpiece (.identifier hpiece.le)

theorem stands_identifier : (named "Identifier").Traces (depth + 1) Stands := by
  refine stands_rule rfl (traces_token _) ?_
  rintro read result l a b ⟨raw, hpiece, -⟩ hresult
  obtain rfl := hpiece.1
  obtain ⟨-, rfl⟩ := onIdentifier_eq_ok.mp hresult
  exact stands_leaf hpiece (.identifier hpiece.le)

/-! ## Lists -/

/-- The first item of a list, and more of its kind after commas. -/
theorem standEach_listed {item : Matcher} {parts : List Matcher}
    {Q : List Value → List Lexeme → Place → Place → Prop} (h : item.Traces depth StandsItem)
    (hp : TraceEach depth parts Q) :
    TraceEach depth (item :: .repetition 0 (.sequence [mark ",", item]) :: parts)
      fun vs l a b => ∃ first pairs items rest k m c, vs = first :: .ofList pairs :: rest ∧
        l = k ++ m ∧ Pairs pairs items ∧
        StandEach ((first :: items).filter (·.node?.isSome)) k a c ∧ Q rest m c b := by
  have hfurther : (Matcher.sequence [mark ",", item]).Traces depth fun v l a b =>
      ∃ comma w, v = .ofList [comma, w] ∧ StandsItem w l a b := by
    refine (traces_sequence (traceEach_cons (stands_mark "," (by decide))
      (traceEach_cons h traceEach_nil))).mono ?_
    rintro v l a b ⟨vs, rfl, comma, _, k, m, c, rfl, rfl, hcomma, w, _, k', m', d, rfl, rfl, hw,
      rfl, rfl, rfl⟩
    refine ⟨comma, w, rfl, ?_⟩
    rw [List.append_nil]
    exact hcomma.each.append hw
  have hchain {pairs : List Value} {l : List Lexeme} {a b : Place}
      (hc : TraceChain (fun v l a b => ∃ comma w, v = .ofList [comma, w] ∧ StandsItem w l a b)
        pairs l a b) :
      ∃ items, Pairs pairs items ∧ StandEach (items.filter (·.node?.isSome)) l a b := by
    induction hc with
    | nil => exact ⟨[], .nil, .nil⟩
    | cons hv _ ih =>
      obtain ⟨comma, w, rfl, hw⟩ := hv
      obtain ⟨items, hpairs, hitems⟩ := ih
      refine ⟨w :: items, .cons ⟨comma, rfl⟩ hpairs, ?_⟩
      rw [← List.singleton_append, List.filter_append]
      exact hw.append hitems
  intro start next vs hs hr
  obtain ⟨first, _, k, m, c, rfl, hlexemes, hfirst, _, rest, k', m', d, rfl, rfl, ⟨pairs, rfl, hc⟩,
    hq⟩ := traceEach_cons h (traceEach_cons (traces_repetition hfurther 0) hp) hs hr
  obtain ⟨items, hpairs, hitems⟩ := hchain hc
  refine ⟨first, pairs, items, rest, k ++ k', m', d, rfl, ?_, hpairs, ?_, hq⟩
  · rw [hlexemes, List.append_assoc]
  · rw [← List.singleton_append, List.filter_append]
    exact hfirst.append hitems

/-- What every reference yields at some depth is placed. -/
structure Placing (depth : Nat) : Prop where
  trees : ∀ kind ∈ ["Number", "String", "Keyword", "Identifier", "IdentifierName",
    "ArrayExpression", "PropertyKey", "Property", "ObjectExpression", "Parenthesized", "Primary",
    "Postfix", "UnaryOperation", "Unary", "Expression"], (named kind).Traces depth Stands
  suffixes : ∀ kind ∈ ["DotSuffix", "IndexSuffix", "Arguments"],
    (named kind).Traces depth StandsSuffix

theorem Placing.expression (placing : Placing depth) :
    (named "Expression").Traces depth Stands :=
  placing.trees "Expression" (by decide)

/-! ## Brackets -/

theorem stands_array (placing : Placing depth) :
    (named "ArrayExpression").Traces (depth + 1) Stands := by
  have helement : (Matcher.optional (named "Expression")).Traces depth StandsItem := by
    refine (traces_optional placing.expression).mono ?_
    rintro v l a b (⟨rfl, rfl, rfl, -⟩ | h)
    · exact .nil
    · exact h.item
  refine stands_rule rfl (traces_sequence (traceEach_cons (stands_mark "[" (by decide))
    (standEach_listed helement (traceEach_cons (stands_mark "]" (by decide)) traceEach_nil)))) ?_
  rintro read result l a b ⟨vs, rfl, opening, _, l₁, m₁, c, rfl, rfl, ho, first, pairs, items, _,
    l₂, m₂, d, rfl, rfl, hpairs, hitems, closing, _, l₃, m₃, f, rfl, rfl, hc, rfl, rfl, rfl⟩ hresult
  rw [← filter_elementsOf hpairs] at hitems
  obtain ⟨span, hspan, h⟩ := StandEach.enclosed "ArrayExpression" "elements" (by decide) ho
    hitems hc
  cases (onArray_of_spanning hspan).symm.trans hresult
  rw [List.append_nil]
  exact h

theorem stands_object (placing : Placing depth) :
    (named "ObjectExpression").Traces (depth + 1) Stands := by
  have hproperty : (named "Property").Traces depth StandsItem :=
    (placing.trees "Property" (by decide)).mono fun _ _ _ _ h => h.item
  have hbody : (Matcher.optional (.sequence [named "Property",
      .repetition 0 (.sequence [mark ",", named "Property"]), .optional (mark ",")])).Traces depth
        fun v l a b => StandEach (Node.directNodes (.ofList (listed v))) l a b := by
    refine (traces_optional (traces_sequence (standEach_listed hproperty
      (traceEach_cons (traces_optional (stands_mark "," (by decide))) traceEach_nil)))).mono ?_
    rintro v l a b (⟨rfl, rfl, rfl, -⟩ | ⟨_, rfl, first, pairs, items, _, k, m, c, rfl, rfl, hpairs,
      hitems, trailing, _, l₂, m₂, d, rfl, rfl, htrailing, rfl, rfl, rfl⟩)
    · exact .nil
    · rw [listed_pairs hpairs]
      have hlast : StandEach [] l₂ c b := by
        rcases htrailing with ⟨-, rfl, rfl, -⟩ | h
        · exact .nil
        · exact h.each
      have hall := hitems.append hlast
      rwa [List.append_nil, ← List.append_nil l₂] at hall
  refine stands_rule rfl (traces_sequence (traceEach_cons (stands_mark "\x7b" (by decide))
    (traceEach_cons hbody (traceEach_cons (stands_mark "\x7d" (by decide)) traceEach_nil)))) ?_
  rintro read result l a b ⟨vs, rfl, opening, _, l₁, m₁, c, rfl, rfl, ho, body, _, l₂, m₂, d, rfl,
    rfl, hb, closing, _, l₃, m₃, f, rfl, rfl, hc, rfl, rfl, rfl⟩ hresult
  obtain ⟨span, hspan, h⟩ := StandEach.enclosed "ObjectExpression" "properties" (by decide) ho hb hc
  cases (onObject_of_spanning hspan).symm.trans hresult
  rw [List.append_nil]
  exact h

theorem stands_property (placing : Placing depth) :
    (named "Property").Traces (depth + 1) Stands := by
  refine stands_rule rfl (traces_sequence (traceEach_cons
    (placing.trees "PropertyKey" (by decide)) (traceEach_cons (stands_mark ":" (by decide))
      (traceEach_cons placing.expression traceEach_nil)))) ?_
  rintro read result l a b ⟨vs, rfl, key, _, l₁, m₁, c, rfl, rfl, hk, colon, _, l₂, m₂, d, rfl, rfl,
    hcolon, v, _, l₃, m₃, f, rfl, rfl, hv, rfl, rfl, rfl⟩ hresult
  have hboth : StandEach [key, v] (l₁ ++ (l₂ ++ (l₃ ++ []))) a b := by
    rw [List.append_nil]
    exact hk.append (hcolon.each.append hv)
  obtain ⟨k, hparts, hkept⟩ := hboth
  obtain ⟨span, hspan, ha, hb, hparts⟩ := hparts.spanning []
  have hproperty : onProperty [key, colon, v] =
      .ok (some (.branch "Property" span [("key", key), ("value", v)])) := by
    simp only [onProperty, hspan]
    rfl
  cases hproperty.symm.trans hresult
  refine .branch (by decide) ?_ hkept ha hb
  simpa [Value.partsOf, hparts.directNodes_of_mem] using hparts

theorem stands_parenthesized (placing : Placing depth) :
    (named "Parenthesized").Traces (depth + 1) Stands := by
  refine stands_rule rfl (traces_sequence (traceEach_cons (stands_mark "(" (by decide))
    (traceEach_cons placing.expression
      (traceEach_cons (stands_mark ")" (by decide)) traceEach_nil)))) ?_
  rintro read result l a b ⟨vs, rfl, opening, _, l₁, m₁, c, rfl, rfl, ho, v, _, l₂, m₂, d, rfl, rfl,
    hv, closing, _, l₃, m₃, f, rfl, rfl, hc, rfl, rfl, rfl⟩ hresult
  cases hresult
  rw [List.append_nil]
  exact ho.each.append (hv.append hc.each)

/-- A rule that yields one of the trees that other rules do. -/
theorem stands_either {kind : String} {options : List Matcher}
    (hl : withOperators.rules.lookup kind =
      some { kind, rule := some (.alternation options), onMatch := none, fallback := none })
    (h : ∀ option ∈ options, option.Traces depth Stands) :
    (named kind).Traces (depth + 1) Stands := by
  refine stands_rule hl (traces_alternation h) ?_
  rintro read result l a b hstands hresult
  cases hresult
  exact hstands

/-! ## Chains -/

/-- A node held by a suffix that is followed or enclosed by marks. -/
theorem stands_property_suffix {kind : String} {held : Value}
    (hkind : kind = "DotSuffix" ∨ kind = "IndexSuffix") (h : Stands held l a b) :
    StandsSuffix (.branch kind ⟨a.position, b.position⟩ [("property", held)]) l a b := by
  obtain ⟨k, hk, hkept⟩ := h
  exact ⟨k, @PlacedSuffix.property kind ⟨a.position, b.position⟩ held _ k hkind hk, hkept⟩

theorem stands_dot (placing : Placing depth) :
    (named "DotSuffix").Traces (depth + 1) StandsSuffix := by
  refine traces_rule rfl (traces_sequence (traceEach_cons (stands_mark "." (by decide))
    (traceEach_cons (placing.trees "IdentifierName" (by decide)) traceEach_nil))) ?_
  rintro read result l a b ⟨vs, rfl, dot, _, l₁, m₁, c, rfl, rfl, hdot, name, _, l₂, m₂, d, rfl,
    rfl, hname, rfl, rfl, rfl⟩ hresult
  cases hresult
  rw [List.append_nil]
  exact stands_property_suffix (.inl rfl) (hdot.each.append hname)

theorem stands_index (placing : Placing depth) :
    (named "IndexSuffix").Traces (depth + 1) StandsSuffix := by
  refine traces_rule rfl (traces_sequence (traceEach_cons (stands_mark "[" (by decide))
    (traceEach_cons placing.expression
      (traceEach_cons (stands_mark "]" (by decide)) traceEach_nil)))) ?_
  rintro read result l a b ⟨vs, rfl, opening, _, l₁, m₁, c, rfl, rfl, ho, index, _, l₂, m₂, d, rfl,
    rfl, hindex, closing, _, l₃, m₃, f, rfl, rfl, hc, rfl, rfl, rfl⟩ hresult
  cases hresult
  rw [List.append_nil]
  exact stands_property_suffix (.inr rfl) (ho.each.append (hindex.append hc.each))

theorem stands_arguments (placing : Placing depth) :
    (named "Arguments").Traces (depth + 1) StandsSuffix := by
  have hitem : (named "Expression").Traces depth StandsItem :=
    placing.expression.mono fun _ _ _ _ h => h.item
  have hbody : (Matcher.optional (.sequence [named "Expression",
      .repetition 0 (.sequence [mark ",", named "Expression"])])).Traces depth
        fun v l a b => StandEach (Node.directNodes (.ofList (listed v))) l a b := by
    refine (traces_optional (traces_sequence (standEach_listed hitem traceEach_nil))).mono ?_
    rintro v l a b (⟨rfl, rfl, rfl, -⟩ | ⟨_, rfl, first, pairs, items, _, k, m, c, rfl, rfl, hpairs,
      hitems, rfl, rfl, rfl⟩)
    · exact .nil
    · rw [listed_pairs hpairs, List.append_nil]
      exact hitems
  refine traces_rule rfl (traces_sequence (traceEach_cons (stands_mark "(" (by decide))
    (traceEach_cons hbody (traceEach_cons (stands_mark ")" (by decide)) traceEach_nil)))) ?_
  rintro read result l a b ⟨vs, rfl, opening, _, l₁, m₁, c, rfl, rfl, ho, body, _, l₂, m₂, d, rfl,
    rfl, hb, closing, _, l₃, m₃, f, rfl, rfl, hc, rfl, rfl, rfl⟩ hresult
  cases hresult
  have hall := ho.each.append (hb.append hc.each)
  rw [List.nil_append, List.append_nil] at hall
  rw [List.append_nil]
  obtain ⟨k, hk, hkept⟩ := hall
  exact ⟨k, @PlacedSuffix.arguments ⟨a.position, b.position⟩ (listed body) _ k hk, hkept⟩

theorem stands_chain (placing : Placing depth) :
    (named "Postfix").Traces (depth + 1) Stands := by
  have hsuffixes : ExpressionGrammar.suffixes.Traces depth StandsSuffix := by
    apply traces_alternation
    simp only [List.forall_mem_cons]
    exact ⟨placing.suffixes _ (by decide), placing.suffixes _ (by decide),
      placing.suffixes _ (by decide), by simp⟩
  -- each suffix is put around what stands before it
  have hfold {items : List Value} {l : List Lexeme} {a b : Place}
      (hc : TraceChain StandsSuffix items l a b) : ∀ {base v : Value} {m : List Lexeme} {o : Place},
      Stands base m o a → items.foldlM applySuffix base = .ok v → Stands v (m ++ l) o b := by
    induction hc with
    | nil =>
      intro base v m o hbase hv
      cases hv
      rwa [List.append_nil]
    | @cons suffix items l l' a b c hsuffix _ ih =>
      intro base v m o hbase hv
      rw [List.foldlM_cons] at hv
      cases hu : applySuffix base suffix with
      | error fault =>
        rw [hu] at hv
        cases hv
      | ok u =>
        rw [hu] at hv
        obtain ⟨k, hk, hkept⟩ := hbase
        obtain ⟨k', hk', hkept'⟩ := hsuffix
        have hstands : Stands u (m ++ l) o b :=
          ⟨k ++ k', placed_applySuffix hk hk' hu, hkept.append hkept'⟩
        rw [← List.append_assoc]
        exact ih hstands hv
  refine stands_rule rfl (traces_sequence (traceEach_cons (placing.trees "Primary" (by decide))
    (traceEach_cons (traces_repetition hsuffixes 0) traceEach_nil))) ?_
  rintro read result l a b ⟨vs, rfl, base, _, l₁, m₁, c, rfl, rfl, hbase, _, _, l₂, m₂, d, rfl, rfl,
    ⟨items, rfl, hchain⟩, rfl, rfl, rfl⟩ hresult
  have hpostfix : onPostfix [base, .ofList items] = .ok (some result) := hresult
  simp only [onPostfix, Value.ofList] at hpostfix
  cases hv : items.foldlM applySuffix base with
  | error fault =>
    rw [hv] at hpostfix
    cases hpostfix
  | ok v =>
    rw [hv] at hpostfix
    cases hpostfix
    rw [List.append_nil]
    exact hfold hchain hbase hv

/-! ## Operators -/

theorem stands_unaryOperation (placing : Placing depth) :
    (named "UnaryOperation").Traces (depth + 1) Stands := by
  have hsigns : (spaced signs).Traces depth StandsMark := by
    rw [signs_eq_map]
    exact stands_symbols (by decide)
  refine stands_rule rfl (traces_sequence (traceEach_cons hsigns
    (traceEach_cons (placing.trees "Unary" (by decide)) traceEach_nil))) ?_
  rintro read result l a b ⟨vs, rfl, operator, _, l₁, m₁, c, rfl, rfl,
    ⟨raw, s, rfl, ha, hs, hc, hk⟩, argument, _, l₂, m₂, d, rfl, rfl, ⟨k, hargument, hkept⟩,
    rfl, rfl, rfl⟩ hresult
  obtain ⟨t, ht, hstart, hstop⟩ := hargument.of_single
  have hunary : onUnary [.ofTree (.token raw s), argument] =
      .ok (some (.branch "UnaryExpression" ⟨s.start, t.stop⟩
        [("operator", .text raw), ("argument", argument)])) := by
    simp only [onUnary, Value.spanning, ht.matchedSpan_eq]
    rfl
  cases hunary.symm.trans hresult
  have hparts : PlacedEach [argument] s.start k t.stop := .single ht (by omega) (Int.le_refl _)
  have hall := hk.append hkept
  rw [List.nil_append] at hall
  rw [List.append_nil]
  refine .branch (by decide) ?_ hall ha hstop
  simpa [Value.partsOf, ht.directNodes_eq] using hparts

theorem stands_operand (placing : Placing depth) : operand.Traces depth Stands := by
  apply traces_alternation
  simp only [List.forall_mem_cons]
  exact ⟨placing.trees _ (by decide), placing.trees _ (by decide), by simp⟩

/-- An operator and its right operand. -/
def StandsPair (pair : Value) (l : List Lexeme) (a b : Place) : Prop :=
  ∃ operator right, pair = .ofList [operator, right] ∧
    (∃ raw span, operator = .ofTree (.token raw span)) ∧ Stands right l a b

theorem stands_operation (placing : Placing depth) : operation.Traces depth StandsPair := by
  refine (traces_sequence (traceEach_cons (@stands_symbols _ infixSymbols (by decide))
    (traceEach_cons (stands_operand placing) traceEach_nil))).mono ?_
  rintro v l a b ⟨vs, rfl, operator, _, l₁, m₁, c, rfl, rfl, ho, right, _, l₂, m₂, d, rfl, rfl,
    hright, rfl, rfl, rfl⟩
  rw [List.append_nil]
  obtain ⟨raw, span, hoperator, -⟩ := id ho
  exact ⟨operator, right, rfl, ⟨raw, span, hoperator⟩, ho.each.append hright⟩

theorem standEach_operations {pairs : List Value} (h : TraceChain StandsPair pairs l a b) :
    ∃ read, operations pairs = .ok read ∧ StandEach (read.map (·.2)) l a b := by
  induction h with
  | nil => exact ⟨[], rfl, .nil⟩
  | cons hpair _ ih =>
    obtain ⟨_, right, rfl, ⟨raw, span, rfl⟩, hright⟩ := hpair
    obtain ⟨read, hread, hstand⟩ := ih
    refine ⟨(raw, right) :: read, ?_, hright.append hstand⟩
    simp only [Value.ofList, operations, hread]
    rfl

/-- What follows a test, if there is anything. -/
def StandBranches (v : Value) (l : List Lexeme) (a b : Place) : Prop :=
  v = .absent ∧ l = [] ∧ b = a ∨
    ∃ question consequent colon alternate, v = .ofList [question, consequent, colon, alternate] ∧
      StandEach [consequent, alternate] l a b

theorem stand_branches (placing : Placing depth) :
    (Matcher.optional branches).Traces depth StandBranches := by
  refine (traces_optional (traces_sequence (traceEach_cons (stands_mark "?" (by decide))
    (traceEach_cons placing.expression (traceEach_cons (stands_mark ":" (by decide))
      (traceEach_cons placing.expression traceEach_nil)))))).mono ?_
  rintro v l a b (⟨rfl, rfl, rfl, -⟩ | ⟨vs, rfl, question, _, l₁, m₁, c, rfl, rfl, hq, x, _, l₂, m₂,
    d, rfl, rfl, hx, colon, _, l₃, m₃, f, rfl, rfl, hcolon, y, _, l₄, m₄, g, rfl, rfl, hy, rfl, rfl,
    rfl⟩)
  · exact .inl ⟨rfl, rfl, rfl⟩
  · refine .inr ⟨question, x, colon, y, rfl, ?_⟩
    rw [List.append_nil]
    exact hq.each.append (hx.append (hcolon.each.append hy))

theorem stands_expression (placing : Placing depth) :
    (named "Expression").Traces (depth + 1) Stands := by
  refine stands_rule rfl (traces_sequence (traceEach_cons (stands_operand placing)
    (traceEach_cons (traces_repetition (stands_operation placing) 0)
      (traceEach_cons (stand_branches placing) traceEach_nil)))) ?_
  rintro read result l a b ⟨vs, rfl, first, _, l₁, m₁, c, rfl, rfl, hfirst, _, _, l₂, m₂, d, rfl,
    rfl, ⟨pairs, rfl, hchain⟩, branches, _, l₃, m₃, f, rfl, rfl, hb, rfl, rfl, rfl⟩ hresult
  obtain ⟨read, hread, hoperations⟩ := standEach_operations hchain
  have hexpression : onExpression [first, .ofList pairs, branches] = .ok (some result) := hresult
  obtain ⟨k, hk, hkept⟩ := hfirst.append hoperations
  rw [List.append_nil, ← List.append_assoc]
  cases ht : Precedence.fold first read with
  | error fault =>
    simp only [onExpression, Value.ofList, hread] at hexpression
    simp only [bind, Except.bind, ht] at hexpression
    cases hexpression
  | ok test =>
    have htest : Stands test (l₁ ++ l₂) a d := ⟨k, Precedence.placed_fold hk ht, hkept⟩
    rcases hb with ⟨rfl, rfl, rfl⟩ | ⟨question, x, colon, y, rfl, hboth⟩
    · simp only [onExpression, Value.ofList, hread] at hexpression
      simp only [bind, Except.bind, ht] at hexpression
      cases hexpression
      rwa [List.append_nil]
    · obtain ⟨k, hk, hkept⟩ := htest.append hboth
      obtain ⟨span, hspan, ha, hb, hparts⟩ := hk.spanning [x]
      simp only [onExpression, Value.ofList, hread] at hexpression
      simp only [bind, Except.bind, ht, hspan] at hexpression
      cases hexpression
      refine .branch (by decide) ?_ hkept ha hb
      simpa [Value.partsOf, hk.directNodes_of_mem] using hparts

/-! ## All rules -/

theorem placing (depth : Nat) : Placing depth := by
  induction depth with
  | zero =>
    have hnone : ∀ kind (P : Value → List Lexeme → Place → Place → Prop),
        (named kind).Traces 0 P :=
      fun kind P start next v _ hr => ((breaks_named kind).barren hr).elim
    exact ⟨fun kind _ => hnone kind _, fun kind _ => hnone kind _⟩
  | succ depth placing =>
    constructor
    · simp only [List.forall_mem_cons]
      refine ⟨stands_number, stands_string, stands_keyword, stands_identifier,
        stands_identifierName, stands_array placing, stands_either rfl ?_, stands_property placing,
        stands_object placing, stands_parenthesized placing, stands_either rfl ?_,
        stands_chain placing, stands_unaryOperation placing, stands_either rfl ?_,
        stands_expression placing, by simp⟩ <;>
        simp only [List.forall_mem_cons]
      · exact ⟨placing.trees _ (by decide), placing.trees _ (by decide),
          placing.trees _ (by decide), by simp⟩
      · exact ⟨placing.trees _ (by decide), placing.trees _ (by decide),
          placing.trees _ (by decide), placing.trees _ (by decide), placing.trees _ (by decide),
          placing.trees _ (by decide), placing.trees _ (by decide), by simp⟩
      · exact ⟨placing.trees _ (by decide), placing.trees _ (by decide), by simp⟩
    · simp only [List.forall_mem_cons]
      exact ⟨stands_dot placing, stands_index placing, stands_arguments placing, by simp⟩

end Matcher

end GatedExpr
