import GatedExpr.Proofs.Grammar.Pieces
import GatedExpr.Proofs.Grammar.Reading

/-! # What a run has cut out

Every rule that succeeds yields a tree whose nodes stand for slices of the lexemes of the run. The
induction is on the depth, one rule at a time.
-/

namespace GatedExpr

namespace Matcher

open ExpressionGrammar Family Lexeme

variable {depth n : Nat} {matcher : Matcher} {v w : Value} {l m : List Lexeme} {a b : Place}

/-! ## Tokens -/

theorem traces_piece (text : String) :
    (mark text).Traces depth fun v l a b => IsPiece text v l a.skip b :=
  traces_spaced (traces_literal text)

/-- A node made of one token, and of no other node. -/
theorem encloses_piece {raw : String} (h : IsPiece raw v l a.skip b)
    (hw : w.matchedSpan = .ok ⟨a.skip.position, b.position⟩) (he : w.expressions = [w]) :
    Encloses n l w := by
  obtain ⟨-, rfl, -, -⟩ := h
  refine ⟨⟨_, _, rfl, rfl, hw⟩, fun x hx => .inl ?_⟩
  rwa [he, List.mem_singleton] at hx

theorem encloses_number : (named "Number").Traces (depth + 1) fun v l _ _ => Encloses n l v := by
  refine traces_rule rfl (traces_token _) ?_
  rintro read result l a b ⟨raw, hpiece, -⟩ hresult
  obtain rfl := hpiece.1
  obtain ⟨number, -, rfl⟩ := onNumber_token.mp hresult
  exact encloses_piece hpiece rfl rfl

theorem encloses_string : (named "String").Traces (depth + 1) fun v l _ _ => Encloses n l v := by
  refine traces_rule rfl (traces_token _) ?_
  rintro read result l a b ⟨raw, hpiece, -⟩ hresult
  obtain rfl := hpiece.1
  cases (onString_token raw _).symm.trans hresult
  exact encloses_piece hpiece rfl rfl

theorem encloses_keyword : (named "Keyword").Traces (depth + 1) fun v l _ _ => Encloses n l v := by
  refine traces_rule rfl (traces_token _) ?_
  rintro read result l a b ⟨raw, hpiece, hm⟩ hresult
  obtain rfl := hpiece.1
  obtain ⟨value, hvalue, rfl⟩ := onKeyword_of_match hm hresult
  exact encloses_piece hpiece rfl (by cases hvalue <;> rfl)

theorem encloses_identifier :
    (named "Identifier").Traces (depth + 1) fun v l _ _ => Encloses n l v := by
  refine traces_rule rfl (traces_token _) ?_
  rintro read result l a b ⟨raw, hpiece, -⟩ hresult
  obtain rfl := hpiece.1
  obtain ⟨-, rfl⟩ := onIdentifier_eq_ok.mp hresult
  exact encloses_piece hpiece rfl rfl

/-! ## Lists -/

/-- The first item of a list, and more of its kind after commas. -/
theorem traceEach_sliced {item : Matcher} {parts : List Matcher}
    {Q : List Value → List Lexeme → Place → Place → Prop}
    (h : item.Traces depth fun v l _ _ => Sliced n l v) (hp : TraceEach depth parts Q) :
    TraceEach depth (item :: .repetition 0 (.sequence [mark ",", item]) :: parts)
      fun vs l _ b => ∃ first pairs items rest k m c, vs = first :: .ofList pairs :: rest ∧
        l = k ++ m ∧ Pairs pairs items ∧ Sliced n k (.ofList (first :: items)) ∧
        Q rest m c b := by
  have hfurther : (Matcher.sequence [mark ",", item]).Traces depth fun v l _ _ =>
      ∃ comma w, v = .ofList [comma, w] ∧ Sliced n l w := by
    refine (traces_sequence (traceEach_cons (traces_piece ",")
      (traceEach_cons h traceEach_nil))).mono ?_
    rintro v l a b ⟨vs, rfl, comma, _, k, m, c, rfl, rfl, -, w, _, k', m', d, rfl, rfl, hw, rfl,
      rfl, rfl⟩
    exact ⟨comma, w, rfl, (hw.append_right []).append_left k⟩
  have hchain {pairs : List Value} {l : List Lexeme} {a b : Place}
      (hc : TraceChain (fun v l _ _ => ∃ comma w, v = .ofList [comma, w] ∧ Sliced n l w)
        pairs l a b) :
      ∃ items, Pairs pairs items ∧ Sliced n l (.ofList items) := by
    induction hc with
    | nil => exact ⟨[], .nil, sliced_ofList.mpr (List.forall_mem_nil _)⟩
    | @cons _ _ l m _ _ _ hv _ ih =>
      obtain ⟨comma, w, rfl, hw⟩ := hv
      obtain ⟨items, hpairs, hitems⟩ := ih
      refine ⟨w :: items, .cons ⟨comma, rfl⟩ hpairs, sliced_ofList.mpr ?_⟩
      rw [List.forall_mem_cons, ← sliced_ofList]
      exact ⟨hw.append_right m, hitems.append_left l⟩
  intro start next vs hs hr
  obtain ⟨first, _, k, m, c, rfl, hlexemes, hfirst, _, rest, k', m', d, rfl, rfl, ⟨pairs, rfl, hc⟩,
    hq⟩ := traceEach_cons h (traceEach_cons (traces_repetition hfurther 0) hp) hs hr
  obtain ⟨items, hpairs, hitems⟩ := hchain hc
  refine ⟨first, pairs, items, rest, k ++ k', m', d, rfl, ?_, hpairs, sliced_ofList.mpr ?_, hq⟩
  · rw [hlexemes, List.append_assoc]
  · rw [List.forall_mem_cons, ← sliced_ofList]
    exact ⟨hfirst.append_right k', hitems.append_left k⟩

/-- A suffix adds itself to the end of a node, and holds slices of what was read for it. -/
def CutsSuffix (depth : Nat) (l : List Lexeme) (stop : Int) (suffix : Value) : Prop :=
  ∀ ⦃base v : Value⦄ ⦃span : Span⦄, base.matchedSpan = .ok span →
    applySuffix base suffix = .ok v → v.matchedSpan = .ok ⟨span.start, stop⟩ ∧
      ∀ w ∈ v.expressions, w = v ∨ w ∈ base.expressions ∨ Slices depth l w

/-- What every reference yields at some depth is cut out of what it has read. -/
structure Cutting (depth : Nat) : Prop where
  closed : ∀ kind ∈ ["Number", "String", "Keyword", "Identifier", "ArrayExpression",
    "ObjectExpression"], (named kind).Traces depth fun v l _ _ => Encloses (depth + 3) l v
  property : (named "Property").Traces depth fun v l _ _ => Sliced depth l v
  parenthesized : (named "Parenthesized").Traces depth fun v l _ _ => Cuts (depth + 3) l v
  primary : (named "Primary").Traces depth fun v l _ _ => Cuts (depth + 2) l v
  suffixes : ∀ kind ∈ ["DotSuffix", "IndexSuffix", "Arguments"],
    (named kind).Traces depth fun v l _ b => CutsSuffix depth l b.position v
  chain : (named "Postfix").Traces depth fun v l _ _ => Cuts (depth + 1) l v
  unaryOperation : (named "UnaryOperation").Traces depth fun v l _ _ => Cuts (depth + 1) l v
  unary : (named "Unary").Traces depth fun v l _ _ => Cuts depth l v
  expression : (named "Expression").Traces depth fun v l _ _ => Cuts depth l v

/-! ## Brackets -/

/-- A node around a list of others, between its first and its last token. -/
theorem encloses_list (kind field : String) {left right : String} {opening closing : Value}
    {items : List Value} {l₁ l₂ l₃ : List Lexeme} {a' b' : Place}
    (hkind : kind = "ArrayExpression" ∨ kind = "ObjectExpression")
    (ho : IsPiece left opening l₁ a b) (hc : IsPiece right closing l₃ a' b')
    (h : Sliced n l₂ (.ofList items)) :
    ∃ span, opening.spanning closing = .ok span ∧
      Encloses n (l₁ ++ (l₂ ++ l₃)) (.branch kind span [(field, .ofList items)]) := by
  obtain ⟨rfl, rfl, -, -⟩ := ho
  obtain ⟨rfl, rfl, -, -⟩ := hc
  refine ⟨_, rfl, ⟨_, _, rfl, stop?_append (stop?_append rfl l₂) _, rfl⟩, fun w hw => ?_⟩
  have hkind' : kind ∉ ["Property", "MemberExpression"] := by
    rcases hkind with rfl | rfl <;> decide
  rw [Value.expressions_of_not_mem hkind', List.flatMap_singleton] at hw
  exact (List.mem_cons.mp hw).imp_right (h.append_both _ _ w)

/-- Holes hold no expressions. -/
theorem sliced_elementsOf {first : Value} {pairs items : List Value} (hp : Pairs pairs items)
    (h : Sliced n l (.ofList (first :: items))) :
    Sliced n l (.ofList (elementsOf first pairs)) := by
  rw [sliced_ofList] at h ⊢
  intro v hv
  simp only [elementsOf, seconds_pairs hp] at hv
  obtain ⟨x, hx, rfl⟩ := List.mem_map.mp hv
  have hmem : x ∈ first :: items := by
    split at hx
    · exact List.dropLast_subset _ hx
    · exact hx
  split
  · exact nofun
  · exact h x hmem

theorem encloses_array (cutting : Cutting depth) :
    (named "ArrayExpression").Traces (depth + 1) fun v l _ _ => Encloses (depth + 4) l v := by
  have helement : (Matcher.optional (named "Expression")).Traces depth fun v l _ _ =>
      Sliced (depth + 4) l v := by
    refine (traces_optional cutting.expression).mono ?_
    rintro v l a b (⟨rfl, -⟩ | h)
    · exact nofun
    · exact h.slices.mono_depth (Nat.le_add_right depth 4)
  refine traces_rule rfl (traces_sequence (traceEach_cons (traces_piece "[")
    (traceEach_sliced helement (traceEach_cons (traces_piece "]") traceEach_nil)))) ?_
  rintro read result l a b ⟨vs, rfl, opening, _, l₁, m₁, c, rfl, rfl, ho, first, pairs, items, _,
    l₂, m₂, d, rfl, rfl, hpairs, hitems, closing, _, l₃, m₃, f, rfl, rfl, hc, rfl, rfl, rfl⟩ hresult
  obtain ⟨span, hspan, h⟩ := encloses_list "ArrayExpression" "elements" (.inl rfl) ho hc
    (sliced_elementsOf hpairs hitems)
  cases (onArray_of_spanning hspan).symm.trans hresult
  rw [List.append_nil]
  exact h

theorem encloses_object (cutting : Cutting depth) :
    (named "ObjectExpression").Traces (depth + 1) fun v l _ _ => Encloses (depth + 4) l v := by
  have hbody : (Matcher.optional (.sequence [named "Property",
      .repetition 0 (.sequence [mark ",", named "Property"]), .optional (mark ",")])).Traces depth
        fun v l _ _ => Sliced depth l (.ofList (listed v)) := by
    refine (traces_optional (traces_sequence (traceEach_sliced cutting.property
      (traceEach_cons (traces_optional (traces_piece ",")) traceEach_nil)))).mono ?_
    rintro v l a b (⟨rfl, -⟩ | ⟨_, rfl, first, pairs, items, _, k, m, c, rfl, rfl, hpairs, hitems,
      trailing, _, l₂, m₂, d, rfl, rfl, -, rfl, rfl, rfl⟩)
    · exact sliced_ofList.mpr (List.forall_mem_nil _)
    · rw [listed_pairs hpairs]
      exact hitems.append_right _
  refine traces_rule rfl (traces_sequence (traceEach_cons (traces_piece "\x7b")
    (traceEach_cons hbody (traceEach_cons (traces_piece "\x7d") traceEach_nil)))) ?_
  rintro read result l a b ⟨vs, rfl, opening, _, l₁, m₁, c, rfl, rfl, ho, body, _, l₂, m₂, d, rfl,
    rfl, hb, closing, _, l₃, m₃, f, rfl, rfl, hc, rfl, rfl, rfl⟩ hresult
  obtain ⟨span, hspan, h⟩ := encloses_list "ObjectExpression" "properties" (.inr rfl) ho hc
    (hb.mono_depth (Nat.le_add_right depth 4))
  cases (onObject_of_spanning hspan).symm.trans hresult
  rw [List.append_nil]
  exact h

theorem settle_branch {kind other : String} {span outer : Span} {fields : List (String × Value)} :
    Descriptor.settle other outer (.branch kind span fields) = .branch kind span fields :=
  rfl

/-- The key of a property is no expression. -/
theorem sliced_property (cutting : Cutting depth) :
    (named "Property").Traces (depth + 1) fun v l _ _ => Sliced (depth + 1) l v := by
  refine traces_rule rfl (traces_sequence (traceEach_cons (Matcher.sound depth).propertyKey
    (traceEach_cons (traces_piece ":") (traceEach_cons
      (cutting.expression.and (Matcher.sound depth).expression) traceEach_nil)))) ?_
  rintro read result l a b ⟨vs, rfl, key, _, l₁, m₁, c, rfl, rfl, ⟨_, hk, -⟩, colon, _, l₂, m₂, d,
    rfl, rfl, -, v, _, l₃, m₃, f, rfl, rfl, ⟨hv, _, hd, -⟩, rfl, rfl, rfl⟩ hresult
  obtain ⟨s, hs⟩ := hk.matchedSpan_key
  obtain ⟨t, ht⟩ := hd.matchedSpan
  have hproperty : onProperty [key, colon, v] =
      .ok (some (.branch "Property" ⟨s.start, t.stop⟩ [("key", key), ("value", v)])) := by
    simp only [onProperty, Value.spanning, hs, ht]
    rfl
  cases hproperty.symm.trans hresult
  rw [settle_branch]
  intro w hw
  rw [Value.expressions_property] at hw
  have hsliced : Sliced (depth + 1) l₃ v := hv.slices.mono_depth (Nat.le_succ depth)
  exact (hsliced.append_both _ []).append_left _ w hw

theorem cuts_parenthesized (cutting : Cutting depth) :
    (named "Parenthesized").Traces (depth + 1) fun v l _ _ => Cuts (depth + 4) l v := by
  refine traces_rule rfl (traces_sequence (traceEach_cons (traces_piece "(")
    (traceEach_cons (cutting.expression.and (Matcher.sound depth).expression)
      (traceEach_cons (traces_piece ")") traceEach_nil)))) ?_
  rintro read result l a b ⟨vs, rfl, opening, _, l₁, m₁, c, rfl, rfl, ⟨-, rfl, -⟩, v, _, l₂, m₂, d,
    rfl, rfl, ⟨hv, e, hd, -⟩, closing, _, l₃, m₃, f, rfl, rfl, ⟨-, rfl, -⟩, rfl, rfl, rfl⟩ hresult
  cases hresult
  rw [Depicts.settle hd]
  exact (hv.mono (Nat.le_add_right depth 4)).enclosed rfl rfl

theorem cuts_primary (cutting : Cutting depth) :
    (named "Primary").Traces (depth + 1) fun v l _ _ => Cuts (depth + 3) l v := by
  have hclosed (kind : String) (hk : kind ∈ ["Number", "String", "Keyword", "Identifier",
      "ArrayExpression", "ObjectExpression"]) : (named kind).Traces depth fun v l _ _ =>
      Encloses (depth + 3) l v ∨ Cuts (depth + 3) l v :=
    (cutting.closed kind hk).mono fun _ _ _ _ => .inl
  have heither : ∀ option ∈ [named "Number", named "String", named "Keyword", named "Identifier",
      named "ArrayExpression", named "ObjectExpression", named "Parenthesized"],
      option.Traces depth fun v l _ _ => Encloses (depth + 3) l v ∨ Cuts (depth + 3) l v := by
    simp only [List.forall_mem_cons]
    exact ⟨hclosed _ (by decide), hclosed _ (by decide), hclosed _ (by decide),
      hclosed _ (by decide), hclosed _ (by decide), hclosed _ (by decide),
      cutting.parenthesized.mono fun _ _ _ _ => .inr, by simp⟩
  refine traces_rule rfl (traces_alternation fun option ho =>
    (heither option ho).and (reads_primaries (Matcher.sound depth) option ho)) ?_
  rintro read result l a b ⟨h, e, hd, hw, -⟩ hresult
  cases hresult
  rw [Depicts.settle hd]
  rcases h with h | h
  · exact h.cuts hd hw.of_base.of_operand
  · exact h

/-! ## Chains -/

theorem cutsSuffix_property {kind : String} {held : Value} {start stop : Int}
    (hkind : kind = "DotSuffix" ∨ kind = "IndexSuffix" ∧ Sliced n l held) :
    CutsSuffix n l stop (.branch kind ⟨start, stop⟩ [("property", held)]) := by
  intro base v span hbase hv
  have hresult : applySuffix base (.branch kind ⟨start, stop⟩ [("property", held)]) =
      .ok (.branch "MemberExpression" ⟨span.start, stop⟩
        [("object", base), ("property", held), ("computed", .bool (kind == "IndexSuffix"))]) := by
    simp only [applySuffix, Value.spanning, hbase]
    rcases hkind with rfl | ⟨rfl, -⟩ <;> rfl
  cases hresult.symm.trans hv
  refine ⟨rfl, fun w hw => ?_⟩
  rw [Value.expressions_member, List.mem_cons, List.mem_append] at hw
  refine hw.imp_right (Or.imp_right fun hw => ?_)
  rcases hkind with rfl | ⟨rfl, h⟩
  · cases hw
  · exact h w hw

theorem cutsSuffix_arguments {items : List Value} {start stop : Int}
    (h : Sliced n l (.ofList items)) :
    CutsSuffix n l stop (.branch "Arguments" ⟨start, stop⟩ [("arguments", .ofList items)]) := by
  intro base v span hbase hv
  have hresult : applySuffix base
      (.branch "Arguments" ⟨start, stop⟩ [("arguments", .ofList items)]) =
        .ok (.branch "CallExpression" ⟨span.start, stop⟩
          [("callee", base), ("arguments", .ofList items)]) := by
    simp only [applySuffix, Value.spanning, hbase]
    rfl
  cases hresult.symm.trans hv
  refine ⟨rfl, fun w hw => ?_⟩
  rw [Value.expressions_of_not_mem (by decide), List.flatMap_cons, List.flatMap_singleton,
    List.mem_cons, List.mem_append] at hw
  exact hw.imp_right (Or.imp_right (h w))

theorem cuts_dot : (named "DotSuffix").Traces (depth + 1) fun v l _ b =>
    CutsSuffix n l b.position v := by
  refine traces_rule rfl (traces_sequence (traceEach_cons (traces_piece ".")
    (traceEach_cons (Matcher.sound depth).identifierName traceEach_nil))) ?_
  rintro read result l a b ⟨vs, rfl, dot, _, l₁, m₁, c, rfl, rfl, -, v, _, l₂, m₂, d, rfl, rfl, -,
    rfl, rfl, rfl⟩ hresult
  cases hresult
  exact cutsSuffix_property (.inl rfl)

theorem cuts_index (cutting : Cutting depth) : (named "IndexSuffix").Traces (depth + 1)
    fun v l _ b => CutsSuffix (depth + 1) l b.position v := by
  refine traces_rule rfl (traces_sequence (traceEach_cons (traces_piece "[")
    (traceEach_cons cutting.expression (traceEach_cons (traces_piece "]") traceEach_nil)))) ?_
  rintro read result l a b ⟨vs, rfl, opening, _, l₁, m₁, c, rfl, rfl, -, v, _, l₂, m₂, d, rfl, rfl,
    hv, closing, _, l₃, m₃, f, rfl, rfl, -, rfl, rfl, rfl⟩ hresult
  cases hresult
  have hsliced : Sliced (depth + 1) l₂ v := hv.slices.mono_depth (Nat.le_succ depth)
  exact cutsSuffix_property (.inr ⟨rfl, hsliced.append_both _ _⟩)

theorem cuts_arguments (cutting : Cutting depth) : (named "Arguments").Traces (depth + 1)
    fun v l _ b => CutsSuffix (depth + 1) l b.position v := by
  have hitem : (named "Expression").Traces depth fun v l _ _ => Sliced (depth + 1) l v :=
    cutting.expression.mono fun _ _ _ _ h => h.slices.mono_depth (Nat.le_succ depth)
  have hbody : (Matcher.optional (.sequence [named "Expression",
      .repetition 0 (.sequence [mark ",", named "Expression"])])).Traces depth
        fun v l _ _ => Sliced (depth + 1) l (.ofList (listed v)) := by
    refine (traces_optional (traces_sequence (traceEach_sliced hitem traceEach_nil))).mono ?_
    rintro v l a b (⟨rfl, -⟩ | ⟨_, rfl, first, pairs, items, _, k, m, c, rfl, rfl, hpairs, hitems,
      rfl, rfl, rfl⟩)
    · exact sliced_ofList.mpr (List.forall_mem_nil _)
    · rw [listed_pairs hpairs]
      exact hitems.append_right _
  refine traces_rule rfl (traces_sequence (traceEach_cons (traces_piece "(")
    (traceEach_cons hbody (traceEach_cons (traces_piece ")") traceEach_nil)))) ?_
  rintro read result l a b ⟨vs, rfl, opening, _, l₁, m₁, c, rfl, rfl, -, body, _, l₂, m₂, d, rfl,
    rfl, hb, closing, _, l₃, m₃, f, rfl, rfl, -, rfl, rfl, rfl⟩ hresult
  cases hresult
  exact cutsSuffix_arguments (hb.append_both _ _)

theorem cuts_suffixes (cutting : Cutting depth) :
    suffixes.Traces depth fun v l _ b => CutsSuffix depth l b.position v := by
  apply traces_alternation
  simp only [List.forall_mem_cons]
  exact ⟨cutting.suffixes _ (by decide), cutting.suffixes _ (by decide),
    cutting.suffixes _ (by decide), by simp⟩

/-- The texts write a base and suffixes that are applied to it. -/
def WritesChain (n : Nat) (e : Expr) (texts : List String) : Prop :=
  ∃ base s, ∃ suffixes : List (Expr.Suffix × List String), Written n (.base base) s ∧
    (∀ suffix ∈ suffixes, Written n (.suffix suffix.1) suffix.2) ∧
    e = (suffixes.map (·.1)).foldl Expr.Suffix.apply base ∧ texts = s ++ suffixes.flatMap (·.2)

theorem WritesChain.written {e : Expr} {texts : List String} (h : WritesChain n e texts) :
    Written (n + 1) (.operand e) texts := by
  obtain ⟨base, s, suffixes, hw, hws, rfl, rfl⟩ := h
  exact .chain hw hws

theorem WritesChain.append {e : Expr} {suffix : Expr.Suffix} {texts others : List String}
    (h : WritesChain n e texts) (hs : Written n (.suffix suffix) others) :
    WritesChain n (suffix.apply e) (texts ++ others) := by
  obtain ⟨base, s, suffixes, hw, hws, rfl, rfl⟩ := h
  refine ⟨base, s, suffixes ++ [(suffix, others)], hw, ?_, ?_, ?_⟩
  · exact List.forall_mem_append.mpr ⟨hws, List.forall_mem_singleton.mpr hs⟩
  · rw [List.map_append, List.foldl_append]
    rfl
  · rw [List.flatMap_append, List.flatMap_singleton, List.append_assoc]

/-- The lexemes write a chain, and were read for it. -/
def Chained (depth : Nat) (l : List Lexeme) (v : Value) : Prop :=
  ∃ e, Depicts .value v e ∧ WritesChain depth e (textsOf l) ∧ Cuts (depth + 2) l v

/-- Each suffix is put around what stands before it, from the beginning of the base to its own
end. -/
theorem Chained.applySuffix {base suffix : Value} (h : Chained depth m base)
    (hs : ReadsAs depth .suffix suffix l a b) (hcuts : CutsSuffix depth l b.position suffix)
    (hv : applySuffix base suffix = .ok v) : Chained depth (m ++ l) v := by
  obtain ⟨e, hbase, hchain, hcut⟩ := h
  obtain ⟨s, hshows, hw, hlaid⟩ := hs
  obtain ⟨u, hu, hd⟩ := depicts_applySuffix hbase hshows
  cases hu.symm.trans hv
  have hwhole : WritesChain depth (s.apply e) (textsOf (m ++ l)) := by
    rw [textsOf, List.map_append]
    exact hchain.append hw
  have hstop : stop? l = some b.position := by
    refine hlaid.stop?_eq ?_
    rintro rfl
    cases hw
  obtain ⟨span, hspan, hopens, -⟩ := hcut.edges
  obtain ⟨hmatched, hcases⟩ := hcuts hspan hv
  refine ⟨s.apply e, hd, hwhole, cuts_between (k := []) hopens (closesAt_of_stop? hstop) hmatched
    hchain.written.level.balanced .nil hw.level.balanced hd hwhole.written.of_operand
    fun x hx => ?_⟩
  rcases hcases x hx with rfl | hx | hx
  · exact .inl rfl
  · exact .inr (hcut.slices.append_right l x hx)
  · exact .inr (hx.mono (List.suffix_append m l).isInfix (Nat.le_add_right depth 2))

theorem Chained.foldlM {items : List Value} {base : Value} (h : Chained depth m base)
    (hc : TraceChain (fun v l a b => ReadsAs depth .suffix v l a b ∧
      CutsSuffix depth l b.position v) items l a b)
    (hv : items.foldlM ExpressionGrammar.applySuffix base = .ok v) :
    Chained depth (m ++ l) v := by
  induction hc generalizing base m with
  | nil =>
    cases hv
    rwa [List.append_nil]
  | cons hsuffix _ ih =>
    rw [List.foldlM_cons] at hv
    obtain ⟨u, hu, hrest⟩ := Computation.except_bind_eq_ok.mp hv
    rw [← List.append_assoc]
    exact ih (h.applySuffix hsuffix.1 hsuffix.2 hu) hrest

theorem cuts_chain (cutting : Cutting depth) :
    (named "Postfix").Traces (depth + 1) fun v l _ _ => Cuts (depth + 2) l v := by
  have sound := Matcher.sound depth
  refine traces_rule rfl (traces_sequence (traceEach_cons (sound.primary.and cutting.primary)
    (traceEach_cons (traces_repetition ((reads_suffixes sound).and (cuts_suffixes cutting)) 0)
      traceEach_nil))) ?_
  rintro read result l a b ⟨vs, rfl, base, _, l₁, m₁, c, rfl, rfl, ⟨⟨e, hd, hw, -⟩, hcut⟩, _, _, l₂,
    m₂, d, rfl, rfl, ⟨items, rfl, hchain⟩, rfl, rfl, rfl⟩ hresult
  have hpostfix : onPostfix [base, .ofList items] = .ok (some result) := hresult
  simp only [onPostfix, Value.ofList] at hpostfix
  have hbase : Chained depth l₁ base :=
    ⟨e, hd, ⟨e, _, [], hw, List.forall_mem_nil _, rfl, (List.append_nil _).symm⟩, hcut⟩
  cases hv : items.foldlM applySuffix base with
  | error fault =>
    rw [hv] at hpostfix
    cases hpostfix
  | ok v =>
    rw [hv] at hpostfix
    cases hpostfix
    obtain ⟨f, hdv, -, h⟩ := hbase.foldlM hchain hv
    rw [List.append_nil, Depicts.settle hdv]
    exact h

/-! ## Operators -/

theorem cuts_unaryOperation (cutting : Cutting depth) :
    (named "UnaryOperation").Traces (depth + 1) fun v l _ _ => Cuts (depth + 2) l v := by
  have sound := Matcher.sound depth
  refine traces_rule rfl (traces_sequence (traceEach_cons traces_signs
    (traceEach_cons (sound.unary.and cutting.unary) traceEach_nil))) ?_
  rintro read result l a b ⟨vs, rfl, operator, _, l₁, m₁, c, rfl, rfl,
    ⟨symbol, hmem, ⟨rfl, rfl, -⟩, -⟩, v, _, l₂, m₂, d, rfl, rfl,
    ⟨⟨n, rfl, e, hd, hw, -⟩, hcut⟩, rfl, rfl, rfl⟩ hresult
  obtain ⟨u, hu, hd'⟩ := depicts_onUnary ⟨_, rfl⟩ hmem hd
  obtain ⟨span, hspan, -, hcloses⟩ := hcut.edges
  have hunary : onUnary [.ofTree (.token symbol ⟨a.skip.position, c.position⟩), v] =
      .ok (some (.branch "UnaryExpression" ⟨a.skip.position, span.stop⟩
        [("operator", .text symbol), ("argument", v)])) := by
    simp only [onUnary, Value.spanning, hspan]
    rfl
  cases hunary.symm.trans hu
  cases hunary.symm.trans hresult
  rw [List.append_nil, settle_branch]
  have hsign : Token.Level [symbol] := .single (Token.other_of_sign hmem)
  refine cuts_between (k := []) (opensAt_of_start? rfl) hcloses rfl hsign.balanced .nil
    hw.level.balanced hd' (Written.unary hmem hw).of_operand fun x hx => ?_
  rw [Value.expressions_of_not_mem (by decide), List.flatMap_cons, List.flatMap_singleton,
    Value.expressions_text, List.nil_append, List.mem_cons] at hx
  exact hx.imp_right ((hcut.slices.mono_depth (by omega)).append_left _ x)

theorem cuts_operand (cutting : Cutting depth) :
    operand.Traces depth fun v l _ _ => Cuts (depth + 1) l v := by
  apply traces_alternation
  simp only [List.forall_mem_cons]
  exact ⟨cutting.unaryOperation, cutting.chain, by simp⟩

theorem cuts_unary (cutting : Cutting depth) :
    (named "Unary").Traces (depth + 1) fun v l _ _ => Cuts (depth + 1) l v := by
  refine traces_rule rfl ((reads_operand (Matcher.sound depth)).and (cuts_operand cutting)) ?_
  rintro read result l a b ⟨⟨e, hd, -⟩, hcut⟩ hresult
  cases hresult
  rw [Depicts.settle hd]
  exact hcut

/-- An operator and its right operand, which have been read from the lexemes. -/
def CutsOperation (depth : Nat) (l : List Lexeme) (pair : Value) : Prop :=
  ∃ operation : InfixOperator × Piece, Piece.Follows depth operation ∧ l = operation.2.both ∧
    ∃ span, pair =
      .ofList [.ofTree (.token operation.1.symbol span), operation.2.operand.value]

theorem cuts_operation (cutting : Cutting depth) :
    operation.Traces depth fun v l _ _ => CutsOperation depth l v := by
  refine (traces_sequence (traceEach_cons (traces_spaced (traces_symbols infixSymbols))
    (traceEach_cons ((reads_operand (Matcher.sound depth)).and (cuts_operand cutting))
      traceEach_nil))).mono ?_
  rintro v l a b ⟨vs, rfl, operator, _, l₁, m₁, c, rfl, rfl, ⟨symbol, hmem, ⟨rfl, rfl, -⟩, -⟩,
    right, _, l₂, m₂, d, rfl, rfl, ⟨⟨e, hd, hw, -⟩, hcut⟩, rfl, rfl, rfl⟩
  obtain ⟨span, hspan, -⟩ := hcut.edges
  obtain ⟨level, hlevel⟩ : ∃ level, precedence? symbol = some level := by
    have hall : ∀ s ∈ infixSymbols, (precedence? s).isSome := by decide
    exact Option.isSome_iff_exists.mp (hall symbol hmem)
  refine ⟨(⟨symbol, level, hlevel⟩,
    ⟨⟨right, span, hspan⟩, e, [⟨symbol, ⟨a.skip.position, c.position⟩⟩], l₂⟩),
    ⟨hmem, rfl, ⟨hd, hw, hcut⟩⟩, ?_, _, rfl⟩
  rw [List.append_nil, Piece.both]

theorem operations_of_chain {pairs : List Value}
    (h : TraceChain (fun v l _ _ => CutsOperation depth l v) pairs l a b) :
    ∃ rest : List (InfixOperator × Piece),
      operations pairs = .ok (Precedence.texts (rest.map (Prod.map id Piece.operand))) ∧
        (∀ operation ∈ rest, Piece.Follows depth operation) ∧
          l = rest.flatMap fun operation => operation.2.both := by
  induction h with
  | nil => exact ⟨[], rfl, List.forall_mem_nil _, rfl⟩
  | cons hpair _ ih =>
    obtain ⟨operation, hfollows, rfl, span, rfl⟩ := hpair
    obtain ⟨rest, hrest, hall, rfl⟩ := ih
    refine ⟨operation :: rest, ?_, List.forall_mem_cons.mpr ⟨hfollows, hall⟩, rfl⟩
    simp only [Value.ofList, operations, hrest]
    rfl

/-- What follows a test, if there is anything. -/
def CutsBranches (depth : Nat) (l : List Lexeme) (v : Value) : Prop :=
  v = .absent ∧ l = [] ∨
    ∃ question x colon y e f k m, v = .ofList [question, x, colon, y] ∧ l = k ++ m ∧
      ReadsBranches depth x y e f k m

theorem cuts_branches (cutting : Cutting depth) :
    (Matcher.optional branches).Traces depth fun v l _ _ => CutsBranches depth l v := by
  have hbranch := (Matcher.sound depth).expression.and cutting.expression
  refine (traces_optional (traces_sequence (traceEach_cons (traces_piece "?")
    (traceEach_cons hbranch (traceEach_cons (traces_piece ":")
      (traceEach_cons hbranch traceEach_nil)))))).mono ?_
  rintro v l a b (⟨rfl, rfl, -⟩ | ⟨vs, rfl, question, _, l₁, m₁, c, rfl, rfl, ⟨-, rfl, -⟩, x, _, l₂,
    m₂, d, rfl, rfl, ⟨⟨e, hx, hwx, -⟩, hcutx⟩, colon, _, l₃, m₃, f, rfl, rfl, ⟨-, rfl, -⟩, y, _, l₄,
    m₄, g, rfl, rfl, ⟨⟨e', hy, hwy, -⟩, hcuty⟩, rfl, rfl, rfl⟩)
  · exact .inl ⟨rfl, rfl⟩
  · have hquestion : Token.Other "?" := Token.other_of_mark (by decide)
    have hcolon : Token.Level [":"] := .single (Token.other_of_mark (by decide))
    have hsliced := hcutx.slices.mono_depth (Nat.le_succ depth)
    refine .inr ⟨question, x, colon, y, e, e', ⟨"?", ⟨a.skip.position, c.position⟩⟩ :: (l₂ ++
      [⟨":", ⟨d.skip.position, f.position⟩⟩]), l₄, rfl, by simp, ⟨hx, hy, ?_, ?_,
        hwy.level.balanced, hsliced.append_both [_] _,
          hcuty.mono (Nat.le_succ depth)⟩⟩
    · have hwritten := Written.branches hwx hwy
      simpa using hwritten
    · have hbalanced := (hwx.level.append hcolon).balanced.cons hquestion
      simpa using hbalanced

theorem cuts_expression (cutting : Cutting depth) :
    (named "Expression").Traces (depth + 1) fun v l _ _ => Cuts (depth + 1) l v := by
  have sound := Matcher.sound depth
  refine traces_rule rfl (traces_sequence
    (traceEach_cons ((reads_operand sound).and (cuts_operand cutting))
      (traceEach_cons (traces_repetition (cuts_operation cutting) 0)
        (traceEach_cons (cuts_branches cutting) traceEach_nil)))) ?_
  rintro read result l a b ⟨vs, rfl, first, _, l₁, m₁, c, rfl, rfl, ⟨⟨e, hd, hw, -⟩, hcut⟩, _, _,
    l₂, m₂, d, rfl, rfl, ⟨pairs, rfl, hchain⟩, branches, _, l₃, m₃, f, rfl, rfl, hb, rfl, rfl,
    rfl⟩ hresult
  obtain ⟨span, hspan, -⟩ := hcut.edges
  obtain ⟨rest, hrest, hfollows, rfl⟩ := operations_of_chain hchain
  have hpiece : Piece.Reads depth ⟨⟨first, span, hspan⟩, e, [], l₁⟩ := ⟨hd, hw, hcut⟩
  obtain ⟨t, ho, hreads, hlexemes, hfold⟩ := Grouping.exists_reads hpiece hfollows
  have hexpression : onExpression [first, .ofList pairs, branches] = .ok (some result) := hresult
  simp only [onExpression, Value.ofList, hrest, bind, Except.bind, hfold] at hexpression
  rw [List.append_nil, ← List.append_assoc, ← hlexemes]
  rcases hb with ⟨rfl, rfl⟩ | ⟨question, x, colon, y, e', f', k, m, rfl, rfl, hbranches⟩
  · cases hexpression
    rw [List.append_nil, (hreads.depicts ho).settle]
    exact hreads.cuts ho
  · obtain ⟨range, hrange, hcuts⟩ := hbranches.cuts_choice hreads ho
    simp only [Value.ofList, hrange] at hexpression
    cases hexpression
    exact hcuts

/-! ## All rules -/

theorem cutting (depth : Nat) : Cutting depth := by
  induction depth with
  | zero =>
    have hnone : ∀ kind (P : Value → List Lexeme → Place → Place → Prop),
        (named kind).Traces 0 P :=
      fun kind P start next v _ hr => ((breaks_named kind).barren hr).elim
    constructor
    all_goals first | exact hnone _ _ | exact fun kind _ => hnone kind _
  | succ depth cutting =>
    constructor
    case closed =>
      simp only [List.forall_mem_cons]
      exact ⟨encloses_number, encloses_string, encloses_keyword, encloses_identifier,
        encloses_array cutting, encloses_object cutting, by simp⟩
    case suffixes =>
      simp only [List.forall_mem_cons]
      exact ⟨cuts_dot, cuts_index cutting, cuts_arguments cutting, by simp⟩
    case property => exact sliced_property cutting
    case parenthesized => exact cuts_parenthesized cutting
    case primary => exact cuts_primary cutting
    case chain => exact cuts_chain cutting
    case unaryOperation => exact cuts_unaryOperation cutting
    case unary => exact cuts_unary cutting
    case expression => exact cuts_expression cutting

end Matcher

end GatedExpr
