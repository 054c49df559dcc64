import GatedExpr.Proofs.Expr.Spine
import GatedExpr.Proofs.Grammar.Rules

/-! # From matches to trees

What the rules make of what they matched shows the expression that was matched. Every result
already has a kind and a span, so settling it changes nothing.
-/

namespace GatedExpr

/-- A matched piece of text that has not been given a kind. -/
def IsToken (raw : String) (v : Value) : Prop :=
  ∃ span, v = .ofTree (.token raw span)

/-- An optional expression: nothing where a hole is shown. -/
def MaybeDepicts (v : Value) (e : Expr) : Prop :=
  v = .absent ∧ e = .hole ∨ Depicts .value v e

namespace Depicts

theorem isNode {v : Value} {e : Expr} (h : Depicts .value v e) : ∃ id node, v = .node id node := by
  cases h <;> exact ⟨_, _, rfl⟩

theorem settle {v : Value} {e : Expr} (h : Depicts .value v e) (kind : String) (span : Span) :
    Descriptor.settle kind span v = v := by
  cases h <;> rfl

theorem settle_key {v : Value} {e : Expr} (h : Depicts .key v e) (kind : String) (span : Span) :
    Descriptor.settle kind span v = v := by
  cases h <;> rfl

theorem settle_property {v : Value} {e : Expr} (h : Depicts .property v e) (kind : String)
    (span : Span) : Descriptor.settle kind span v = v := by
  cases h
  rfl

theorem matchedSpan_key {v : Value} {e : Expr} (h : Depicts .key v e) :
    ∃ span, v.matchedSpan = .ok span := by
  cases h <;> exact ⟨_, rfl⟩

end Depicts

namespace Expr

/-- The elements that stand between brackets: nothing after the last comma is no hole. -/
def kept (es : List Expr) : List Expr :=
  if es.getLast?.any isHole then es.dropLast else es

theorem kept_eq_self {es : List Expr} (h : ∀ e ∈ es, e.isHole = false) : kept es = es := by
  refine if_neg fun hlast => ?_
  rw [Option.any_eq_true] at hlast
  obtain ⟨last, hlast, hhole⟩ := hlast
  rw [h last (List.mem_of_getLast? hlast)] at hhole
  cases hhole

theorem leavesOf_kept (es : List Expr) : leavesOf (kept es) = leavesOf es := by
  unfold kept
  split
  · next h =>
    cases he : es.getLast? with
    | none => simp [he] at h
    | some e =>
      rw [he, Option.any_some] at h
      rw [← List.dropLast_append_getLast? e he]
      cases e with
      | hole => simp [leavesOf, leaves]
      | _ => cases h
  · rfl

/-- A test with its branches, if there are any. -/
def withBranches (test : Expr) : Option (Expr × Expr) → Expr
  | none => test
  | some (consequent, alternate) => .choice test consequent alternate

end Expr

/-- The node of a suffix shows the suffix. -/
inductive ShowsSuffix : Value → Expr.Suffix → Prop where

  | dot {inner span : Span} {name : String} : Token.IsName name →
      ShowsSuffix (.branch "DotSuffix" span [("property", .identifier inner name)]) (.dot name)

  | index {span : Span} {w : Value} {property : Expr} : Depicts .value w property →
      ShowsSuffix (.branch "IndexSuffix" span [("property", w)]) (.index property)

  | arguments {span : Span} {items : List Value} {arguments : List Expr} :
      DepictsEach .value items arguments →
      ShowsSuffix (.branch "Arguments" span [("arguments", .ofList items)])
        (.arguments arguments)

namespace ExpressionGrammar

/-! ## Leaves -/

theorem onNumber_token {raw : String} {span : Span} {v : Value} :
    onNumber [.ofTree (.token raw span)] = .ok (some v) ↔
      ∃ n, Number.ofToken? raw.toList = some n ∧ v = .literal span raw (.ofNumber n) := by
  cases hn : Number.ofToken? raw.toList with
  | none => simp [onNumber, literalNode, rawOf, Value.ofTree, Node.token, Value.matchedSpan, hn,
      bind, Except.bind]
  | some n =>
    have : onNumber [.ofTree (.token raw span)] = .ok (some (.literal span raw (.ofNumber n))) := by
      simp [onNumber, literalNode, rawOf, Value.ofTree, Node.token, Value.matchedSpan, hn, bind,
        Except.bind, Value.literal, pure, Except.pure]
    simp [this, eq_comm]

theorem onString_token (raw : String) (span : Span) :
    onString [.ofTree (.token raw span)] =
      .ok (some (.literal span raw (.text (String.ofList (Token.decodeString raw.toList))))) :=
  rfl

theorem onKeyword_token {raw : String} {span : Span} {value : Value}
    (h : Token.IsKeyword raw value) :
    onKeyword [.ofTree (.token raw span)] = .ok (some (.literal span raw value)) := by
  cases h <;> rfl

theorem onIdentifierName_token (raw : String) (span : Span) :
    onIdentifierName [.ofTree (.token raw span)] = .ok (some (.identifier span raw)) :=
  rfl

theorem onIdentifier_token (raw : String) (span : Span) :
    onIdentifier [.ofTree (.token raw span)] =
      .ok (if raw ∈ Token.reservedWords then none else some (.identifier span raw)) := by
  have : onIdentifier [.ofTree (.token raw span)] =
      if Token.reservedWords.contains raw then .ok none
      else onIdentifierName [.ofTree (.token raw span)] := rfl
  rw [this, onIdentifierName_token]
  by_cases hr : raw ∈ Token.reservedWords
  · simp [hr]
  · simp [hr]

theorem onIdentifier_eq_ok {raw : String} {span : Span} {v : Value} :
    onIdentifier [.ofTree (.token raw span)] = .ok (some v) ↔
      raw ∉ Token.reservedWords ∧ v = .identifier span raw := by
  rw [onIdentifier_token, Except.ok.injEq]
  by_cases hr : raw ∈ Token.reservedWords
  · simp [hr]
  · simp [hr, eq_comm]

/-! ## Pairs of a separator and what follows it -/

/-- The pairs hold the items. -/
def Pairs (pairs items : List Value) : Prop :=
  List.Forall₂ (fun pair item => ∃ separator, pair = .ofList [separator, item]) pairs items

theorem seconds_pairs {pairs items : List Value} (h : Pairs pairs items) :
    seconds pairs = items := by
  induction h with
  | nil => rfl
  | cons hp _ ih =>
    obtain ⟨separator, rfl⟩ := hp
    simp only [Value.ofList, seconds, ih]

/-! ## Brackets -/

theorem map_kept {items : List Value} {es : List Expr} (h : List.Forall₂ MaybeDepicts items es) :
    DepictsEach .element (items.map fun v => if v.isAbsent then .null else v) es := by
  induction h with
  | nil => exact .nil
  | @cons v e items es hv _ ih =>
    refine .cons ?_ ih
    rcases hv with ⟨rfl, rfl⟩ | hv
    · exact .hole
    · obtain ⟨id, node, rfl⟩ := hv.isNode
      exact .element hv

theorem isAbsent_eq {v : Value} {e : Expr} (h : MaybeDepicts v e) : v.isAbsent = e.isHole := by
  rcases h with ⟨rfl, rfl⟩ | h
  · rfl
  · cases h <;> rfl

theorem depicts_elementsOf {first : Value} {pairs items : List Value} {es : List Expr}
    (hp : Pairs pairs items) (h : List.Forall₂ MaybeDepicts (first :: items) es) :
    DepictsEach .element (elementsOf first pairs) (Expr.kept es) := by
  unfold elementsOf
  rw [seconds_pairs hp]
  simp only
  generalize first :: items = all at h
  have hlast : all.getLast?.any (·.isAbsent) = es.getLast?.any Expr.isHole := by
    induction h with
    | nil => rfl
    | @cons v e all es hv hs ih =>
      cases hs with
      | nil => exact isAbsent_eq hv
      | cons _ _ => simpa only [List.getLast?_cons_cons] using ih
  have hdrop : List.Forall₂ MaybeDepicts all.dropLast es.dropLast := by
    rw [List.dropLast_eq_take, List.dropLast_eq_take, h.length_eq]
    exact List.forall₂_take _ h
  rw [hlast, Expr.kept]
  split
  · exact map_kept hdrop
  · exact map_kept h

theorem onArray_of_spanning {opening first closing : Value} {pairs : List Value} {span : Span}
    (h : opening.spanning closing = .ok span) :
    onArray [opening, first, .ofList pairs, closing] =
      .ok (some (.branch "ArrayExpression" span
        [("elements", .ofList (elementsOf first pairs))])) := by
  simp only [onArray, Value.ofList, h]
  rfl

theorem depicts_onArray {opening closing first : Value} {pairs items : List Value}
    {es : List Expr} {s t : String} (ho : IsToken s opening) (hc : IsToken t closing)
    (hp : Pairs pairs items) (h : List.Forall₂ MaybeDepicts (first :: items) es) :
    ∃ v, onArray [opening, first, .ofList pairs, closing] = .ok (some v) ∧
      Depicts .value v (.array (Expr.kept es)) := by
  obtain ⟨so, rfl⟩ := ho
  obtain ⟨sc, rfl⟩ := hc
  have hd := depicts_elementsOf hp h
  exact ⟨_, rfl, .array hd.1 hd.2⟩

theorem depicts_onProperty {k v : Value} {key value : Expr} (colon : Value)
    (hk : Depicts .key k key) (hv : Depicts .value v value) :
    ∃ p, onProperty [k, colon, v] = .ok (some p) ∧ Depicts .property p (.property key value) := by
  obtain ⟨sk, hsk⟩ := hk.matchedSpan_key
  obtain ⟨sv, hsv⟩ := hv.matchedSpan
  exact ⟨_, by simp only [onProperty, Value.spanning, hsk, hsv]; rfl, .property hk hv⟩

theorem onObject_of_spanning {opening body closing : Value} {span : Span}
    (h : opening.spanning closing = .ok span) :
    onObject [opening, body, closing] =
      .ok (some (.branch "ObjectExpression" span [("properties", .ofList (listed body))])) := by
  simp only [onObject, h]
  rfl

theorem depicts_onObject {opening closing body : Value} {properties : List Expr} {s t : String}
    (ho : IsToken s opening) (hc : IsToken t closing)
    (h : DepictsEach .property (listed body) properties) :
    ∃ v, onObject [opening, body, closing] = .ok (some v) ∧
      Depicts .value v (.object properties) := by
  obtain ⟨so, rfl⟩ := ho
  obtain ⟨sc, rfl⟩ := hc
  exact ⟨_, rfl, .object h.1 h.2⟩

/-! ## Chains -/

theorem depicts_applySuffix {v w : Value} {e : Expr} {suffix : Expr.Suffix}
    (hv : Depicts .value v e) (hw : ShowsSuffix w suffix) :
    ∃ u, applySuffix v w = .ok u ∧ Depicts .value u (suffix.apply e) := by
  obtain ⟨span, hs⟩ := hv.matchedSpan
  cases hw with
  | @dot inner last name hn =>
    refine ⟨.branch "MemberExpression" ⟨span.start, last.stop⟩
      [("object", v), ("property", .identifier inner name), ("computed", .bool false)],
      ?_, .member hv hn⟩
    simp only [applySuffix, Value.spanning, hs]
    rfl
  | @index last w property hp =>
    refine ⟨.branch "MemberExpression" ⟨span.start, last.stop⟩
      [("object", v), ("property", w), ("computed", .bool true)], ?_, .index hv hp⟩
    simp only [applySuffix, Value.spanning, hs]
    rfl
  | @arguments last items arguments ha =>
    refine ⟨.branch "CallExpression" ⟨span.start, last.stop⟩
      [("callee", v), ("arguments", .ofList items)], ?_, .call hv ha.1 ha.2⟩
    simp only [applySuffix, Value.spanning, hs]
    rfl

theorem depicts_foldlM {items : List Value} {suffixes : List Expr.Suffix}
    (h : List.Forall₂ ShowsSuffix items suffixes) {v : Value} {e : Expr}
    (hv : Depicts .value v e) :
    ∃ u, items.foldlM applySuffix v = .ok u ∧
      Depicts .value u (suffixes.foldl Expr.Suffix.apply e) := by
  induction h generalizing v e with
  | nil => exact ⟨v, rfl, hv⟩
  | cons hw _ ih =>
    obtain ⟨u, hu, hd⟩ := depicts_applySuffix hv hw
    obtain ⟨x, hx, hdx⟩ := ih hd
    refine ⟨x, ?_, hdx⟩
    rw [List.foldlM_cons, hu]
    exact hx

theorem depicts_onPostfix {v : Value} {e : Expr} {items : List Value}
    {suffixes : List Expr.Suffix} (hv : Depicts .value v e)
    (h : List.Forall₂ ShowsSuffix items suffixes) :
    ∃ u, onPostfix [v, .ofList items] = .ok (some u) ∧
      Depicts .value u (suffixes.foldl Expr.Suffix.apply e) := by
  obtain ⟨u, hu, hd⟩ := depicts_foldlM h hv
  exact ⟨u, by simp only [onPostfix, Value.ofList, hu]; rfl, hd⟩

/-! ## Operators -/

theorem depicts_onUnary {operator v : Value} {symbol : String} {e : Expr}
    (ho : IsToken symbol operator) (hs : symbol ∈ UnaryOperator.all.map (·.symbol))
    (hv : Depicts .value v e) :
    ∃ u, onUnary [operator, v] = .ok (some u) ∧ Depicts .value u (.unary symbol e) := by
  obtain ⟨so, rfl⟩ := ho
  obtain ⟨span, hspan⟩ := hv.matchedSpan
  exact ⟨_, by simp only [onUnary, Value.spanning, hspan]; rfl, .unary hs hv⟩

/-- The pair of an operator and its right operand. -/
def ShowsPair (pair : Value) (shown : String × Expr) : Prop :=
  ∃ operator right, pair = .ofList [operator, right] ∧ IsToken shown.1 operator ∧
    shown.1 ∈ infixSymbols ∧ Depicts .value right shown.2

theorem operations_eq {pairs : List Value} {shown : List (String × Expr)}
    (h : List.Forall₂ ShowsPair pairs shown) :
    ∃ read, operations pairs = .ok read ∧ List.Forall₂ Precedence.ShowsOperation read shown := by
  induction h with
  | nil => exact ⟨[], rfl, .nil⟩
  | @cons pair operation pairs shown hp _ ih =>
    obtain ⟨operator, right, rfl, ⟨so, rfl⟩, hs, hr⟩ := hp
    obtain ⟨read, hread, hall⟩ := ih
    refine ⟨(operation.1, right) :: read, ?_, .cons ⟨rfl, hs, hr⟩ hall⟩
    simp only [Value.ofList, operations, hread]
    rfl

/-- An optional choice between two more expressions. -/
def ShowsBranches (v : Value) (branches : Option (Expr × Expr)) : Prop :=
  v = .absent ∧ branches = none ∨
    ∃ question c colon a e f, v = .ofList [question, c, colon, a] ∧ branches = some (e, f) ∧
      Depicts .value c e ∧ Depicts .value a f

theorem depicts_onExpression {first branches : Value} {pairs : List Value} {e : Expr}
    {shown : List (String × Expr)} {chosen : Option (Expr × Expr)} (hv : Depicts .value first e)
    (hp : List.Forall₂ ShowsPair pairs shown) (hb : ShowsBranches branches chosen) :
    ∃ v, onExpression [first, .ofList pairs, branches] = .ok (some v) ∧
      Depicts .value v ((Expr.fold e shown).withBranches chosen) := by
  obtain ⟨read, hread, hall⟩ := operations_eq hp
  obtain ⟨test, htest, hd⟩ := Precedence.depicts_fold hall hv
  rcases hb with ⟨rfl, rfl⟩ | ⟨question, c, colon, a, f, g, rfl, rfl, hc, ha⟩
  · refine ⟨test, ?_, hd⟩
    simp only [onExpression, Value.ofList, hread]
    simp only [bind, Except.bind, htest]
    rfl
  · obtain ⟨span, hspan⟩ := hd.spanning ha
    refine ⟨.branch "ConditionalExpression" span
      [("test", test), ("consequent", c), ("alternate", a)], ?_, .choice hd hc ha⟩
    simp only [onExpression, Value.ofList, hread]
    simp only [bind, Except.bind, htest, hspan]
    rfl

end ExpressionGrammar

end GatedExpr
