import GatedExpr.Proofs.Expr.Content
import GatedExpr.Proofs.Grammar.Accepting
import GatedExpr.Proofs.Grammar.Writing

/-! # Putting sources together

Accepted sources in brackets are the operands, indices, arguments, elements and values of a larger
source, and the tree of that source is made of theirs. What stands beside a source outside its
brackets changes nothing about how it is read.
-/

namespace GatedExpr

open ExpressionGrammar

namespace Family

variable {source : List Char} {tree : Value}

/-- The source is accepted by the rule, and has that tree. -/
def Parses (kind : String) (source : List Char) (tree : Value) : Prop :=
  expression.parse 0 source kind = .ok tree

/-- A key and a value, put together to a property. -/
inductive ComposedProperty : List Char → Value → Prop where

  | mk {k a : List Char} {key value : Value} {span : Span} :
      Parses "PropertyKey" k key → Parses Grammar.rootKind a value →
      ComposedProperty (k ++ ": ".toList ++ a)
        (.branch "Property" span [("key", key), ("value", value)])

/-- `Composed source tree`: the source is put together from accepted ones in brackets, and the
tree in the same way from their trees. -/
inductive Composed : List Char → Value → Prop where

  | parenthesized {a : List Char} {x : Value} : Parses Grammar.rootKind a x →
      Composed (bracketed a) x

  | unary {symbol : String} {a : List Char} {x : Value} {span : Span} :
      symbol ∈ UnaryOperator.all.map (·.symbol) → Parses Grammar.rootKind a x →
      Composed (symbol.toList ++ bracketed a)
        (.branch "UnaryExpression" span [("operator", .text symbol), ("argument", x)])

  | binary {symbol : String} {a b : List Char} {x y : Value} {span : Span} :
      symbol ∈ infixSymbols → Parses Grammar.rootKind a x → Parses Grammar.rootKind b y →
      Composed (bracketed a ++ ' ' :: symbol.toList ++ ' ' :: bracketed b)
        (.branch "BinaryExpression" span
          [("operator", .text symbol), ("left", x), ("right", y)])

  | choice {a b c : List Char} {x y z : Value} {span : Span} :
      Parses Grammar.rootKind a x → Parses Grammar.rootKind b y → Parses Grammar.rootKind c z →
      Composed
        (bracketed a ++ ' ' :: "?".toList ++ ' ' :: (bracketed b ++ ' ' :: ":".toList ++
          ' ' :: bracketed c))
        (.branch "ConditionalExpression" span
          [("test", x), ("consequent", y), ("alternate", z)])

  | member {a name : List Char} {x p : Value} {span : Span} :
      Parses Grammar.rootKind a x → Parses "IdentifierName" name p →
      Composed (bracketed a ++ (".".toList ++ name))
        (.branch "MemberExpression" span
          [("object", x), ("property", p), ("computed", .bool false)])

  | index {a b : List Char} {x y : Value} {span : Span} :
      Parses Grammar.rootKind a x → Parses Grammar.rootKind b y →
      Composed (bracketed a ++ enclosed "[" b "]")
        (.branch "MemberExpression" span
          [("object", x), ("property", y), ("computed", .bool true)])

  | call {a : List Char} {sources : List (List Char)} {x : Value} {items : List Value}
      {span : Span} :
      Parses Grammar.rootKind a x → List.Forall₂ (Parses Grammar.rootKind) sources items →
      Composed (bracketed a ++ enclosed "(" (joined sources) ")")
        (.branch "CallExpression" span [("callee", x), ("arguments", .ofList items)])

  | array {sources : List (List Char)} {items : List Value} {span : Span} :
      List.Forall₂ (Parses Grammar.rootKind) sources items →
      Composed (enclosed "[" (joined sources) "]")
        (.branch "ArrayExpression" span [("elements", .ofList items)])

  | object {sources : List (List Char)} {items : List Value} {span : Span} :
      List.Forall₂ ComposedProperty sources items →
      Composed (enclosed "\x7b" (joined sources) "\x7d")
        (.branch "ObjectExpression" span [("properties", .ofList items)])

/-! ## The tree of what is put together -/

theorem exists_writes (h : Parses Grammar.rootKind source tree) :
    ∃ e, Depicts .value tree e ∧ Writes (.item .value e) source := by
  obtain ⟨e, place, hd, hw, hl, hr⟩ := written_of_parse h
  exact ⟨e, hd, _, _, hw, place.rest, hl.spread, hr⟩

theorem exists_writes_key (h : Parses "PropertyKey" source tree) :
    ∃ e, Depicts .key tree e ∧ Writes (.item .key e) source := by
  obtain ⟨cursor, hrun, hr⟩ := @run_of_parse source tree "PropertyKey" _ _ rfl h
  obtain ⟨e, hd, hw, hl⟩ :=
    (Matcher.sound (nestingLimit + 1)).propertyKey (Cursor.inSource_start source) hrun
  exact ⟨e, hd, _, _, hw, cursor.place.rest, hl.spread, hr⟩

theorem exists_name (h : Parses "IdentifierName" source tree) :
    ∃ span name, tree = .identifier span name ∧ Token.IsName name ∧ Fills [name] source := by
  obtain ⟨cursor, hrun, hr⟩ := @run_of_parse source tree "IdentifierName" _ _ rfl h
  obtain ⟨-, span, name, rfl, hname, htexts, hl⟩ :=
    (Matcher.sound (nestingLimit + 1)).identifierName (Cursor.inSource_start source) hrun
  exact ⟨span, name, rfl, hname, cursor.place.rest, htexts ▸ hl.spread, hr⟩

theorem ComposedProperty.exists_writes (h : ComposedProperty source tree) :
    ∃ e, Depicts .property tree e ∧ Writes (.item .property e) source := by
  obtain ⟨hk, ha⟩ := h
  obtain ⟨key, hkey, hwk⟩ := exists_writes_key hk
  obtain ⟨e, hd, hw⟩ := Family.exists_writes ha
  exact ⟨.property key e, .property hkey hd, hwk.property hw⟩

/-- What the trees show is written by the sources, one by one. -/
theorem exists_writesEach {role : Role} {R : List Char → Value → Prop}
    {sources : List (List Char)} {items : List Value}
    (hR : ∀ {source tree}, R source tree →
      ∃ e, Depicts role tree e ∧ Writes (.item role e) source)
    (h : List.Forall₂ R sources items) :
    ∃ es, DepictsEach role items es ∧
      List.Forall₂ (fun e source => Writes (.item role e) source) es sources := by
  induction h with
  | nil => exact ⟨[], .nil, .nil⟩
  | cons h _ ih =>
    obtain ⟨e, hd, hw⟩ := hR h
    obtain ⟨es, hds, hws⟩ := ih
    exact ⟨e :: es, hds.cons hd, .cons hw hws⟩

/-- What the tree of a composed source shows is written by the source. -/
theorem Composed.exists_writes (h : Composed source tree) :
    ∃ e, Depicts .value tree e ∧ Writes (.item .value e) source := by
  cases h with
  | parenthesized ha =>
    obtain ⟨e, hd, hw⟩ := Family.exists_writes ha
    exact ⟨e, hd, hw.grouped.of_operand⟩
  | unary hsymbol ha =>
    obtain ⟨e, hd, hw⟩ := Family.exists_writes ha
    exact ⟨_, .unary hsymbol hd, (hw.grouped.signed hsymbol .nil).of_operand⟩
  | binary hsymbol ha hb =>
    obtain ⟨e, hd, hw⟩ := Family.exists_writes ha
    obtain ⟨f, hd', hw'⟩ := Family.exists_writes hb
    exact ⟨_, .binary hsymbol hd hd', hw.grouped.binary hsymbol hw'.grouped⟩
  | choice ha hb hc =>
    obtain ⟨e, hd, hw⟩ := Family.exists_writes ha
    obtain ⟨f, hd', hw'⟩ := Family.exists_writes hb
    obtain ⟨g, hd'', hw''⟩ := Family.exists_writes hc
    exact ⟨_, .choice hd hd' hd'',
      hw.grouped.choice hw'.grouped.of_operand hw''.grouped.of_operand⟩
  | member ha hname =>
    obtain ⟨e, hd, hw⟩ := Family.exists_writes ha
    obtain ⟨inner, name, rfl, hn, hs⟩ := exists_name hname
    exact ⟨_, .member hd hn, (hw.suffixed (Writes.dot hn hs)).of_operand⟩
  | index ha hb =>
    obtain ⟨e, hd, hw⟩ := Family.exists_writes ha
    obtain ⟨k, hd', hw'⟩ := Family.exists_writes hb
    exact ⟨_, .index hd hd', (hw.suffixed hw'.index).of_operand⟩
  | call ha hs =>
    obtain ⟨e, hd, hw⟩ := Family.exists_writes ha
    obtain ⟨es, ⟨hl, hall⟩, hws⟩ := exists_writesEach Family.exists_writes hs
    exact ⟨_, .call hd hl hall, (hw.suffixed (Writes.arguments hws)).of_operand⟩
  | array hs =>
    obtain ⟨es, ⟨hl, hall⟩, hws⟩ := exists_writesEach Family.exists_writes hs
    have hholes : ∀ e ∈ es, e.isHole = false := forall_of_zip hl fun v e hm => by
      cases hall v e hm <;> rfl
    exact ⟨_, .array hl fun v e hm => .element (hall v e hm),
      (Writes.of_base (Writes.array_of_values hws hholes)).of_operand⟩
  | object hs =>
    obtain ⟨es, ⟨hl, hall⟩, hws⟩ := exists_writesEach ComposedProperty.exists_writes hs
    exact ⟨_, .object hl hall, (Writes.of_base (Writes.object hws)).of_operand⟩

/-- A source that is put together from accepted ones in brackets is accepted, unless it nests too
deeply, and its tree is put together from theirs. -/
theorem parse_of_composed (h : Composed source tree) (hdeep : ¬ NestsTooDeeply source) :
    ∃ whole, expression.parse 0 source Grammar.rootKind = .ok whole ∧
      whole.hasContentOf tree = true := by
  obtain ⟨e, hd, n, texts, hw, hs⟩ := h.exists_writes
  obtain ⟨whole, hwhole, hd'⟩ := parse_of_written_of_not_nestsTooDeeply hw hs hdeep
  exact ⟨whole, hwhole, (hd'.hasContentOf_iff hd).mpr rfl⟩

/-- A call of a name with a string that holds a closing bracket, and with a number. -/
theorem parse_of_composed_call : ∃ callee text number whole,
    Parses Grammar.rootKind "f".toList callee ∧ Parses Grammar.rootKind "')'".toList text ∧
      Parses Grammar.rootKind "1".toList number ∧ ¬ NestsTooDeeply "(f)(')', 1)".toList ∧
      expression.parse 0 "(f)(')', 1)".toList Grammar.rootKind = .ok whole ∧
      whole.hasContentOf (.branch "CallExpression" ⟨0, 11⟩
        [("callee", callee), ("arguments", .ofList [text, number])]) = true := by
  obtain ⟨callee, hcallee⟩ : ∃ tree, Parses Grammar.rootKind "f".toList tree :=
    exists_tree_of_isOk (by decide +kernel)
  obtain ⟨text, htext⟩ : ∃ tree, Parses Grammar.rootKind "')'".toList tree :=
    exists_tree_of_isOk (by decide +kernel)
  obtain ⟨number, hnumber⟩ : ∃ tree, Parses Grammar.rootKind "1".toList tree :=
    exists_tree_of_isOk (by decide +kernel)
  obtain ⟨tree, htree⟩ : ∃ tree, Parses Grammar.rootKind "(f)(')', 1)".toList tree :=
    exists_tree_of_isOk (by decide +kernel)
  have hdeep := not_nestsTooDeeply_of_parse htree
  have hsource : bracketed "f".toList ++
      enclosed "(" (joined ["')'".toList, "1".toList]) ")" = "(f)(')', 1)".toList := by decide
  have hcomposed : Composed "(f)(')', 1)".toList (.branch "CallExpression" ⟨0, 11⟩
      [("callee", callee), ("arguments", .ofList [text, number])]) :=
    hsource ▸ .call hcallee (.cons htext (.cons hnumber .nil))
  obtain ⟨whole, hwhole, hsame⟩ := parse_of_composed hcomposed hdeep
  exact ⟨callee, text, number, whole, hcallee, htext, hnumber, hdeep, hwhole, hsame⟩

end Family

end GatedExpr
