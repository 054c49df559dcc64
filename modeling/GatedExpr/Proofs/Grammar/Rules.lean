import GatedExpr.Grammar.Expression

/-! # The rules of the expression grammar

Making the grammar step by step yields a fixed table of rules. A reference followed inside of the
grammar runs the rule that the table has under its name, one level deeper.
-/

namespace GatedExpr

namespace ExpressionGrammar

/-- A matcher that skips blanks first. -/
def spaced (matcher : Matcher) : Matcher :=
  .after (.pattern .blanks) matcher

/-- A fixed text after blanks. -/
def mark (text : String) : Matcher :=
  spaced (.literal text)

/-- A reference to a rule of the grammar. -/
def named (kind : String) : Matcher :=
  .reference 0 kind

def signs : Matcher :=
  .alternation (UnaryOperator.all.map fun operator => .literal operator.symbol)

def infixes : Matcher :=
  .alternation (infixSymbols.map .literal)

def operand : Matcher :=
  .alternation [named "UnaryOperation", named "Postfix"]

/-- An infix operator and its right operand. -/
def operation : Matcher :=
  .sequence [spaced infixes, operand]

def suffixes : Matcher :=
  .alternation [named "DotSuffix", named "IndexSuffix", named "Arguments"]

def branches : Matcher :=
  .sequence [mark "?", named "Expression", mark ":", named "Expression"]

/-- A comma and what may follow it. -/
def furtherElement : Matcher :=
  .sequence [mark ",", .optional (named "Expression")]

def properties : Matcher :=
  .sequence
    [named "Property", .repetition 0 (.sequence [mark ",", named "Property"]),
      .optional (mark ",")]

def expressions : Matcher :=
  .sequence [named "Expression", .repetition 0 (.sequence [mark ",", named "Expression"])]

def entry (kind : String) (matcher : Matcher) (onMatch : Option Transform) :
    String × Descriptor :=
  (kind, { kind, rule := some matcher, onMatch, fallback := none })

def atomRules : List (String × Descriptor) :=
  [entry "Number" (spaced (.pattern Token.number)) onNumber,
    entry "String" (spaced (.pattern Token.string)) onString,
    entry "Keyword" (spaced (.pattern Token.keyword)) onKeyword,
    entry "Identifier" (spaced (.pattern Token.name)) onIdentifier,
    entry "IdentifierName" (spaced (.pattern Token.name)) onIdentifierName]

def bracketRules : List (String × Descriptor) :=
  [entry "ArrayExpression"
      (.sequence
        [mark "[", .optional (named "Expression"), .repetition 0 furtherElement, mark "]"])
      onArray,
    entry "PropertyKey"
      (.alternation [named "IdentifierName", named "String", named "Number"]) none,
    entry "Property" (.sequence [named "PropertyKey", mark ":", named "Expression"]) onProperty,
    entry "ObjectExpression" (.sequence [mark "\x7b", .optional properties, mark "\x7d"]) onObject,
    entry "Parenthesized" (.sequence [mark "(", named "Expression", mark ")"]) onParenthesized,
    entry "Primary"
      (.alternation
        [named "Number", named "String", named "Keyword", named "Identifier",
          named "ArrayExpression", named "ObjectExpression", named "Parenthesized"])
      none]

def chainRules : List (String × Descriptor) :=
  [entry "DotSuffix" (.sequence [mark ".", named "IdentifierName"]) onDotSuffix,
    entry "IndexSuffix" (.sequence [mark "[", named "Expression", mark "]"]) onIndexSuffix,
    entry "Arguments" (.sequence [mark "(", .optional expressions, mark ")"]) onArguments,
    entry "Postfix" (.sequence [named "Primary", .repetition 0 suffixes]) onPostfix]

def operatorRules : List (String × Descriptor) :=
  [entry "UnaryOperation" (.sequence [spaced signs, named "Unary"]) onUnary,
    entry "Unary" operand none,
    entry "Expression" (.sequence [operand, .repetition 0 operation, .optional branches])
      onExpression]

/-! ## The grammar while it is made -/

def keptLiterals (texts : List String) : List (String × Matcher) :=
  texts.map fun text => (text, .literal text)

def keptReferences (kinds : List String) : List (String × Matcher) :=
  kinds.map fun kind => (kind, named kind)

def keptPatterns : List (String × Matcher) :=
  [Token.number, .blanks, Token.string, Token.keyword, Token.name].map
    fun pattern => (pattern.key, .pattern pattern)

def withAtoms : Grammar :=
  { id := 0, rules := atomRules, literals := [], patterns := keptPatterns, references := [] }

def withBrackets : Grammar :=
  { withAtoms with
    rules := atomRules ++ bracketRules
    literals := keptLiterals ["[", ",", "]", ":", "\x7b", "\x7d", "(", ")"]
    references := keptReferences
      ["Expression", "IdentifierName", "String", "Number", "PropertyKey", "Property", "Keyword",
        "Identifier", "ArrayExpression", "ObjectExpression", "Parenthesized"] }

def withChains : Grammar :=
  { withBrackets with
    rules := atomRules ++ bracketRules ++ chainRules
    literals := withBrackets.literals ++ keptLiterals ["."]
    references := withBrackets.references ++
      keptReferences ["Primary", "DotSuffix", "IndexSuffix", "Arguments"] }

/-- The texts of the literals that stand before the infix operators. -/
def unaryTexts : List String :=
  ["[", ",", "]", ":", "\x7b", "\x7d", "(", ")", ".", "!", "~", "+", "-"]

/-- The infix operators that are no prefix operators. -/
def infixTexts : List String :=
  ["===", "!==", "||", "&&", "==", "!=", "<=", ">=", "<", ">", "*", "/", "%"]

def withSigns : Grammar :=
  { withChains with literals := keptLiterals unaryTexts }

def withUnary : Grammar :=
  { withSigns with
    rules := atomRules ++ bracketRules ++ chainRules ++ operatorRules.take 2
    references := withChains.references ++ keptReferences ["Unary", "UnaryOperation", "Postfix"] }

def withInfixes : Grammar :=
  { withUnary with literals := keptLiterals (unaryTexts ++ infixTexts) }

def withOperators : Grammar :=
  { withInfixes with
    rules := atomRules ++ bracketRules ++ chainRules ++ operatorRules
    literals := keptLiterals (unaryTexts ++ infixTexts ++ ["?"]) }

theorem run_atoms : (atoms.run (Grammar.empty 0)).2 = withAtoms := by
  rfl

theorem run_brackets : (brackets.run withAtoms).2 = withBrackets := by
  rfl

theorem run_chains : (chains.run withBrackets).2 = withChains := by
  rfl

/-! Literals for infix operators are asked for one after the other. -/

theorem lookup_keptLiterals (texts : List String) (text : String) :
    (keptLiterals texts).lookup text = if text ∈ texts then some (.literal text) else none := by
  induction texts with
  | nil => rfl
  | cons head rest ih =>
    rw [keptLiterals, List.map_cons, List.lookup_cons]
    by_cases h : text = head
    · simp [h]
    · rw [beq_eq_false_iff_ne.mpr h]
      change (keptLiterals rest).lookup text = _
      rw [ih]
      simp [h]

/-- The texts for which a literal is kept after one more was asked for. -/
def withText (texts : List String) (text : String) : List String :=
  if text ∈ texts then texts else texts ++ [text]

theorem keep_keptLiterals (texts : List String) (text : String) :
    Grammar.keep (keptLiterals texts) text (.literal text) =
      (.literal text, keptLiterals (withText texts text)) := by
  unfold Grammar.keep withText
  rw [lookup_keptLiterals]
  by_cases h : text ∈ texts
  · simp [h]
  · simp [h, keptLiterals]

theorem run_mapM_literal (grammar : Grammar) (texts kept : List String)
    (h : grammar.literals = keptLiterals kept) :
    (texts.mapM literal : Build (List Matcher)).run grammar =
      (texts.map .literal,
        { grammar with literals := keptLiterals (texts.foldl withText kept) }) := by
  induction texts generalizing grammar kept with
  | nil =>
    rw [List.foldl_nil, ← h]
    rfl
  | cons text texts ih =>
    have hkeep : literal text grammar =
        (.literal text, { grammar with literals := keptLiterals (withText kept text) }) := by
      simp only [literal, Grammar.literal, h, keep_keptLiterals]
    have hcons : ((text :: texts).mapM literal : Build (List Matcher)).run grammar =
        let (first, next) := literal text grammar
        let (others, last) := (texts.mapM literal : Build (List Matcher)).run next
        (first :: others, last) := by
      rw [List.mapM_cons]
      rfl
    have hrest := ih { grammar with literals := keptLiterals (withText kept text) }
      (withText kept text) rfl
    rw [hcons, hkeep]
    simp only [hrest, List.map_cons, List.foldl_cons]

theorem run_infixes :
    (infixSymbols.mapM literal : Build _).run withUnary =
      (infixSymbols.map .literal, withInfixes) := by
  have hkept : infixSymbols.foldl withText unaryTexts = unaryTexts ++ infixTexts := by decide
  rw [run_mapM_literal withUnary infixSymbols unaryTexts rfl, hkept]
  rfl

/-- The rules for prefix operators. -/
def unaryPart : Build Unit := do
  rule "UnaryOperation" (.sequence [← token signs, ← ref "Unary"]) onUnary
  let operand := Matcher.alternation [← ref "UnaryOperation", ← ref "Postfix"]
  rule "Unary" operand none

/-- The rule for whole expressions. -/
def infixPart (infixes : List Matcher) : Build Unit := do
  let binaryOperator ← token (.alternation infixes)
  rule "Expression"
    (.sequence
      [operand, .repetition 0 (.sequence [binaryOperator, operand]),
        .optional
          (.sequence
            [← punctuation "?", ← ref "Expression", ← punctuation ":", ← ref "Expression"])])
    onExpression

theorem run_unaryPart : (unaryPart.run withSigns).2 = withUnary := by
  rfl

theorem run_infixPart :
    ((infixPart (infixSymbols.map .literal)).run withInfixes).2 = withOperators := by
  rfl

theorem run_operators : (operators.run withChains).2 = withOperators := by
  have h : (operators.run withChains).2 =
      ((infixSymbols.mapM literal >>= infixPart).run (unaryPart.run withSigns).2).2 := by
    -- without its list of symbols the run is short enough to be compared step by step
    generalize hm : (infixSymbols.mapM literal : Build (List Matcher)) = literals
    unfold operators
    rw [hm]
    rfl
  rw [h, run_unaryPart, StateT.run_bind, run_infixes]
  exact run_infixPart

end ExpressionGrammar

namespace Grammar

open ExpressionGrammar

theorem expression_eq : Grammar.expression 0 = withOperators := by
  have h (a b c d : Build Unit) (grammar : Grammar) :
      ((do a; b; c; d : Build Unit).run grammar).2 =
        (d.run (c.run (b.run (a.run grammar).2).2).2).2 := rfl
  rw [Grammar.expression, build, h, run_atoms, run_brackets, run_chains, run_operators]

end Grammar

namespace Family

open ExpressionGrammar

/-- References inside of the expression grammar, followed at most `depth` levels deep. -/
def followExpression (depth : Nat) : Follow :=
  expression.follow depth (some 0)

theorem followExpression_succ {kind : String} {matcher : Matcher} {onMatch : Option Transform}
    (h : withOperators.rules.lookup kind =
      some { kind, rule := some matcher, onMatch, fallback := none })
    (depth : Nat) (cursor : Cursor) :
    followExpression (depth + 1) 0 kind cursor =
      Descriptor.run (followExpression depth)
        { kind, rule := some matcher, onMatch, fallback := none } cursor := by
  have hrule : expression.rule? 0 kind =
      some { kind, rule := some matcher, onMatch, fallback := none } := by
    have hget : expression.get? 0 = some (Grammar.expression 0) := by
      rw [get?, expression, List.getElem?_cons_zero]
    rw [rule?, hget, Grammar.expression_eq, Option.bind_some, h]
  have hresolve : expression.resolve? (some 0) 0 kind =
      some (0, { kind, rule := some matcher, onMatch, fallback := none }) := by
    simp only [resolve?, Option.getD_some, hrule]
  simp only [followExpression, follow, hresolve]

end Family

end GatedExpr
