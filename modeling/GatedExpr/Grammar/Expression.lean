import GatedExpr.Grammar.Basic
import GatedExpr.Grammar.Precedence
import GatedExpr.Grammar.Token
import GatedExpr.Node.Access
import GatedExpr.Number.Numeral

/-! # The expression grammar

An expression is a flat run of operands and infix operators, folded by precedence, with an
optional choice between two further expressions. Only brackets, prefix operators and choices
nest rules inside of one another. The rules build trees of ten kinds of nodes.
-/

namespace GatedExpr.ExpressionGrammar

/-! ## From matches to nodes -/

/-- The text that a leaf matched. -/
def rawOf : Value → Except Fault String
  | .node _ token =>
    match token.raw with
    | some raw => .ok raw
    | none => .error .notAText
  | _ => .error (.noAttribute "raw")

def literalNode (token : Value) (value : String → Except Fault Value) :
    Except Fault (Option Value) := do
  let raw ← rawOf token
  let node : Node :=
    { kind := some "Literal", span := some (← token.matchedSpan), raw := some raw, children := none,
      fields := [("value", ← value raw)] }
  return some (.ofTree node)

def onNumber : Transform
  | [token] => literalNode token fun raw =>
    match Number.ofToken? raw.toList with
    | some n => .ok (.ofNumber n)
    | none => .error .notANumeral
  | _ => .error (.argumentCount "number")

def onString : Transform
  | [token] => literalNode token fun raw =>
    .ok (.text (String.ofList (Token.decodeString raw.toList)))
  | _ => .error (.argumentCount "string")

def onKeyword : Transform
  | [token] => literalNode token fun raw =>
    if raw == "true" then .ok (.bool true)
    else if raw == "false" then .ok (.bool false)
    else if raw == "null" then .ok .null
    else .error (.unbound (.text raw))
  | _ => .error (.argumentCount "keyword")

/-- Property names may be reserved words. -/
def onIdentifierName : Transform
  | [token] => do
    let span ← token.matchedSpan
    return some (.ofTree (.make "Identifier" (some span) [("name", .text (← rawOf token))]))
  | _ => .error (.argumentCount "identifier_name")

def onIdentifier : Transform
  | [token] => do
    if Token.reservedWords.contains (← rawOf token) then return none
    else onIdentifierName [token]
  | _ => .error (.argumentCount "identifier")

/-- The second item of each pair, as matched by a separator and what follows it. -/
def seconds : List Value → List Value
  | [] => []
  | .list _ (_ :: item :: _) :: rest => item :: seconds rest
  | _ :: rest => seconds rest

/-- The elements between commas. A hole is null; nothing after the last comma is no hole. -/
def elementsOf (first : Value) (rest : List Value) : List Value :=
  let elements := first :: seconds rest
  let kept := if elements.getLast?.any (·.isAbsent) then elements.dropLast else elements
  kept.map fun element => if element.isAbsent then .null else element

def onArray : Transform
  | [opening, first, .list _ rest, closing] => do
    return some (.ofTree (.make "ArrayExpression" (some (← opening.spanning closing))
      [("elements", .ofList (elementsOf first rest))]))
  | _ => .error (.argumentCount "array")

def onProperty : Transform
  | [key, _, value] => do
    return some (.ofTree (.make "Property" (some (← key.spanning value))
      [("key", key), ("value", value)]))
  | _ => .error (.argumentCount "property")

/-- The first item and the second ones of the pairs that follow it, or none of them. -/
def listed : Value → List Value
  | .list _ (first :: .list _ rest :: _) => first :: seconds rest
  | _ => []

def onObject : Transform
  | [opening, body, closing] => do
    return some (.ofTree (.make "ObjectExpression" (some (← opening.spanning closing))
      [("properties", .ofList (listed body))]))
  | _ => .error (.argumentCount "object")

def onParenthesized : Transform
  | [_, inner, _] => .ok (some inner)
  | _ => .error (.argumentCount "parenthesized")

/-- A suffix is a node on the way; its span is the span of what it matched. -/
def suffix (kind : String) (field : String) (held : Value) : Except Fault (Option Value) :=
  .ok (some (.ofTree (.make kind none [(field, held)])))

def onDotSuffix : Transform
  | [_, name] => suffix "DotSuffix" "property" name
  | _ => .error (.argumentCount "dot")

def onIndexSuffix : Transform
  | [_, index, _] => suffix "IndexSuffix" "property" index
  | _ => .error (.argumentCount "index")

def onArguments : Transform
  | [_, body, _] => suffix "Arguments" "arguments" (.ofList (listed body))
  | _ => .error (.argumentCount "arguments")

/-- Applies one suffix to what it follows. -/
def applySuffix (base suffix : Value) : Except Fault Value := do
  let span ← base.spanning suffix
  if ← suffix.isOfKind "Arguments" then
    let arguments ← suffix.readAttribute "arguments"
    return .ofTree (.make "CallExpression" (some span) [("callee", base), ("arguments", arguments)])
  else
    let property ← suffix.readAttribute "property"
    let computed ← suffix.isOfKind "IndexSuffix"
    return .ofTree (.make "MemberExpression" (some span)
      [("object", base), ("property", property), ("computed", .bool computed)])

def onPostfix : Transform
  | [base, .list _ suffixes] => some <$> suffixes.foldlM applySuffix base
  | _ => .error (.argumentCount "chain")

def onUnary : Transform
  | [operator, argument] => do
    let span ← operator.spanning argument
    return some (.ofTree (.make "UnaryExpression" (some span)
      [("operator", .text (← rawOf operator)), ("argument", argument)]))
  | _ => .error (.argumentCount "unary")

/-- The operators of a run with their right operands. -/
def operations : List Value → Except Fault (List (String × Value))
  | [] => .ok []
  | .list _ (operator :: right :: _) :: rest => do
    return (← rawOf operator, right) :: (← operations rest)
  | _ :: rest => operations rest

def onExpression : Transform
  | [first, .list _ rest, branches] => do
    let test ← Precedence.fold first (← operations rest)
    match branches with
    | .list _ [_, consequent, _, alternate] =>
      return some (.ofTree (.make "ConditionalExpression" (some (← test.spanning alternate))
        [("test", test), ("consequent", consequent), ("alternate", alternate)]))
    | _ => return some test
  | _ => .error (.argumentCount "expression")

/-! ## Rules -/

/-- Makes matchers and rules of one grammar. -/
abbrev Build := StateM Grammar

def literal (text : String) : Build Matcher :=
  fun grammar => grammar.literal text

def pattern (pattern : Pattern) : Build Matcher :=
  fun grammar => grammar.pattern pattern

def ref (kind : String) : Build Matcher :=
  fun grammar => grammar.reference kind

/-- Skips blanks before a token. -/
def token (matcher : Matcher) : Build Matcher := do
  return .after (← pattern .blanks) matcher

def punctuation (text : String) : Build Matcher := do
  token (← literal text)

def rule (kind : String) (matcher : Matcher) (onMatch : Option Transform) : Build Unit :=
  modify (·.register { kind, rule := some matcher, onMatch, fallback := none })

def atoms : Build Unit := do
  rule "Number" (← token (← pattern Token.number)) onNumber
  rule "String" (← token (← pattern Token.string)) onString
  rule "Keyword" (← token (← pattern Token.keyword)) onKeyword
  rule "Identifier" (← token (← pattern Token.name)) onIdentifier
  rule "IdentifierName" (← token (← pattern Token.name)) onIdentifierName

def brackets : Build Unit := do
  rule "ArrayExpression"
    (.sequence
      [← punctuation "[", .optional (← ref "Expression"),
        .repetition 0 (.sequence [← punctuation ",", .optional (← ref "Expression")]),
        ← punctuation "]"])
    onArray
  rule "PropertyKey"
    (.alternation [← ref "IdentifierName", ← ref "String", ← ref "Number"]) none
  rule "Property"
    (.sequence [← ref "PropertyKey", ← punctuation ":", ← ref "Expression"]) onProperty
  rule "ObjectExpression"
    (.sequence
      [← punctuation "\x7b",
        .optional
          (.sequence
            [← ref "Property",
              .repetition 0 (.sequence [← punctuation ",", ← ref "Property"]),
              .optional (← punctuation ",")]),
        ← punctuation "\x7d"])
    onObject
  rule "Parenthesized"
    (.sequence [← punctuation "(", ← ref "Expression", ← punctuation ")"]) onParenthesized
  rule "Primary"
    (.alternation
      [← ref "Number", ← ref "String", ← ref "Keyword", ← ref "Identifier",
        ← ref "ArrayExpression", ← ref "ObjectExpression", ← ref "Parenthesized"])
    none

def chains : Build Unit := do
  rule "DotSuffix" (.sequence [← punctuation ".", ← ref "IdentifierName"]) onDotSuffix
  rule "IndexSuffix"
    (.sequence [← punctuation "[", ← ref "Expression", ← punctuation "]"]) onIndexSuffix
  rule "Arguments"
    (.sequence
      [← punctuation "(",
        .optional
          (.sequence
            [← ref "Expression",
              .repetition 0 (.sequence [← punctuation ",", ← ref "Expression"])]),
        ← punctuation ")"])
    onArguments
  rule "Postfix"
    (.sequence
      [← ref "Primary",
        .repetition 0
          (.alternation [← ref "DotSuffix", ← ref "IndexSuffix", ← ref "Arguments"])])
    onPostfix

def operators : Build Unit := do
  let signs ← UnaryOperator.all.mapM fun operator => literal operator.symbol
  rule "UnaryOperation"
    (.sequence [← token (.alternation signs), ← ref "Unary"]) onUnary
  let operand := Matcher.alternation [← ref "UnaryOperation", ← ref "Postfix"]
  rule "Unary" operand none
  let infixes ← infixSymbols.mapM literal
  let binaryOperator ← token (.alternation infixes)
  rule "Expression"
    (.sequence
      [operand, .repetition 0 (.sequence [binaryOperator, operand]),
        .optional
          (.sequence
            [← punctuation "?", ← ref "Expression", ← punctuation ":", ← ref "Expression"])])
    onExpression

def build : Build Unit := do
  atoms
  brackets
  chains
  operators

end GatedExpr.ExpressionGrammar

namespace GatedExpr

/-- The grammar of expressions. -/
def Grammar.expression (id : GrammarId) : Grammar :=
  (ExpressionGrammar.build.run (Grammar.empty id)).2

/-- The rule that a whole expression is matched against. -/
def Grammar.rootKind : String := "Expression"

/-- The family that holds the expression grammar only, as number zero. -/
def Family.expression : Family :=
  { grammars := [Grammar.expression 0] }

end GatedExpr
