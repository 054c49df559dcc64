import GatedExpr.Node.Access
import GatedExpr.Operator
import GatedExpr.Text.Search
import GatedExpr.Value.Printer

/-! # Printed trees

Trees are printed as source text, with parentheses where an operand binds less strongly than its
place demands. Since infix operators associate to the left, a right operand of equal strength
gets parentheses as well. Printing fails on nodes that lack what their kind should have. A name
or matched text that stands alone is yielded as it is, so the result need not be a text.
-/

namespace GatedExpr

namespace Precedence

def choice : Nat := 0

def unary : Nat := 7

/-- What may stand before a member access or a call. -/
def chain : Nat := 8

def atom : Nat := 9

/-- How strongly an operator binds; unknown ones do so least. -/
def ofOperator (operator : Value) : Except Fault Nat :=
  match operator with
  | .text symbol => .ok ((precedence? symbol).getD 0)
  | operator => if operator.isKey then .ok 0 else .error .unhashable

/-- How strongly a tree binds as an operand. -/
def ofTree (tree : Value) : Except Fault Nat := do
  let kind ← tree.readAttribute "kind"
  if kind.isTextOf "ConditionalExpression" then return choice
  else if kind.isTextOf "BinaryExpression" then ofOperator (← tree.readAttribute "operator")
  else if kind.isTextOf "UnaryExpression" then return unary
  else return atom

end Precedence

/-- Whether a sign needs a blank before a unary operand, lest the two read as one. -/
def isSign (operator : Value) : Except Fault Bool :=
  match operator with
  | .text symbol => .ok (Text.occursIn symbol.toList ['+', '-'])
  | _ => .error .notAText

/-- The name of a kind. Kinds that are not texts have no rule of their own, but they must be
keys. -/
def kindName (kind : Value) : Except Fault String :=
  match kind with
  | .text s => .ok s
  | kind => if kind.isKey then .ok "" else .error .unhashable

/-- Texts with commas between them. -/
def joinTexts (texts : List Value) : Except Fault String := do
  let texts ← texts.mapM fun
    | .text s => .ok s
    | _ => .error .notAText
  return ", ".intercalate texts

namespace Value

/-- The matched text of a tree, or else what diagnostics show of it. -/
def rawOrDisplay (tree : Value) : Except Fault Value := do
  match ← tree.readAttribute "raw" with
  | .null => return .text tree.display
  | raw => return raw

/-- A literal as it was written, or else its value. -/
def printLiteral (tree : Value) : Except Fault Value := do
  match ← tree.readAttribute "raw" with
  | .null => return .text (← tree.readAttribute "value").print
  | raw => return raw

mutual

def printTree (tree : Value) : Except Fault Value := do
  match ← kindName (← tree.readAttribute "kind") with
  | "ConditionalExpression" =>
    let ⟨test, _⟩ ← tree.part "test"
    let testText ← printOperand test (Precedence.choice + 1)
    let ⟨consequent, _⟩ ← tree.part "consequent"
    let consequentText ← printTree consequent
    let ⟨alternate, _⟩ ← tree.part "alternate"
    let alternateText ← printTree alternate
    return .text (testText.displayPlain ++ " ? " ++ consequentText.displayPlain ++ " : "
      ++ alternateText.displayPlain)
  | "BinaryExpression" =>
    let ⟨operator, _⟩ ← tree.part "operator"
    let level ← Precedence.ofOperator operator
    let ⟨left, _⟩ ← tree.part "left"
    let leftText ← printOperand left level
    let ⟨right, _⟩ ← tree.part "right"
    let rightText ← printOperand right (level + 1)
    return .text (leftText.displayPlain ++ " " ++ operator.displayPlain ++ " "
      ++ rightText.displayPlain)
  | "UnaryExpression" =>
    let ⟨argument, _⟩ ← tree.part "argument"
    let argumentText ← printOperand argument Precedence.unary
    let nested ← argument.isOfKind "UnaryExpression"
    let ⟨operator, _⟩ ← tree.part "operator"
    let apart ← if nested then isSign operator else pure false
    return .text (operator.displayPlain ++ (if apart then " " else "") ++ argumentText.displayPlain)
  | "ArrayExpression" =>
    let ⟨elements, _⟩ ← tree.part "elements"
    return .text ("[" ++ (← joinTexts (← printElements elements)) ++ "]")
  | "ObjectExpression" =>
    let ⟨properties, _⟩ ← tree.part "properties"
    if !properties.isSet then return .text "\x7b\x7d"
    else return .text ("\x7b" ++ (← joinTexts (← printParts properties)) ++ "\x7d")
  | "Property" =>
    let ⟨key, _⟩ ← tree.part "key"
    let keyText ← printTree key
    let ⟨value, _⟩ ← tree.part "value"
    let valueText ← printTree value
    return .text (keyText.displayPlain ++ ": " ++ valueText.displayPlain)
  | "Identifier" => tree.readAttribute "name"
  | "Literal" => tree.printLiteral
  | "MemberExpression" =>
    let ⟨owner, _⟩ ← tree.part "object"
    let ownerText ← printOperand owner Precedence.chain
    let ⟨computed, _⟩ ← tree.part "computed"
    let ⟨property, _⟩ ← tree.part "property"
    if computed.isSet then
      let propertyText ← printTree property
      return .text (ownerText.displayPlain ++ "[" ++ propertyText.displayPlain ++ "]")
    else
      let name ← property.readAttribute "name"
      return .text (ownerText.displayPlain ++ "." ++ name.displayPlain)
  | "CallExpression" =>
    let ⟨callee, _⟩ ← tree.part "callee"
    let calleeText ← printOperand callee Precedence.chain
    let ⟨arguments, _⟩ ← tree.part "arguments"
    let argumentText ← joinTexts (← printParts arguments)
    return .text (calleeText.displayPlain ++ "(" ++ argumentText ++ ")")
  | _ => tree.rawOrDisplay
termination_by (sizeOf tree, 0)

/-- An operand, in parentheses if it binds less strongly than `minimum`. -/
def printOperand (tree : Value) (minimum : Nat) : Except Fault Value := do
  let text ← printTree tree
  let level ← Precedence.ofTree tree
  return if level < minimum then .text ("(" ++ text.displayPlain ++ ")") else text
termination_by (sizeOf tree, 1)

def printTrees (trees : List Value) : Except Fault (List Value) :=
  match trees with
  | [] => .ok []
  | tree :: trees => do
    let text ← printTree tree
    let texts ← printTrees trees
    return text :: texts
termination_by (sizeOf trees, 0)

/-- Properties or arguments. Only a list or tuple of them can hold any. -/
def printParts (parts : Value) : Except Fault (List Value) :=
  match parts with
  | .list _ trees | .tuple _ trees => printTrees trees
  | other => do if (← other.iterate).isEmpty then return [] else throw (.noAttribute "kind")
termination_by (sizeOf parts, 0)

/-- Elements with holes. A hole at the end needs one more comma. -/
def printHoles (elements : List Value) : Except Fault (List Value) :=
  match elements with
  | [] => .ok []
  | element :: elements => do
    let text ← if element.isNull then .ok (.text "") else printTree element
    let texts ← printHoles elements
    return text :: (if element.isNull && elements.isEmpty then [.text ""] else texts)
termination_by (sizeOf elements, 0)

/-- The elements of an array. Only a list or tuple of them can hold any. -/
def printElements (elements : Value) : Except Fault (List Value) :=
  match elements with
  | .list _ items | .tuple _ items => printHoles items
  | other => do if (← other.iterate).isEmpty then return [] else throw (.noAttribute "kind")
termination_by (sizeOf elements, 0)

end

/-- A tree as source text, any other value as a literal. -/
def printAny (value : Value) : Except Fault Value :=
  match value with
  | .node .. => value.printTree
  | value => .ok (.text value.print)

end Value

end GatedExpr
