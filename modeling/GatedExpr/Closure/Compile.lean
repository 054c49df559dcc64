import GatedExpr.Closure.Basic
import GatedExpr.Closure.Path
import GatedExpr.Closure.Target

/-! # Compilation

A tree is compiled to a closure from the root down, one kind of node at a time. Names that root a
member chain and functions that are called are looked up in the whitelist here and never again.
Nodes may have been built by hand, so every field may be missing or hold something else.
-/

namespace GatedExpr

/-- An operator of an expression: texts without meaning and other keys are unknown. -/
def operatorOf {α : Type} (ofSymbol? : String → Option α) (operator : Value) :
    Except Fault (Option α) :=
  match operator with
  | .text symbol => .ok (ofSymbol? symbol)
  | operator => if operator.isKey then .ok none else .error .unhashable

namespace Whitelist

mutual

/-- Compiles the node at a path. -/
def compile (whitelist : Whitelist) (path : Path) : Gate Closure := do
  let node := path.node
  match path.node.kind.getD "" with
  | "ConditionalExpression" =>
    let ⟨test, _⟩ ← Gate.ofExcept (path.node.get "test")
    let testClosure ← compilePart whitelist path "test" test
    let ⟨consequent, _⟩ ← Gate.ofExcept (path.node.get "consequent")
    let consequentClosure ← compilePart whitelist path "consequent" consequent
    let ⟨alternate, _⟩ ← Gate.ofExcept (path.node.get "alternate")
    let alternateClosure ← compilePart whitelist path "alternate" alternate
    return Closure.choice testClosure consequentClosure alternateClosure
  | "BinaryExpression" =>
    let ⟨operator, _⟩ ← Gate.ofExcept (path.node.get "operator")
    let logical? ← Gate.ofExcept (operatorOf LogicalOperator.ofSymbol? operator)
    let binary? ← Gate.ofExcept (operatorOf BinaryOperator.ofSymbol? operator)
    if logical?.isNone && binary?.isNone then
      Gate.failAt (some node) (.unknownOperator operator)
    let ⟨left, _⟩ ← Gate.ofExcept (path.node.get "left")
    let leftClosure ← compilePart whitelist path "left" left
    let ⟨right, _⟩ ← Gate.ofExcept (path.node.get "right")
    let rightClosure ← compilePart whitelist path "right" right
    match logical?, binary? with
    | some operator, _ => return Closure.logical operator leftClosure rightClosure
    | none, some operator => return Closure.binary operator leftClosure rightClosure
    | none, none => Gate.failAt (some node) (.unknownOperator operator)
  | "UnaryExpression" =>
    let ⟨operator, _⟩ ← Gate.ofExcept (path.node.get "operator")
    match ← Gate.ofExcept (operatorOf UnaryOperator.ofSymbol? operator) with
    | none => Gate.failAt (some node) (.unknownOperator operator)
    | some operator =>
      let ⟨argument, _⟩ ← Gate.ofExcept (path.node.get "argument")
      let argumentClosure ← compilePart whitelist path "argument" argument
      return Closure.unary operator argumentClosure
  | "ArrayExpression" =>
    let ⟨elements, _⟩ ← Gate.ofExcept (path.node.get "elements")
    return Closure.array (← compileElements whitelist path elements)
  | "ObjectExpression" =>
    let ⟨properties, _⟩ ← Gate.ofExcept (path.node.get "properties")
    return Closure.object (← compileParts whitelist path "properties" properties)
  | "Property" =>
    let ⟨key, _⟩ ← Gate.ofExcept (path.node.get "key")
    let keyClosure ← compilePart whitelist path "key" key
    let ⟨value, _⟩ ← Gate.ofExcept (path.node.get "value")
    let valueClosure ← compilePart whitelist path "value" value
    return Closure.property keyClosure valueClosure
  | "Identifier" =>
    let ⟨name, _⟩ ← Gate.ofExcept (path.node.get "name")
    if ← Gate.ofExcept path.isOwnName then return Closure.constant name
    else return Closure.lookup node name
  | "Literal" =>
    let ⟨value, _⟩ ← Gate.ofExcept (path.node.get "value")
    return Closure.constant value
  | "MemberExpression" =>
    let ⟨property, _⟩ ← Gate.ofExcept (path.node.get "property")
    let keyClosure ← compilePart whitelist path "property" property
    let ⟨object, _⟩ ← Gate.ofExcept (path.node.get "object")
    let targetClosure ← compileRoot whitelist path "object" object
    return Closure.member node targetClosure keyClosure
  | "CallExpression" =>
    match ← Gate.ofExcept (CallTarget.of whitelist path.node) with
    | .refused shape =>
      Gate.warn (.callShape shape)
      Gate.failAt (some node) (.unauthorizedCall (.text shape))
    | .function signature =>
      let function ← whitelist.callee signature node
      let ⟨arguments, _⟩ ← Gate.ofExcept (path.node.get "arguments")
      let argumentClosures ← compileParts whitelist path "arguments" arguments
      return Closure.call node function none argumentClosures
    | .method signature receiver _ =>
      let function ← whitelist.callee (.text signature) node
      let receiverClosure ← compileRoot whitelist path "callee.object" receiver
      let ⟨arguments, _⟩ ← Gate.ofExcept (path.node.get "arguments")
      let argumentClosures ← compileParts whitelist path "arguments" arguments
      return Closure.call node function (some receiverClosure) argumentClosures
  | _ => Gate.failAt (some node) (.noCompiler node.kind)
termination_by (sizeOf path.node, 0)

/-- Compiles what stands before a dot or bracket. A bare name must be an allowed object there. -/
def compileRoot (whitelist : Whitelist) (path : Path) (slot : String) (target : Value) :
    Gate Closure := do
  if ← Gate.ofExcept (target.isOfKind "Identifier") then
    whitelist.objectRoot (← Gate.ofExcept (target.readAttribute "name")) target.node?
  else compilePart whitelist path slot target
termination_by (sizeOf target, 1)

/-- Compiles a part that must be a node. -/
def compilePart (whitelist : Whitelist) (path : Path) (slot : String) (part : Value) :
    Gate Closure :=
  match part with
  | .node _ node => compile whitelist (path.down slot node)
  | other => Gate.fail (.notANode other.typeName)
termination_by (sizeOf part, 0)

def compileEach (whitelist : Whitelist) (path : Path) (slot : String) (parts : List Value) :
    Gate (List Closure) :=
  match parts with
  | [] => pure []
  | part :: parts => do
    let closure ← compilePart whitelist path slot part
    let closures ← compileEach whitelist path slot parts
    return closure :: closures
termination_by (sizeOf parts, 0)

/-- Compiles properties or arguments. Only a list or tuple of them can hold any. -/
def compileParts (whitelist : Whitelist) (path : Path) (slot : String) (parts : Value) :
    Gate (List Closure) :=
  match parts with
  | .list _ items | .tuple _ items => compileEach whitelist path slot items
  | other => do
    match ← Gate.ofExcept other.iterate with
    | [] => return []
    | item :: _ => Gate.fail (.notANode item.typeName)
termination_by (sizeOf parts, 0)

/-- Compiles elements with holes, which are null. -/
def compileHoles (whitelist : Whitelist) (path : Path) (elements : List Value) :
    Gate (List Closure) :=
  match elements with
  | [] => pure []
  | element :: elements => do
    let closure ←
      if element.isNull then pure (Closure.constant .null)
      else compilePart whitelist path "elements" element
    let closures ← compileHoles whitelist path elements
    return closure :: closures
termination_by (sizeOf elements, 0)

/-- Compiles the elements of an array. Only a list or tuple of them can hold any. -/
def compileElements (whitelist : Whitelist) (path : Path) (elements : Value) :
    Gate (List Closure) :=
  match elements with
  | .list _ items | .tuple _ items => compileHoles whitelist path items
  | other => do
    match ← Gate.ofExcept other.iterate with
    | [] => return []
    | item :: _ => Gate.fail (.notANode item.typeName)
termination_by (sizeOf elements, 0)

end

/-- Compiles a whole tree. -/
def compileTree (whitelist : Whitelist) (tree : Value) : Gate Closure := do
  let _ ← Gate.ofExcept (tree.readAttribute "kind")
  let ⟨node, _⟩ ← Gate.ofExcept tree.asNode
  whitelist.compile (.root node)

end Whitelist

end GatedExpr
