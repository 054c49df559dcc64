import GatedExpr.Value.Basic

/-! # Identity

Whether two values are one and the same object, and how new values come by their identities.
-/

namespace GatedExpr

/-- Integers that are the same object wherever they come from. -/
def Number.isSmall : Number → Bool
  | .int n => -5 ≤ n && n ≤ 256
  | .float _ => false

namespace Value

/-- Whether two values are the same number object. -/
def isSameNumber : Value → Value → Bool
  | .number i m, .number j n => (i == j || m.isSmall) && m == n
  | _, _ => false

/-- Whether two values are the same object. There is only one empty tuple. -/
def isSame : Value → Value → Bool
  | .null, .null => true
  | .bool a, .bool b => a == b
  | .number i m, .number j n => isSameNumber (.number i m) (.number j n)
  | .text s, .text t => s == t
  | .list i _, .list j _ => i == j
  | .tuple i xs, .tuple j ys => xs.isEmpty == ys.isEmpty && (i == j || xs.isEmpty)
  | .map i _, .map j _ => i == j
  | .object i _, .object j _ => i == j
  | .function i _, .function j _ => i == j
  | .method i _ _, .method j _ _ => i == j
  | .node i _, .node j _ => i == j
  | .span i _, .span j _ => i == j
  | .absent, .absent => true
  | _, _ => false

/-- An identity that has not been handed out before. -/
def freshId : StateM Identity Identity :=
  modifyGet fun next => (next, next + 1)

mutual

/-- Gives a value an identity unless it has one, and so for whatever it holds. -/
def adopt : Value → StateM Identity Value
  | .number 0 n => do return .number (← freshId) n
  | .list 0 items => do
    let items ← adoptEach items
    return .list (← freshId) items
  | .tuple 0 items => do
    let items ← adoptEach items
    return .tuple (← freshId) items
  | .map 0 entries => do
    let entries ← adoptEntries entries
    return .map (← freshId) entries
  | .object 0 attributes => do
    let attributes ← adoptEntries attributes
    return .object (← freshId) attributes
  | .function 0 name => do return .function (← freshId) name
  | .method 0 receiver name => do return .method (← freshId) receiver name
  | .node 0 tree => do
    let tree ← adoptNode tree
    return .node (← freshId) tree
  | .span 0 range => do return .span (← freshId) range
  | value => pure value

def adoptEach : List Value → StateM Identity (List Value)
  | [] => pure []
  | item :: items => do
    let item ← adopt item
    return item :: (← adoptEach items)

def adoptEntries : List (String × Value) → StateM Identity (List (String × Value))
  | [] => pure []
  | (name, value) :: entries => do
    let value ← adopt value
    return (name, value) :: (← adoptEntries entries)

def adoptNode : Node → StateM Identity Node
  | ⟨kind, range, raw, children, fields⟩ => do
    let children ← adoptChildren children
    return ⟨kind, range, raw, children, ← adoptEntries fields⟩

def adoptChildren : Option (List Value) → StateM Identity (Option (List Value))
  | none => pure none
  | some items => do return some (← adoptEach items)

end

end Value

end GatedExpr
