import GatedExpr.Gate.Basic

/-! # Call targets

What a call calls is read off the shape of its callee: a name, a method of a custom object, or a
method of whatever value stands before the dot. Other shapes are refused.
-/

namespace GatedExpr

/-- What the callee of `call` asks for. A receiver is smaller than the call, on which recursion
over calls rests. -/
inductive CallTarget (call : Node) where
  /-- The function with exactly that signature. -/
  | function (signature : Value)
  /-- The method that takes the value of `receiver` as its first argument. -/
  | method (signature : String) (receiver : Value) (smaller : sizeOf receiver < sizeOf call)
  | refused (shape : String)

namespace CallTarget

/-- The target of a call whose callee is a member read by name. -/
def ofMember (whitelist : Whitelist) (call : Node) (callee : Value)
    (smaller : sizeOf callee < sizeOf call) : Except Fault (CallTarget call) := do
  let ⟨property, _⟩ ← callee.part "property"
  let method := (← property.readAttribute "name").displayPlain
  let ⟨receiver, _⟩ ← callee.part "object"
  if ← receiver.isOfKind "Identifier" then
    let name ← receiver.readAttribute "name"
    if ← whitelist.isCustom name then return .function (.text s!"{name.displayPlain}.{method}")
  return .method s!"*.{method}" receiver (by omega)

/-- The target of a call. -/
def of (whitelist : Whitelist) (call : Node) : Except Fault (CallTarget call) := do
  let ⟨callee, _⟩ ← call.get "callee"
  let kind ← callee.readAttribute "kind"
  if kind.isTextOf "Identifier" then return .function (← callee.readAttribute "name")
  if kind.isTextOf "MemberExpression" then
    if (← callee.readAttribute "computed").isSet then return .refused "<computed>"
    else ofMember whitelist call callee (by omega)
  else return .refused s!"<{kind.displayPlain}>"

end CallTarget

end GatedExpr
