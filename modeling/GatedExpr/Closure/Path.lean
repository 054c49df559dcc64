import GatedExpr.Node.Access
import GatedExpr.Number.Numeral
import GatedExpr.Text.Search

/-! # Paths

A path is a node together with its place: the node above it and the slot of that node in which
it sits. What an identifier means depends on its place.
-/

namespace GatedExpr

structure Path where
  node : Node
  above : Option Node
  slot : Option String

namespace Path

/-- A node with nothing above it. -/
def root (node : Node) : Path :=
  { node, above := none, slot := none }

/-- A node in a slot of the node at `path`. -/
def down (path : Path) (slot : String) (node : Node) : Path :=
  { node, above := some path.node, slot := some slot }

@[simp]
theorem node_root (node : Node) : (root node).node = node :=
  rfl

@[simp]
theorem node_down (path : Path) (slot : String) (node : Node) : (path.down slot node).node = node :=
  rfl

/-- Whether the node is of kind `place`, or sits in the slot of a kind given as `Kind.slot`. -/
def isAt (path : Path) (place : String) : Bool :=
  let (kind, _, slot) := Text.cutAt '.' place.toList
  let kind := String.ofList kind
  if slot.isEmpty then path.node.kind == some kind
  else
    match path.above with
    | none => false
    | some above => above.kind == some kind && path.slot == some (String.ofList slot)

/-- A path in diagnostics. -/
def display (path : Path) : String :=
  let kind := path.node.kind.getD "None"
  let above := (path.above.bind (·.kind)).getD "None"
  let slot := path.slot.getD "None"
  s!"<Path {kind} in {above}.{slot}>"

/-- An item of a value by its place. Negative places count from the end. -/
def itemAt (value : Value) (place : Int) : Except Fault Value :=
  match value with
  | .map .. => .error (.unbound (.int place))
  | .list .. | .tuple .. | .text _ => do
    let items ← value.iterate
    let offset := if place < 0 then place + items.length else place
    match if offset < 0 then none else items[offset.toNat]? with
    | some item => return item
    | none => throw .placeOutOfRange
  | _ => .error .notIterable

/-- The path of a part that is given as `slot`, or as `slot.place` if the slot holds several. -/
def step (path : Path) (place : List Char) : Except Fault Path := do
  let (slot, _, digits) := Text.cutAt '.' place
  let slot := String.ofList slot
  let held ← (Value.ofTree path.node).readAttribute slot
  let part ←
    if digits.isEmpty then pure held
    else
      match Numeral.integer? digits with
      | some place => itemAt held place
      | none => throw .notANumeral
  let _ ← part.readAttribute "kind"
  return path.down slot (← part.asNode).1

/-- Whether the node is a name that stands for itself: the key of a property, or a property
name after a dot. -/
def isOwnName (path : Path) : Except Fault Bool :=
  if path.isAt "Property.key" then .ok true
  else if path.isAt "MemberExpression.property" then
    match path.above with
    | some above => do return !(← above.get "computed").1.isSet
    | none => .ok false
  else .ok false

end Path

end GatedExpr
