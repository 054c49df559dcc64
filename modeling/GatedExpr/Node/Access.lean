import GatedExpr.Value.Member

/-! # Reading nodes

Nodes may lack fields, and fields may hold anything, so every read can fail. A host object with
the right attributes can stand where only attributes are read. Reads of parts come with the fact
that what they yield is smaller, on which recursion over trees rests.
-/

namespace GatedExpr

/-- A field that a node of its kind should have. -/
def Node.get (node : Node) (name : String) :
    Except Fault { part : Value // sizeOf part < sizeOf node } :=
  match h : node.field? name with
  | some part => .ok ⟨part, sizeOf_lt_of_field? h⟩
  | none => .error (.missingField node.kind name)

namespace Value

/-- An attribute that a value should have. -/
def readAttribute (value : Value) (name : String) : Except Fault Value :=
  match value.attribute? name, value with
  | some found, _ => .ok found
  | none, .node _ tree => .error (.missingField tree.kind name)
  | none, _ => .error (.noAttribute name)

theorem sizeOf_lt_node (id : Identity) (tree : Node) : sizeOf tree < sizeOf (node id tree) := by
  rw [node.sizeOf_spec]
  omega

theorem sizeOf_lt_object (id : Identity) (attributes : List (String × Value)) :
    sizeOf attributes < sizeOf (object id attributes) := by
  rw [object.sizeOf_spec]
  omega

/-- The field of a node, or the attribute of a host object in its place. -/
def part (value : Value) (name : String) :
    Except Fault { part : Value // sizeOf part < sizeOf value } :=
  match value with
  | .node _ tree => do
    let ⟨found, smaller⟩ ← tree.get name
    return ⟨found, Nat.lt_trans smaller (sizeOf_lt_node _ tree)⟩
  | .object _ attributes =>
    match h : attributes.lookup name with
    | some found =>
      .ok ⟨found, Nat.lt_trans (sizeOf_lt_of_lookup h) (sizeOf_lt_object _ attributes)⟩
    | none => .error (.noAttribute name)
  | _ => .error (.noAttribute name)

/-- Whether a value is a certain text. -/
def isTextOf (value : Value) (s : String) : Bool :=
  match value with
  | .text t => t == s
  | _ => false

/-- Whether the kind of a value that should be a node is the given one. -/
def isOfKind (value : Value) (kind : String) : Except Fault Bool := do
  return (← value.readAttribute "kind").isTextOf kind

/-- A value as the node that it must be. -/
def asNode (value : Value) : Except Fault { node : Node // sizeOf node < sizeOf value } :=
  match value with
  | .node _ tree => .ok ⟨tree, sizeOf_lt_node _ tree⟩
  | other => .error (.notANode other.typeName)

end Value

end GatedExpr
