import GatedExpr.Value.Basic

/-! # Syntax nodes

Nodes can be built by hand as well as by a grammar, so nothing is assumed about which fields a
kind has. Whatever a node holds is smaller than the node, on which recursion over trees rests.
-/

namespace GatedExpr

namespace Node

/-- A node with fields only. -/
def make (kind : String) (span : Option Span) (fields : List (String × Value)) : Node :=
  { kind := some kind, span, raw := none, children := none, fields }

/-- A matched piece of text that has not been given a kind yet. -/
def token (raw : String) (span : Span) : Node :=
  { kind := none, span := some span, raw := some raw, children := none, fields := [] }

def field? (node : Node) (name : String) : Option Value :=
  node.fields.lookup name

/-- The nodes in a value: itself, or those in a list. -/
def directNodes : Value → List Value
  | .node id node => [.node id node]
  | .list _ items => items.filter (·.node?.isSome)
  | _ => []

/-- The explicit children, or else the nodes among the fields in their order. A node without
children and fields has none, which is not the same as an empty list of them. -/
def parts? (node : Node) : Option (List Value) :=
  match node.children with
  | some children => some children
  | none =>
    if node.fields.isEmpty then none
    else some (node.fields.flatMap fun field => directNodes field.2)

/-- What can be read off a node by name: what every node has, and its fields. Every read of the
span, the explicit children or the table of fields yields the same object. -/
def attribute? (id : Identity) (node : Node) (name : String) : Option Value :=
  match name with
  | "kind" => some (.ofText? node.kind)
  | "range" => some (node.span.elim .null (.span id))
  | "raw" => some (.ofText? node.raw)
  | "children" =>
    match node.children with
    | some children => some (.list id children)
    | none => some (node.parts?.elim .null .ofList)
  | "fields" => some (.map id node.fields)
  | name => node.field? name

end Node

theorem sizeOf_lt_of_lookup {name : String} {value : Value} {fields : List (String × Value)}
    (h : fields.lookup name = some value) : sizeOf value < sizeOf fields := by
  induction fields with
  | nil => simp at h
  | cons head rest ih =>
    obtain ⟨key, found⟩ := head
    rw [List.lookup_cons] at h
    split at h
    · simp only [Option.some.injEq] at h
      subst h
      simp only [List.cons.sizeOf_spec, Prod.mk.sizeOf_spec]
      omega
    · have := ih h
      simp only [List.cons.sizeOf_spec]
      omega

theorem Node.sizeOf_lt_of_field? {node : Node} {name : String} {value : Value}
    (h : node.field? name = some value) : sizeOf value < sizeOf node := by
  have := sizeOf_lt_of_lookup h
  cases node
  simp_all only [Node.mk.sizeOf_spec]
  omega

end GatedExpr
