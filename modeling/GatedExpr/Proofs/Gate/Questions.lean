import GatedExpr.Closure.Target
import GatedExpr.Proofs.Gate.Permits

/-! # What compiling a tree asks

What a tree asks of a whitelist, in the order in which its nodes are compiled: the property of a
member before its root, and the function of a call before its receiver, which comes before its
arguments. The order follows the tree and the targets of its calls alone, and so it says what would
be asked had everything before been allowed.
-/

namespace GatedExpr

/-- Something that a whitelist is asked for, with the node that asks. -/
inductive Question where
  /-- The object of that name, to root a member chain. -/
  | root (name : Value) (node : Option Node)
  /-- The function with that signature. -/
  | call (signature : Value) (node : Node)
  /-- A call that is called in no way in which functions are. -/
  | shape (shape : String) (node : Node)

namespace Question

/-- The warning that a refusal leaves. -/
def warning : Question → Warning
  | .root name _ => .objectRoot name
  | .call signature _ => .call signature
  | .shape text _ => .callShape text

/-- What compiling fails with on a refusal. -/
def failure : Question → Failure
  | .root name node => { fault := .unauthorizedIdentifier name, node }
  | .call signature node => { fault := .unauthorizedCall signature, node := some node }
  | .shape text node => { fault := .unauthorizedCall (.text text), node := some node }

end Question

namespace Whitelist

/-- Only texts name objects and functions, and no other shapes of calls are allowed. -/
def Allows (whitelist : Whitelist) : Question → Prop
  | .root name _ => ∃ s, name = .text s ∧ whitelist.AllowsObject s
  | .call signature _ => ∃ s, signature = .text s ∧ whitelist.AllowsCall s
  | .shape .. => False

mutual

/-- What compiling a node asks, in order. -/
def questions (whitelist : Whitelist) (node : Node) : List Question :=
  match node.kind.getD "" with
  | "ConditionalExpression" =>
    slotQuestions whitelist node "test" ++
      (slotQuestions whitelist node "consequent" ++ slotQuestions whitelist node "alternate")
  | "BinaryExpression" =>
    slotQuestions whitelist node "left" ++ slotQuestions whitelist node "right"
  | "UnaryExpression" => slotQuestions whitelist node "argument"
  | "ArrayExpression" => slotQuestions whitelist node "elements"
  | "ObjectExpression" => slotQuestions whitelist node "properties"
  | "Property" => slotQuestions whitelist node "key" ++ slotQuestions whitelist node "value"
  | "MemberExpression" =>
    slotQuestions whitelist node "property" ++
      match _h : node.field? "object" with
      | some object => rootQuestions whitelist object
      | none => []
  | "CallExpression" =>
    match CallTarget.of whitelist node with
    | .ok (.refused shape) => [.shape shape node]
    | .ok (.function signature) =>
      .call signature node :: slotQuestions whitelist node "arguments"
    | .ok (.method signature receiver _) =>
      .call (.text signature) node ::
        (rootQuestions whitelist receiver ++ slotQuestions whitelist node "arguments")
    | .error _ => []
  | _ => []
termination_by (sizeOf node, 1)
decreasing_by
  all_goals first
    | exact .right _ (by omega)
    | exact .left _ _ (Node.sizeOf_lt_of_field? ‹_›)
    | exact .left _ _ ‹_›

/-- What compiling the part or the parts in a slot asks. -/
def slotQuestions (whitelist : Whitelist) (node : Node) (slot : String) : List Question :=
  match _h : node.field? slot with
  | some part => partQuestions whitelist part
  | none => []
termination_by (sizeOf node, 0)
decreasing_by exact .left _ _ (Node.sizeOf_lt_of_field? ‹_›)

/-- What compiling what stands before a dot or bracket asks. -/
def rootQuestions (whitelist : Whitelist) (target : Value) : List Question :=
  match target.isOfKind "Identifier", target.readAttribute "name" with
  | .ok true, .ok name => [.root name target.node?]
  | .ok true, .error _ => []
  | _, _ => partQuestions whitelist target
termination_by (sizeOf target, 2)

/-- What compiling a part asks, or the parts in a list. -/
def partQuestions (whitelist : Whitelist) (part : Value) : List Question :=
  match part with
  | .node _ node => questions whitelist node
  | .list _ items | .tuple _ items => eachQuestions whitelist items
  | _ => []
termination_by (sizeOf part, 1)

/-- Holes and whatever else is no node ask nothing. -/
def eachQuestions (whitelist : Whitelist) (parts : List Value) : List Question :=
  match parts with
  | [] => []
  | part :: parts => partQuestions whitelist part ++ eachQuestions whitelist parts
termination_by (sizeOf parts, 0)

end

end Whitelist

end GatedExpr
