import GatedExpr.Fault
import GatedExpr.Node.Basic
import GatedExpr.Operator

/-! # Folding runs of operators

A run of operands with infix operators between them becomes a tree by precedence. Operands that
wait for their right neighbour are kept on a stack together with their operators, so there is
always a current operand and nothing is ever taken from an empty stack.
-/

namespace GatedExpr

namespace Value

/-- The span of a value, which must be a node that has one. -/
def matchedSpan : Value → Except Fault Span
  | .node _ found =>
    match found.span with
    | some range => .ok range
    | none => .error (.noAttribute "start")
  | _ => .error (.noAttribute "range")

/-- The span from the start of one node to the end of another. -/
def spanning (first last : Value) : Except Fault Span := do
  return { start := (← first.matchedSpan).start, stop := (← last.matchedSpan).stop }

end Value

namespace Precedence

/-- An operand that waits for its right neighbour, and the operator between the two. -/
structure Pending where
  left : Value
  operator : String

/-- How strongly a pending operator binds. -/
def Pending.level (pending : Pending) : Nat :=
  (precedence? pending.operator).getD 0

def join (pending : Pending) (right : Value) : Except Fault Value := do
  let span ← pending.left.spanning right
  return .ofTree (.make "BinaryExpression" (some span)
    [("operator", .text pending.operator), ("left", pending.left), ("right", right)])

/-- Joins the current operand with pending ones while they bind at least as strongly as
`level`. -/
def collapse (level : Nat) : List Pending → Value → Except Fault (List Pending × Value)
  | [], current => .ok ([], current)
  | pending :: stack, current =>
    if level ≤ pending.level then do collapse level stack (← join pending current)
    else .ok (pending :: stack, current)

def foldFrom : List Pending → Value → List (String × Value) → Except Fault Value
  | stack, current, [] => do return (← collapse 0 stack current).2
  | stack, current, (operator, right) :: rest =>
    match precedence? operator with
    | none => .error (.unbound (.text operator))
    | some level => do
      let (stack, left) ← collapse level stack current
      foldFrom ({ left, operator } :: stack) right rest

/-- The tree of an operand followed by operators with operands. -/
def fold (first : Value) (rest : List (String × Value)) : Except Fault Value :=
  foldFrom [] first rest

end Precedence

end GatedExpr
