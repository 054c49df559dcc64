import GatedExpr.Value.Identity

/-! # Equality of contents

Two values have equal contents when they hold the same, whatever their identities are: numbers
and truth values are compared by size. Nodes agree on kind, matched text, children and fields;
their spans play no part, and neither does the order of the fields. Within lists, maps and nodes
the same object counts as equal even if it is not-a-number.
-/

namespace GatedExpr

mutual

/-- Whether two values have equal contents. -/
def Value.hasContentOf : Value → Value → Bool
  | .null, .null => true
  | .bool a, w => (Value.bool a).number?.any fun m => w.number?.any (m.equals ·)
  | .number _ m, w => w.number?.any (m.equals ·)
  | .text s, .text t => s == t
  | .list _ xs, .list _ ys => Value.haveContentsOf xs ys
  | .tuple _ xs, .tuple _ ys => Value.haveContentsOf xs ys
  | .map _ xs, .map _ ys => xs.length == ys.length && Value.entriesHaveContentsOf xs ys
  | .object i _, .object j _ => i == j
  | .function i _, .function j _ => i == j
  | .method _ receiver name, .method _ other otherName =>
    name == otherName && receiver.isSame other
  | .node _ tree, .node _ other => Node.equals tree other
  | .span _ range, .span _ other => range == other
  | .absent, .absent => true
  | _, _ => false

def Value.haveContentsOf : List Value → List Value → Bool
  | [], [] => true
  | x :: xs, y :: ys => (x.isSameNumber y || Value.hasContentOf x y) && Value.haveContentsOf xs ys
  | _, _ => false

def Value.entriesHaveContentsOf : List (String × Value) → List (String × Value) → Bool
  | [], _ => true
  | (key, x) :: xs, ys =>
    (ys.lookup key).any (fun y => x.isSameNumber y || Value.hasContentOf x y)
      && Value.entriesHaveContentsOf xs ys

def Value.childrenHaveContentsOf : Option (List Value) → Option (List Value) → Bool
  | none, none => true
  | some xs, some ys => Value.haveContentsOf xs ys
  | _, _ => false

def Node.equals : Node → Node → Bool
  | ⟨kind, _, raw, children, fields⟩, other =>
    kind == other.kind && raw == other.raw
      && Value.childrenHaveContentsOf children other.children
      && fields.length == other.fields.length && Value.entriesHaveContentsOf fields other.fields

end

/-- Whether a value occurs among others. -/
def Value.isAmong (value : Value) (values : List Value) : Bool :=
  values.any fun other => value.isSameNumber other || value.hasContentOf other

end GatedExpr
