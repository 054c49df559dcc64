import GatedExpr.Proofs.Expr.Basic

/-! # Expressions within trees

Which nodes of a tree stand for expressions: all but properties, their keys, and the names of
members that are not computed.
-/

namespace GatedExpr

namespace Value

/-- The fields of a node that hold no expression: the key of a property, and the name of a member
that is not computed. -/
def labels (kind : Option String) (fields : List (String × Value)) : List String :=
  match kind, fields.lookup "computed" with
  | some "Property", _ => ["key"]
  | some "MemberExpression", some (.bool true) => []
  | some "MemberExpression", _ => ["property"]
  | _, _ => []

mutual

/-- The nodes in a value that stand for expressions. -/
def expressions : Value → List Value
  | .node id ⟨kind, range, raw, children, fields⟩ =>
    (if kind = some "Property" then [] else [.node id ⟨kind, range, raw, children, fields⟩]) ++
      fieldExpressions (labels kind fields) fields
  | .list _ items => itemExpressions items
  | _ => []

def itemExpressions : List Value → List Value
  | [] => []
  | v :: items => expressions v ++ itemExpressions items

/-- Those in the fields that are not among the labels. -/
def fieldExpressions (labels : List String) : List (String × Value) → List Value
  | [] => []
  | (name, v) :: fields =>
    (if name ∈ labels then [] else expressions v) ++ fieldExpressions labels fields

end

variable {span : Span} {kind : String} {fields : List (String × Value)} {v w : Value}

theorem itemExpressions_eq (items : List Value) :
    itemExpressions items = items.flatMap expressions := by
  induction items with
  | nil => rfl
  | cons v items ih => rw [itemExpressions, ih, List.flatMap_cons]

theorem fieldExpressions_nil (fields : List (String × Value)) :
    fieldExpressions [] fields = fields.flatMap (·.2.expressions) := by
  induction fields with
  | nil => rfl
  | cons field fields ih =>
    rw [fieldExpressions, if_neg List.not_mem_nil, ih, List.flatMap_cons]

@[simp] theorem expressions_ofList (items : List Value) :
    (ofList items).expressions = items.flatMap expressions := by
  rw [ofList, expressions, itemExpressions_eq]

@[simp] theorem expressions_text (s : String) : (text s).expressions = [] := by
  rw [expressions]
  all_goals nofun

theorem expressions_branch (kind : String) (fields : List (String × Value)) :
    (branch kind span fields).expressions =
      (if kind = "Property" then [] else [branch kind span fields]) ++
        fieldExpressions (labels (some kind) fields) fields := by
  rw [branch, ofTree, Node.make, expressions]
  simp only [Option.some.injEq]

theorem mem_expressions_self {id : Identity} {node : Node} (h : node.kind ≠ some "Property") :
    Value.node id node ∈ (Value.node id node).expressions := by
  obtain ⟨kind, range, raw, children, fields⟩ := node
  rw [expressions, if_neg h]
  exact List.mem_append_left _ (List.mem_singleton_self _)

/-- A node in which nothing is hidden. -/
theorem expressions_of_not_mem (h : kind ∉ ["Property", "MemberExpression"]) :
    (branch kind span fields).expressions =
      branch kind span fields :: fields.flatMap (·.2.expressions) := by
  simp only [List.mem_cons, List.not_mem_nil, or_false, not_or] at h
  have hlabels : labels (some kind) fields = [] := by
    unfold labels
    split <;> simp_all
  rw [expressions_branch, if_neg h.1, hlabels, fieldExpressions_nil]
  rfl

theorem expressions_property :
    (branch "Property" span [("key", v), ("value", w)]).expressions = w.expressions := by
  simp [expressions_branch, labels, fieldExpressions]

theorem expressions_member (computed : Bool) :
    (branch "MemberExpression" span
      [("object", v), ("property", w), ("computed", .bool computed)]).expressions =
      branch "MemberExpression" span
        [("object", v), ("property", w), ("computed", .bool computed)] ::
          (v.expressions ++ if computed then w.expressions else []) := by
  have hbool : (bool computed).expressions = [] := rfl
  cases computed <;>
    simp [expressions_branch, labels, fieldExpressions, List.lookup_cons, hbool]

end Value

/-- A tree that shows an expression is one of those in it. -/
theorem Depicts.mem_expressions {v : Value} {e : Expr} (h : Depicts .value v e) :
    v ∈ v.expressions := by
  cases h <;> exact Value.mem_expressions_self (fun hk => absurd (Option.some.inj hk) (by decide))

end GatedExpr
