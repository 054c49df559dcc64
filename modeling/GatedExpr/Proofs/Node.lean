import GatedExpr.Node.Access

/-! # Reading nodes

What reads of nodes yield, in terms of their kinds and fields.
-/

namespace GatedExpr

theorem Node.get_eq_ok {node : Node} {name : String} {value : Value}
    {smaller : sizeOf value < sizeOf node} :
    node.get name = .ok ⟨value, smaller⟩ ↔ node.field? name = some value := by
  unfold get
  constructor
  · intro h
    split at h
    · next hf =>
      cases h
      exact hf
    · cases h
  · intro h
    split
    · next hf =>
      rw [h] at hf
      cases hf
      rfl
    · next hf =>
      rw [h] at hf
      cases hf

theorem Node.get_of_field? {node : Node} {name : String} {value : Value}
    (h : node.field? name = some value) :
    node.get name = .ok ⟨value, sizeOf_lt_of_field? h⟩ :=
  get_eq_ok.mpr h

theorem Node.kind_of_getD {node : Node} {kind : String} (h : node.kind.getD "" = kind)
    (hne : kind ≠ "") : node.kind = some kind := by
  cases hk : node.kind with
  | none =>
    rw [hk] at h
    exact absurd h.symm hne
  | some held =>
    rw [hk] at h
    exact congrArg some h

namespace Value

@[simp] theorem readAttribute_kind (id : Identity) (node : Node) :
    (Value.node id node).readAttribute "kind" = .ok (.ofText? node.kind) :=
  rfl

theorem ofText?_eq_text {text : Option String} {s : String} :
    ofText? text = .text s ↔ text = some s := by
  cases text <;> simp [ofText?]

theorem isTextOf_iff {value : Value} {s : String} : value.isTextOf s = true ↔ value = .text s := by
  cases value <;> simp [isTextOf]

theorem isOfKind_eq_ok {value : Value} {kind : String} {b : Bool} :
    value.isOfKind kind = .ok b ↔
      ∃ held, value.readAttribute "kind" = .ok held ∧ held.isTextOf kind = b := by
  unfold isOfKind
  cases value.readAttribute "kind" with
  | error fault => simp [bind, Except.bind]
  | ok held => simp [bind, Except.bind, pure, Except.pure]

end Value

end GatedExpr
