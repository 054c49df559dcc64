import GatedExpr.Closure.Path
import GatedExpr.Proofs.Node

/-! # Places of nodes

Whether a name stands for itself depends on the node above it and on the slot of that node.
-/

namespace GatedExpr.Path

theorem isAt_slot {path : Path} {place kind slot : String}
    (h : Text.cutAt '.' place.toList = (kind.toList, true, slot.toList)) (hne : slot ≠ "") :
    path.isAt place = true ↔
      ∃ above, path.above = some above ∧ above.kind = some kind ∧ path.slot = some slot := by
  have hs : slot.toList.isEmpty = false := by simpa using hne
  simp only [isAt, h, hs, Bool.false_eq_true, if_false, String.ofList_toList]
  cases path.above <;> simp

theorem isAt_key {path : Path} :
    path.isAt "Property.key" = true ↔
      ∃ above, path.above = some above ∧ above.kind = some "Property" ∧ path.slot = some "key" :=
  isAt_slot (by decide) (by decide)

theorem isAt_property {path : Path} :
    path.isAt "MemberExpression.property" = true ↔
      ∃ above, path.above = some above ∧ above.kind = some "MemberExpression" ∧
        path.slot = some "property" :=
  isAt_slot (by decide) (by decide)

/-- A member expression at the path says whether it is computed. -/
def TellsComputed (path : Path) : Prop :=
  path.node.kind = some "MemberExpression" → ∃ computed, path.node.field? "computed" = some computed

theorem isOwnName_root (node : Node) : (root node).isOwnName = .ok false :=
  rfl

theorem isOwnName_down {path : Path} (h : path.TellsComputed) (slot : String) (node : Node) :
    ∃ own, (path.down slot node).isOwnName = .ok own := by
  unfold isOwnName
  split
  · exact ⟨_, rfl⟩
  · split
    · next hprop =>
      obtain ⟨above, ha, hk, _⟩ := isAt_property.mp hprop
      cases ha
      obtain ⟨computed, hc⟩ := h hk
      simp only [down, Node.get_of_field? hc]
      exact ⟨_, rfl⟩
    · exact ⟨_, rfl⟩

end GatedExpr.Path
