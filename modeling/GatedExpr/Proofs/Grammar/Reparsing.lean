import GatedExpr.Proofs.Expr.Content
import GatedExpr.Proofs.Expr.Printed
import GatedExpr.Proofs.Grammar.Accepting
import GatedExpr.Proofs.Grammar.Apart
import GatedExpr.Proofs.Grammar.Legible

/-! # Printing and parsing again

The text that an accepted source is printed as is accepted again and has a tree of equal contents,
except where a member is read by name off an integer: such an integer is printed without the
parentheses it had, and the point is taken for a part of it.
-/

namespace GatedExpr

namespace Family

open ExpressionGrammar

/-- The text of a readable expression has a tree that shows the expression. -/
theorem parse_text {e : Expr} (h : Expr.Readable .value e) (hdeep : ¬ NestsTooDeeply e.text) :
    ∃ tree, expression.parse 0 e.text Grammar.rootKind = .ok tree ∧ Depicts .value tree e := by
  obtain ⟨⟨v, hd⟩, hdots⟩ := h
  obtain ⟨n, texts, hw, hs⟩ := (Expr.legible_of_depicts hd hdots).item
  exact parse_of_written_of_not_nestsTooDeeply hw hs hdeep

/-- If the text of an expression has a tree that shows it, no point in it follows an integer. -/
theorem dotsInteger_of_parse {e : Expr} {tree : Value}
    (h : expression.parse 0 e.text Grammar.rootKind = .ok tree) (hd : Depicts .value tree e) :
    e.dotsInteger = false := by
  obtain ⟨f, place, hf, hw, hl, hr⟩ := written_of_parse h
  cases hd.unique hf
  have ht := Fills.threads ⟨place.rest, hl.spread, hr⟩
  rw [hw.solids_eq, Construct.leaves, ← List.append_nil e.leaves] at ht
  exact (hd.peels .nil ((List.append_nil e.text).symm ▸ ht)).1

/-- An accepted source is printed as a text that has a tree of equal contents, exactly if nowhere
in its tree a member is read by name off an integer. -/
theorem reparses_iff {source : List Char} {tree : Value}
    (h : expression.parse 0 source Grammar.rootKind = .ok tree) :
    ∃ e text, Depicts .value tree e ∧ tree.printAny = .ok (.text text) ∧
      (¬ NestsTooDeeply text.toList →
        ((∃ again, expression.parse 0 text.toList Grammar.rootKind = .ok again ∧
          tree.hasContentOf again = true) ↔ e.dotsInteger = false)) := by
  obtain ⟨e, hd⟩ := depicts_of_parse h
  refine ⟨e, _, hd, hd.printAny_eq, fun hdeep => ?_⟩
  rw [String.toList_ofList] at hdeep ⊢
  constructor
  · rintro ⟨again, hagain, hsame⟩
    obtain ⟨f, hf⟩ := depicts_of_parse hagain
    cases (hd.hasContentOf_iff hf).mp hsame
    exact dotsInteger_of_parse hagain hf
  · intro hdots
    obtain ⟨again, hagain, hf⟩ := parse_text ⟨⟨tree, hd⟩, hdots⟩ hdeep
    exact ⟨again, hagain, (hd.hasContentOf_iff hf).mpr rfl⟩

/-- A member of a number that needs its parentheses. -/
theorem reparses_iff_member : ∃ tree e text,
    expression.parse 0 "(1).x".toList Grammar.rootKind = .ok tree ∧ Depicts .value tree e ∧
      tree.printAny = .ok (.text text) ∧
      (¬ NestsTooDeeply text.toList →
        ((∃ again, expression.parse 0 text.toList Grammar.rootKind = .ok again ∧
          tree.hasContentOf again = true) ↔ e.dotsInteger = false)) := by
  obtain ⟨tree, h⟩ : ∃ tree, expression.parse 0 "(1).x".toList Grammar.rootKind = .ok tree :=
    exists_tree_of_isOk (by decide +kernel)
  obtain ⟨e, text, hall⟩ := reparses_iff h
  exact ⟨tree, e, text, h, hall⟩

/-- What that member is printed as is not accepted. -/
example : (expression.parse 0 "1.x".toList Grammar.rootKind).isOk = false := by
  decide +kernel

end Family

end GatedExpr
