import GatedExpr.Proofs.Grammar.References
import GatedExpr.Proofs.Grammar.Parsing
import GatedExpr.Proofs.Grammar.Recognition

/-! # What is accepted

A source is accepted if it is filled with texts that write an expression at the depth to which a
parse follows references. If they write it at a greater depth only, the parse may give up.
-/

namespace GatedExpr

namespace Family

open ExpressionGrammar

variable {source : List Char} {tree : Value} {e : Expr} {texts : List String} {depth : Nat}

/-- Texts that write an expression at some depth are read by a run of that depth. -/
theorem run_of_written (hw : Written depth (.item .value e) texts) (hs : Fills texts source) :
    ∃ tree cursor, (named "Expression").run (followExpression depth) (.start source 0) =
      (.matched tree, cursor) ∧ (skipBlanks cursor).atEnd = true ∧ Depicts .value tree e := by
  obtain ⟨rest, hs, hr⟩ := hs
  rw [Blanks, ← List.dropWhile_eq_nil_iff] at hr
  have hfollows : Token.Follows (Construct.item .value e).followers rest := by
    intro c hc
    rw [Token.next, hr] at hc
    cases hc
  have hstart : (Cursor.start source 0).Before source source :=
    ⟨Cursor.inSource_start source, rfl, rfl⟩
  obtain ⟨tree, last, hrun, hl, hd⟩ := Matcher.recognizes_of_written hw hs hfollows hstart
  obtain ⟨hlast, hrest⟩ := rest_skipBlanks hl.inSource
  have hend : (skipBlanks last).atEnd = true := by
    rw [atEnd_iff hlast, hrest, hl.rest_eq_left, hr]
  exact ⟨tree, last, hrun, hend, hd⟩

/-- Texts that write an expression at the depth of a parse are accepted wherever they stand. -/
theorem parse_of_written (hw : Written (nestingLimit + 1) (.item .value e) texts)
    (hs : Fills texts source) :
    ∃ tree, expression.parse 0 source Grammar.rootKind = .ok tree ∧ Depicts .value tree e := by
  obtain ⟨tree, cursor, hrun, hend, hd⟩ := run_of_written hw hs
  refine ⟨tree, ?_, hd⟩
  rw [parse_expression, hrun]
  simp only [hend, if_true]

/-- Texts that write an expression at any depth are accepted, unless the parser gives up. -/
theorem parse_of_written_of_not_nestsTooDeeply (hw : Written depth (.item .value e) texts)
    (hs : Fills texts source) (hdeep : ¬ NestsTooDeeply source) :
    ∃ tree, expression.parse 0 source Grammar.rootKind = .ok tree ∧ Depicts .value tree e := by
  rcases Nat.le_total depth (nestingLimit + 1) with hle | hle
  · exact parse_of_written (hw.mono hle) hs
  · obtain ⟨tree, cursor, hrun, hend, hd⟩ := run_of_written hw hs
    have hparse := parse_expression source
    have hagree : AgreeUnless (· = .nestedTooDeeply)
        ((named "Expression").run (followExpression (nestingLimit + 1)) (.start source 0))
        ((named "Expression").run (followExpression depth) (.start source 0)) := by
      rw [run_named, run_named]
      exact agree_follow_of_le expression (some 0) hle 0 "Expression" (.start source 0)
    rw [hparse]
    refine hagree.elim (fun fault last hr hf => ?_) fun hr => ?_
    · rw [hr, hf] at hparse
      exact absurd ⟨_, hparse, rfl⟩ hdeep
    · rw [← hr, hrun]
      exact ⟨tree, by simp only [hend, if_true], hd⟩

end Family

end GatedExpr
