import GatedExpr.Proofs.Expr.Content
import GatedExpr.Proofs.Grammar.Accepting

/-! # Blanks between lexemes

Blanks mean nothing where a lexeme begins or ends: putting more of them there changes neither
whether a source is accepted nor what its tree shows.
-/

namespace GatedExpr

namespace Family

/-- Where blanks can be put in: at either end of a source, and where a lexeme begins or ends. -/
def Boundary (source : List Char) (offset : Nat) : Prop :=
  offset = 0 ∨ offset = source.length ∨
    ∃ lexeme ∈ expression.lexemes 0 source Grammar.rootKind,
      (offset : Int) = lexeme.span.start ∨ (offset : Int) = lexeme.span.stop

instance (source : List Char) (offset : Nat) : Decidable (Boundary source offset) :=
  inferInstanceAs (Decidable (_ ∨ _ ∨ _))

/-- Blanks that are put into an accepted source at a boundary of a lexeme leave it accepted, with a
tree of equal contents. -/
theorem parse_insert_blanks {source blanks : List Char} {tree : Value} {offset : Nat}
    (h : expression.parse 0 source Grammar.rootKind = .ok tree) (ho : Boundary source offset)
    (hb : Blanks blanks) (hne : blanks ≠ []) :
    ∃ again, expression.parse 0 (source.take offset ++ blanks ++ source.drop offset)
        Grammar.rootKind = .ok again ∧ tree.hasContentOf again = true := by
  obtain ⟨e, place, hd, hw, hl, hr⟩ := written_of_parse h
  have hfills : Fills ((expression.lexemes 0 source Grammar.rootKind).map (·.text))
      (source.take offset ++ (blanks ++ source.drop offset)) := by
    have hinside := hl.inside
    have hposition := hl.position_eq
    simp only at hposition hinside
    have hinsert (hle : offset ≤ source.length) := hl.insert hb hne hr hle
    simp only [zero_add] at hinsert
    rcases ho with rfl | rfl | ⟨lexeme, hm, ho⟩
    · exact hinsert (Nat.zero_le _) (.inl rfl)
    · rw [List.take_length, List.drop_length, List.append_nil]
      refine ⟨place.rest ++ blanks, ?_, hr.append hb⟩
      obtain ⟨c, more, rfl⟩ := List.exists_cons_of_ne_nil hne
      exact hl.spread.append_text
        fun text => Token.ends_of_blank text (hb c List.mem_cons_self)
    · refine hinsert ?_ (.inr ⟨lexeme, hm, ho⟩)
      have := hinside lexeme hm
      omega
  rw [List.append_assoc]
  obtain ⟨again, hagain, hd'⟩ := parse_of_written hw hfills
  exact ⟨again, hagain, (hd.hasContentOf_iff hd').mpr rfl⟩

/-- A line break between a number and the operator after it. -/
theorem parse_insert_blanks_line : ∃ tree,
    expression.parse 0 "f(1+x)".toList Grammar.rootKind = .ok tree ∧
      Boundary "f(1+x)".toList 3 ∧ Blanks ['\n', ' '] ∧
      ∃ again, expression.parse 0 "f(1\n +x)".toList Grammar.rootKind = .ok again ∧
        tree.hasContentOf again = true := by
  obtain ⟨tree, h⟩ : ∃ tree, expression.parse 0 "f(1+x)".toList Grammar.rootKind = .ok tree :=
    exists_tree_of_isOk (by decide +kernel)
  have ho : Boundary "f(1+x)".toList 3 := by decide +kernel
  have hb : Blanks ['\n', ' '] := by decide
  have hsource : "f(1+x)".toList.take 3 ++ ['\n', ' '] ++ "f(1+x)".toList.drop 3 =
      "f(1\n +x)".toList := by decide
  have hagain := parse_insert_blanks h ho hb (by decide)
  rw [hsource] at hagain
  exact ⟨tree, h, ho, hb, hagain⟩

end Family

end GatedExpr
