import GatedExpr.Proofs.Expr.Content
import GatedExpr.Proofs.Grammar.Accepting
import GatedExpr.Proofs.Grammar.Cutting

/-! # The text of a node

What stands in a source between the ends of an expression is accepted again, with the same tree,
exactly if its round brackets match: parentheses around the first or the last part of a node are
no part of it, so that their partners may be.
-/

namespace GatedExpr

open Lexeme

/-! ## Texts between lexemes -/

/-- Texts need nothing behind them. -/
theorem Spread.cut {texts : List String} {s r : List Char} (h : Spread texts s r) :
    ∃ x, s = x ++ r ∧ Spread texts x [] := by
  induction h with
  | done => exact ⟨[], rfl, .done⟩
  | @text gap after rest text texts hg he _ ih =>
    obtain ⟨x, rfl, hx⟩ := ih
    refine ⟨gap ++ (text.toList ++ x), by simp, .text hg ?_ hx⟩
    cases x with
    | nil => exact Token.ends_none text
    | cons c x => exact he

namespace Laid

variable {a b : Place} {l m k : List Lexeme} {source : List Char} {s t : Int}

theorem of_append (h : Laid a (l ++ m) b) : ∃ c, Laid a l c ∧ Laid c m b := by
  induction l generalizing a with
  | nil => exact ⟨a, .done, h⟩
  | cons lexeme l ih =>
    cases h with
    | lexeme hg he h =>
      obtain ⟨c, hl, hm⟩ := ih h
      exact ⟨c, .lexeme hg he hl, hm⟩

/-- Lexemes from the first to the last of them are spread over the text between these. -/
theorem spread_slice (h : Laid ⟨0, source⟩ l b) (hm : m <:+: l) (hs : start? m = some s)
    (ht : stop? m = some t) : Spread (textsOf m) (Text.slice s t source) [] := by
  obtain ⟨l₁, l₂, rfl⟩ := hm
  obtain ⟨d, h, -⟩ := h.of_append
  obtain ⟨c, hbefore, hm⟩ := h.of_append
  have hstop := hm.stop?_eq
  cases hm with
  | done => cases hs
  | @lexeme position gap after text lexemes _ hg he hlast =>
    cases hs
    cases ht.symm.trans (hstop (List.cons_ne_nil _ _))
    obtain ⟨before, hsource, -⟩ := hbefore.spread.cut
    obtain ⟨x, hafter, hx⟩ := hlast.spread.cut
    have hstart := hbefore.position_eq
    have hend := hlast.position_eq
    simp only at hsource hafter hstart hend
    subst hafter hsource
    have hposition : position = before.length := by
      simp only [List.length_append] at hstart
      omega
    have hlength : d.position = ((before ++ gap ++ (text.toList ++ x)).length : Nat) := by
      simp only [List.length_append] at hend ⊢
      omega
    have hsource : before ++ (gap ++ (text.toList ++ (x ++ d.rest))) =
        before ++ gap ++ (text.toList ++ x) ++ d.rest := by simp
    simp only [hlength, hposition]
    rw [← Int.natCast_add, ← List.length_append, Text.slice_natCast, hsource, List.take_left,
      List.drop_left]
    refine .text .nil ?_ hx
    cases x with
    | nil => exact Token.ends_none text
    | cons c x => exact he

end Laid

namespace Family

variable {source : List Char} {tree : Value}

/-- The text is accepted, with a tree of the same content. -/
def Reproduces (text : List Char) (node : Value) : Prop :=
  ∃ again, expression.parse 0 text Grammar.rootKind = .ok again ∧ node.hasContentOf again = true

/-- The brackets of an accepted source match. -/
theorem bracketsMatch_of_parse (h : expression.parse 0 source Grammar.rootKind = .ok tree) :
    Text.BracketsMatch source := by
  obtain ⟨e, place, -, hw, hlaid, hr⟩ := written_of_parse h
  exact (Token.bracketsMatch_iff hw.level.readsAlike ⟨_, hlaid.spread, hr⟩).mpr hw.level.balanced

/-- The text between the ends of an expression of an accepted source is accepted if and only if
its brackets match, and then its tree has the content of the expression. -/
theorem reproduces_iff (h : expression.parse 0 source Grammar.rootKind = .ok tree) {node : Value}
    (hn : node ∈ tree.expressions) : ∃ span, node.matchedSpan = .ok span ∧
      (Reproduces (Text.slice span.start span.stop source) node ↔
        Text.BracketsMatch (Text.slice span.start span.stop source)) ∧
      ((∃ again, expression.parse 0 (Text.slice span.start span.stop source) Grammar.rootKind =
          .ok again) ↔
        Text.BracketsMatch (Text.slice span.start span.stop source)) := by
  obtain ⟨_, place, -, hwhole, hlaid, -⟩ := written_of_parse h
  have hrule : ExpressionGrammar.withOperators.rules.lookup Grammar.rootKind = some rootRule := rfl
  obtain ⟨cursor, hrun, -⟩ := run_of_parse hrule h
  have hcuts := (Matcher.cutting (nestingLimit + 1)).expression (Cursor.inSource_start source) hrun
  rw [← lexemes_expression] at hcuts
  obtain ⟨e, m, hm, ⟨s, t, hs, ht, hspan⟩, hd, hw⟩ := hcuts.slices node hn
  have hfills : Fills (textsOf m) (Text.slice s t source) :=
    ⟨[], hlaid.spread_slice hm hs ht, .nil⟩
  have hread : ∀ text ∈ textsOf m, Token.ReadsAlike text := fun text htext =>
    hwhole.level.readsAlike text ((hm.map _).subset htext)
  have hreproduces (hb : Text.BracketsMatch (Text.slice s t source)) :
      Reproduces (Text.slice s t source) node := by
    have hwritten := hw.resolve_right (not_not.mpr ((Token.bracketsMatch_iff hread hfills).mp hb))
    obtain ⟨again, hagain, hd'⟩ := parse_of_written hwritten hfills
    exact ⟨again, hagain, (hd.hasContentOf_iff hd').mpr rfl⟩
  refine ⟨⟨s, t⟩, hspan, ⟨?_, hreproduces⟩, ⟨?_, ?_⟩⟩
  · rintro ⟨again, hagain, -⟩
    exact bracketsMatch_of_parse hagain
  · rintro ⟨again, hagain⟩
    exact bracketsMatch_of_parse hagain
  · intro hb
    obtain ⟨again, hagain, -⟩ := hreproduces hb
    exact ⟨again, hagain⟩

/-- A product whose first factor is in parentheses begins after the opening one. -/
theorem reproduces_iff_product : ∃ tree,
    expression.parse 0 "(1+2)*3".toList Grammar.rootKind = .ok tree ∧ tree ∈ tree.expressions ∧
      tree.matchedSpan = .ok ⟨1, 7⟩ ∧ ¬ Reproduces "1+2)*3".toList tree := by
  obtain ⟨tree, htree, hrange⟩ :
      ∃ tree ∈ (expression.parse 0 "(1+2)*3".toList Grammar.rootKind).toOption,
        tree.matchedSpan.toOption = some ⟨1, 7⟩ := by
    decide +kernel
  have h := parse_of_mem_toOption htree
  obtain ⟨e, hd⟩ := depicts_of_parse h
  obtain ⟨span, hspan, hiff, -⟩ := reproduces_iff h hd.mem_expressions
  rw [hspan, Except.toOption, Option.some.injEq] at hrange
  subst hrange
  refine ⟨tree, h, hd.mem_expressions, hspan, fun hr => ?_⟩
  have hslice : Text.slice 1 7 "(1+2)*3".toList = "1+2)*3".toList := by decide
  rw [hslice] at hiff
  exact absurd (hiff.mp hr) (by decide)

end Family

end GatedExpr
