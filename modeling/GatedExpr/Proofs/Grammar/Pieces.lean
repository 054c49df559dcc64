import GatedExpr.Proofs.Expr.Fold
import GatedExpr.Proofs.Grammar.Slices
import GatedExpr.Proofs.Precedence.Folding

/-! # Slices of folded runs

An ordered grouping of some of the operands that stand next to each other is folded by itself as
it is within a longer run. So each infix node writes what it shows if its lexemes are all that were
read for it.
-/

namespace GatedExpr

open Lexeme

/-- An operand of a run, the expression that it shows, and the lexemes that were read for it and
before it for the operator. -/
structure Piece where
  operand : Operand
  expr : Expr
  before : List Lexeme
  lexemes : List Lexeme

namespace Piece

/-- The lexemes write the operand and were read for it. -/
structure Reads (depth : Nat) (piece : Piece) : Prop where
  depicts : Depicts .value piece.operand.value piece.expr
  written : Written depth (.operand piece.expr) (textsOf piece.lexemes)
  cuts : Cuts (depth + 1) piece.lexemes piece.operand.value

/-- The same of an operand that follows an operator. -/
structure Follows (depth : Nat) (operation : InfixOperator × Piece) : Prop where
  symbol : operation.1.symbol ∈ infixSymbols
  before : textsOf operation.2.before = [operation.1.symbol]
  reads : operation.2.Reads depth

/-- The lexemes of an operator and the operand after it. -/
def both (piece : Piece) : List Lexeme :=
  piece.before ++ piece.lexemes

/-- An operator with the expression after it. -/
def shown (operation : InfixOperator × Piece) : String × Expr :=
  (operation.1.symbol, operation.2.expr)

end Piece

namespace Grouping

open Piece

variable {depth : Nat} {t left right : Grouping Piece} {operator : InfixOperator}

/-- All that was read for the grouping. -/
def lexemes (t : Grouping Piece) : List Lexeme :=
  t.first.lexemes ++ t.rest.flatMap fun operation => operation.2.both

/-- The expression that its run is folded to. -/
def expr (t : Grouping Piece) : Expr :=
  Expr.fold t.first.expr (t.rest.map shown)

/-- Its operands and operators were read from their lexemes. -/
structure Reads (depth : Nat) (t : Grouping Piece) : Prop where
  first : t.first.Reads depth
  rest : ∀ operation ∈ t.rest, Follows depth operation

theorem expressions_tree {left right : Grouping Operand} :
    (binary operator left right).tree.expressions =
      (binary operator left right).tree :: (left.tree.expressions ++ right.tree.expressions) := by
  rw [tree, Value.expressions_of_not_mem (by decide)]
  simp

theorem lexemes_binary :
    (binary operator left right).lexemes =
      left.lexemes ++ (right.first.before ++ right.lexemes) := by
  simp [lexemes, first, rest, both]

theorem Reads.of_binary (h : (binary operator left right).Reads depth) :
    left.Reads depth ∧ Follows depth (operator, right.first) ∧ right.Reads depth := by
  obtain ⟨hfirst, hrest⟩ := h
  simp only [Grouping.rest, List.forall_mem_append, List.forall_mem_cons] at hrest
  obtain ⟨hleft, hoperator, hright⟩ := hrest
  exact ⟨⟨hfirst, hleft⟩, hoperator, ⟨hoperator.reads, hright⟩⟩

/-- A run of operands, and what it may be the test of. -/
theorem Reads.written {chosen : Option (Expr × Expr)} {texts : List String} (h : t.Reads depth)
    (hb : Written depth (.branches chosen) texts) :
    Written (depth + 1) (.item .value (t.expr.withBranches chosen))
      (textsOf t.lexemes ++ texts) := by
  have hrun := @Written.expression depth t.first.expr chosen
    (t.rest.map fun operation => (shown operation, textsOf operation.2.both)) _ _ h.first.written
    (by
      simp only [List.forall_mem_map]
      intro operation hm
      obtain ⟨hsymbol, hbefore, hreads⟩ := h.rest operation hm
      rw [both, textsOf, List.map_append, ← textsOf, hbefore]
      exact .operation hsymbol hreads.written) hb
  rw [List.map_map, List.flatMap_map] at hrun
  simpa [expr, lexemes, List.map_flatMap, Function.comp_def] using hrun

theorem Reads.written_expr (h : t.Reads depth) :
    Written (depth + 1) (.item .value t.expr) (textsOf t.lexemes) := by
  have hrun := h.written .noBranches
  rwa [List.append_nil] at hrun

theorem Reads.balanced (h : t.Reads depth) : Token.Balanced (textsOf t.lexemes) :=
  h.written_expr.level.balanced

/-- The tree that an ordered grouping is folded to shows what its run is folded to. -/
theorem Reads.depicts (h : t.Reads depth) (ho : t.Ordered) :
    Depicts .value (t.map Piece.operand).tree t.expr := by
  have hshows : List.Forall₂ Precedence.ShowsOperation (Precedence.texts (t.map Piece.operand).rest)
      (t.rest.map shown) := by
    have hrest : (t.map Piece.operand).rest = t.rest.map (Prod.map id Piece.operand) :=
      congrArg Prod.snd (run_map Piece.operand)
    rw [hrest, Precedence.texts, List.map_map, List.forall₂_map_left_iff,
      List.forall₂_map_right_iff, List.forall₂_same]
    intro operation hm
    obtain ⟨hsymbol, -, hreads⟩ := h.rest operation hm
    exact ⟨rfl, hsymbol, hreads.depicts⟩
  obtain ⟨w, hw, hd⟩ := Precedence.depicts_fold hshows h.first.depicts
  have hfold := Precedence.foldRun_run (ho.map Piece.operand)
  rw [Precedence.foldRun, run, first_map] at hfold
  cases hfold.symm.trans hw
  exact hd

theorem Reads.cuts (h : t.Reads depth) (ho : t.Ordered) :
    Cuts (depth + 1) t.lexemes (t.map Piece.operand).tree := by
  induction t with
  | operand piece =>
    have hlexemes : (operand piece).lexemes = piece.lexemes := List.append_nil _
    rw [hlexemes]
    exact h.first.cuts
  | binary operator left right ihl ihr =>
    have hall := h.depicts ho
    have hwhole := h.written_expr
    obtain ⟨hleft, hoperator, hright⟩ := h.of_binary
    obtain ⟨-, -, hol, hor⟩ := ho
    have hcutl := ihl hleft hol
    have hcutr := ihr hright hor
    obtain ⟨_, hspanl, hopens, -⟩ := hcutl.edges
    obtain ⟨_, hspanr, -, hcloses⟩ := hcutr.edges
    cases (matchedSpan_tree _).symm.trans hspanl
    cases (matchedSpan_tree _).symm.trans hspanr
    have hbefore : Token.Balanced (textsOf right.first.before) := by
      rw [hoperator.before]
      exact .cons (Token.other_of_symbol hoperator.symbol) .nil
    rw [lexemes_binary] at hwhole ⊢
    refine cuts_between hopens hcloses rfl hleft.balanced hbefore hright.balanced hall hwhole
      fun w hm => ?_
    rw [map_binary, expressions_tree, List.mem_cons, List.mem_append] at hm
    rcases hm with rfl | hm | hm
    · exact .inl rfl
    · exact .inr (hcutl.slices.append_right _ w hm)
    · exact .inr ((hcutr.slices.append_left _).append_left _ w hm)

/-- A run of operands is folded to the tree of a grouping of all that was read for it. -/
theorem exists_reads {piece : Piece} {rest : List (InfixOperator × Piece)}
    (hp : piece.Reads depth) (hr : ∀ operation ∈ rest, Follows depth operation) :
    ∃ t : Grouping Piece, t.Ordered ∧ t.Reads depth ∧
      t.lexemes = piece.lexemes ++ rest.flatMap (fun operation => operation.2.both) ∧
      Precedence.fold piece.operand.value
        (Precedence.texts (rest.map (Prod.map id Piece.operand))) =
          .ok (t.map Piece.operand).tree := by
  have hrun : (ofRun (piece, rest)).run = (piece, rest) := run_ofRun _
  have ho : (ofRun (piece, rest)).Ordered := ordered_ofRun _
  have hfirst : (ofRun (piece, rest)).first = piece := congrArg Prod.fst hrun
  have hrest : (ofRun (piece, rest)).rest = rest := congrArg Prod.snd hrun
  have hfold := Precedence.foldRun_run (ho.map Piece.operand)
  rw [run_map, hrun] at hfold
  refine ⟨ofRun (piece, rest), ho, ⟨?_, ?_⟩, ?_, hfold⟩
  · rwa [hfirst]
  · rwa [hrest]
  · rw [lexemes, hfirst, hrest]

end Grouping

/-! ## Choices -/

/-- What follows a test: the lexemes of the alternate come last. -/
structure ReadsBranches (depth : Nat) (x y : Value) (e f : Expr) (k m : List Lexeme) : Prop where
  consequent : Depicts .value x e
  alternate : Depicts .value y f
  written : Written depth (.branches (some (e, f))) (textsOf (k ++ m))
  before : Token.Balanced (textsOf k)
  after : Token.Balanced (textsOf m)
  sliced : Sliced (depth + 1) k x
  cuts : Cuts (depth + 1) m y

/-- A choice reaches from the beginning of its test to the end of its alternate. -/
theorem ReadsBranches.cuts_choice {depth : Nat} {x y : Value} {e f : Expr} {k m : List Lexeme}
    (h : ReadsBranches depth x y e f k m) {t : Grouping Piece} (ht : t.Reads depth)
    (ho : t.Ordered) : ∃ span, (t.map Piece.operand).tree.spanning y = .ok span ∧
      Cuts (depth + 1) (t.lexemes ++ (k ++ m)) (.branch "ConditionalExpression" span
        [("test", (t.map Piece.operand).tree), ("consequent", x), ("alternate", y)]) := by
  have hcut := ht.cuts ho
  obtain ⟨s, hs, hopens, -⟩ := hcut.edges
  obtain ⟨r, hr, -, hcloses⟩ := h.cuts.edges
  have hspan : (t.map Piece.operand).tree.spanning y = .ok ⟨s.start, r.stop⟩ := by
    simp only [Value.spanning, hs, hr]
    rfl
  have hwhole : Written (depth + 1) (.item .value (.choice t.expr e f))
      (textsOf (t.lexemes ++ (k ++ m))) := by
    rw [textsOf, List.map_append]
    exact ht.written h.written
  refine ⟨_, hspan, cuts_between hopens hcloses rfl ht.balanced h.before h.after
    (.choice (ht.depicts ho) h.consequent h.alternate) hwhole fun w hw => ?_⟩
  rw [Value.expressions_of_not_mem (by decide), List.flatMap_cons, List.flatMap_cons,
    List.flatMap_singleton, List.mem_cons, List.mem_append, List.mem_append] at hw
  rcases hw with rfl | hw | hw | hw
  · exact .inl rfl
  · exact .inr (hcut.slices.append_right _ w hw)
  · exact .inr (h.sliced.append_both _ m w hw)
  · exact .inr ((h.cuts.slices.append_left k).append_left _ w hw)

end GatedExpr
