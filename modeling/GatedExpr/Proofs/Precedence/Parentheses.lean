import GatedExpr.Proofs.Expr.Content
import GatedExpr.Proofs.Expr.Printed
import GatedExpr.Proofs.Precedence.Folding

/-! # Parentheses

Infix trees are printed with parentheses around an operand exactly where reading would put it
together differently without them: what is printed without parentheses is folded back to the
tree, and no pair of parentheses can be left out.
-/

namespace GatedExpr

theorem Value.kind_of_hasContentOf {i j : Identity} {tree other : Node}
    (h : (Value.node i tree).hasContentOf (.node j other) = true) : tree.kind = other.kind := by
  cases tree
  simp only [hasContentOf, Node.equals, Bool.and_eq_true, beq_iff_eq] at h
  exact h.1.1.1.1

/-- A tree of infix operators, with operands of any other kind. -/
inductive InfixTree where
  | operand (o : Operand) (other : o.value.isOfKind "BinaryExpression" = .ok false)
  | binary (id : Identity) (span : Span) (operator : InfixOperator) (left right : InfixTree)

namespace InfixTree

def value : InfixTree → Value
  | operand o _ => o.value
  | binary id span operator left right =>
    .node id (.make "BinaryExpression" (some span)
      [("operator", .text operator.symbol), ("left", left.value), ("right", right.value)])

/-- The tree as one operand. -/
def whole : InfixTree → Operand
  | operand o _ => o
  | binary id span operator left right =>
    ⟨(binary id span operator left right).value, span, rfl⟩

/-- How the operands of the tree are put together. Only they keep their spans and identities. -/
def content : InfixTree → Grouping Operand
  | operand o _ => .operand o
  | binary _ _ operator left right => .binary operator left.content right.content

/-- The tree in a place that demands a strength: operands that are printed in parentheses there
are taken as a whole. -/
def grouped (minimum : Nat) : InfixTree → Grouping InfixTree
  | operand o other => .operand (operand o other)
  | binary id span operator left right =>
    if operator.level < minimum then .operand (binary id span operator left right)
    else .binary operator (left.grouped operator.level) (right.grouped (operator.level + 1))

/-- What is printed of the tree without parentheses around it. -/
def flat (t : InfixTree) : InfixRun InfixTree :=
  (t.grouped 0).run

variable {id : Identity} {span : Span} {operator : InfixOperator} {left right t : InfixTree}
  {minimum : Nat}

theorem value_whole (t : InfixTree) : t.whole.value = t.value := by
  cases t <;> rfl

theorem node_of_operand {o : Operand} (other : o.value.isOfKind "BinaryExpression" = .ok false) :
    ∃ id node, o.value = .node id node ∧ node.kind ≠ some "BinaryExpression" := by
  obtain ⟨value, span, matched⟩ := o
  cases value with
  | node id node =>
    refine ⟨id, node, rfl, fun hk => ?_⟩
    obtain ⟨held, hheld, htext⟩ := Value.isOfKind_eq_ok.mp other
    cases hheld
    rw [hk] at htext
    cases htext
  | _ => cases matched

theorem exists_node (t : InfixTree) : ∃ id node, t.value = .node id node := by
  cases t with
  | operand o other =>
    obtain ⟨id, node, h, -⟩ := node_of_operand other
    exact ⟨id, node, h⟩
  | binary => exact ⟨_, _, rfl⟩

theorem grouped_of_lt (h : operator.level < minimum) :
    (binary id span operator left right).grouped minimum =
      .operand (binary id span operator left right) :=
  if_pos h

theorem grouped_of_le (h : minimum ≤ operator.level) :
    (binary id span operator left right).grouped minimum =
      .binary operator (left.grouped operator.level) (right.grouped (operator.level + 1)) :=
  if_neg (Nat.not_lt.mpr h)

theorem atLeast_grouped (t : InfixTree) : (t.grouped minimum).AtLeast minimum := by
  cases t with
  | operand => trivial
  | binary id span operator left right =>
    rw [grouped]
    split
    · trivial
    · next h => exact Nat.le_of_not_lt h

theorem ordered_grouped (t : InfixTree) : (t.grouped minimum).Ordered := by
  induction t generalizing minimum with
  | operand => trivial
  | binary id span operator left right ihl ihr =>
    rw [grouped]
    split
    · trivial
    · exact ⟨atLeast_grouped left, atLeast_grouped right, ihl, ihr⟩

theorem bind_grouped (t : InfixTree) : (t.grouped minimum).bind content = t.content := by
  induction t generalizing minimum with
  | operand => rfl
  | binary id span operator left right ihl ihr =>
    rw [grouped]
    split
    · rfl
    · rw [Grouping.bind, ihl, ihr, content]

end InfixTree

namespace Grouping

/-- The tree of a grouping, with new spans and no identities yet. -/
def assembled : Grouping InfixTree → InfixTree
  | operand t => t
  | binary operator left right =>
    .binary .unassigned ⟨left.first.whole.span.start, right.last.whole.span.stop⟩ operator
      left.assembled right.assembled

theorem value_assembled (g : Grouping InfixTree) :
    g.assembled.value = (g.map InfixTree.whole).tree := by
  induction g with
  | operand t => exact t.value_whole.symm
  | binary operator left right ihl ihr =>
    rw [assembled, InfixTree.value, ihl, ihr, map_binary, tree, first_map, last_map]
    rfl

theorem content_assembled (g : Grouping InfixTree) :
    g.assembled.content = g.bind InfixTree.content := by
  induction g with
  | operand => rfl
  | binary operator left right ihl ihr => rw [assembled, InfixTree.content, ihl, ihr, bind]

end Grouping

namespace InfixTree

variable {id : Identity} {span : Span} {operator : InfixOperator} {left right t : InfixTree}
  {minimum : Nat}

/-- Folds a run of trees, each taken as a whole. -/
def fold (run : InfixRun InfixTree) : Except Fault Value :=
  Precedence.foldRun (run.map whole)

theorem fold_run {g : Grouping InfixTree} (h : g.Ordered) : fold g.run = .ok g.assembled.value := by
  rw [fold, ← Grouping.run_map, Precedence.foldRun_run (h.map _), Grouping.value_assembled]

theorem agrees_value (s t : InfixTree) : s.value.agrees t.value = s.value.hasContentOf t.value := by
  obtain ⟨id, node, h⟩ := exists_node s
  rw [Value.agrees, h]
  rfl

/-- Trees of equal contents are put together alike, whatever their operands are. -/
theorem shape_of_hasContentOf {s t : InfixTree} (h : s.value.hasContentOf t.value = true) :
    s.content.shape = t.content.shape := by
  induction s generalizing t with
  | operand o other =>
    cases t with
    | operand => rfl
    | binary =>
      obtain ⟨id, node, ho, hk⟩ := node_of_operand other
      rw [value, ho] at h
      exact absurd (Value.kind_of_hasContentOf h) hk
  | binary id span operator left right ihl ihr =>
    cases t with
    | operand o other =>
      obtain ⟨id, node, ho, hk⟩ := node_of_operand other
      rw [value.eq_1, ho] at h
      exact absurd (Value.kind_of_hasContentOf h).symm hk
    | binary id' span' other left' right' =>
      have hfields : operator.symbol = other.symbol ∧
          left.value.hasContentOf left'.value = true ∧
          right.value.hasContentOf right'.value = true := by
        simpa [value, Value.hasContentOf, Node.make, Node.equals, List.lookup_cons, agrees_value,
          Value.childrenHaveContentsOf] using h
      obtain ⟨hsymbol, hleft, hright⟩ := hfields
      obtain rfl := InfixOperator.eq_of_symbol hsymbol
      rw [content, content, Grouping.shape_binary, Grouping.shape_binary, ihl hleft, ihr hright]

/-! ## Printing -/

/-- The text of operators and their right operands. -/
def printRest : List (InfixOperator × InfixTree) → Except Fault String
  | [] => return ""
  | (operator, right) :: rest => do
    let text ← right.value.printOperand Precedence.unary
    return " " ++ operator.symbol ++ " " ++ text.displayPlain ++ (← printRest rest)

/-- The text of a run. Operands of infix operators get parentheses. -/
def printRun (run : InfixRun InfixTree) : Except Fault String := do
  let text ← run.1.value.printOperand Precedence.unary
  return text.displayPlain ++ (← printRest run.2)

theorem printRest_append (before after : List (InfixOperator × InfixTree)) :
    printRest (before ++ after) = (do return (← printRest before) ++ (← printRest after)) := by
  induction before with
  | nil => cases h : printRest after <;> simp [printRest, h]
  | cons operation before ih =>
    simp only [List.cons_append, printRest, ih, bind_assoc, pure_bind, String.append_assoc]

theorem printTree_binary :
    (binary id span operator left right).value.printTree = (do
      let leftText ← left.value.printOperand operator.level
      let rightText ← right.value.printOperand (operator.level + 1)
      return .text (leftText.displayPlain ++ " " ++ operator.symbol ++ " "
        ++ rightText.displayPlain)) := by
  have hlevel : Precedence.ofOperator (.text operator.symbol) = .ok operator.level := by
    rw [Precedence.ofOperator, operator.known]
    rfl
  rw [value, Value.printTree]
  refine Value.bind_of_ok rfl <| Value.bind_of_ok rfl ?_
  refine Value.bind_part rfl fun _ => Value.bind_of_ok hlevel ?_
  refine Value.bind_part rfl fun _ => bind_congr fun leftText => ?_
  exact Value.bind_part rfl fun _ => rfl

/-- The text of a tree in parentheses. -/
def parenthesized (text : Value) : Value :=
  .text ("(" ++ text.displayPlain ++ ")")

theorem ofTree_binary :
    Precedence.ofTree (binary id span operator left right).value = .ok operator.level := by
  change Precedence.ofOperator (.text operator.symbol) = _
  rw [Precedence.ofOperator, operator.known]
  rfl

theorem printOperand_of_lt (h : operator.level < minimum) :
    (binary id span operator left right).value.printOperand minimum =
      (binary id span operator left right).value.printTree.map parenthesized := by
  rw [Value.printOperand, ofTree_binary]
  cases (binary id span operator left right).value.printTree with
  | error fault => rfl
  | ok text => exact congrArg Except.ok (if_pos h)

theorem printOperand_of_le (h : minimum ≤ operator.level) :
    (binary id span operator left right).value.printOperand minimum =
      (binary id span operator left right).value.printTree := by
  rw [Value.printOperand, ofTree_binary]
  cases (binary id span operator left right).value.printTree with
  | error fault => rfl
  | ok text => exact congrArg Except.ok (if_neg (Nat.not_lt.mpr h))

/-- Where all operands of infix operators are put in parentheses, other ones are printed as they
are anywhere below. -/
theorem printOperand_operand {o : Operand}
    (other : o.value.isOfKind "BinaryExpression" = .ok false) (hpos : 0 < minimum)
    (hle : minimum ≤ Precedence.unary) :
    o.value.printOperand minimum = o.value.printOperand Precedence.unary := by
  obtain ⟨held, hheld, hkind⟩ := Value.isOfKind_eq_ok.mp other
  have hlevel : ∃ level, Precedence.ofTree o.value = .ok level ∧
      (level < minimum ↔ level < Precedence.unary) := by
    have hchoice : Precedence.choice = 0 := rfl
    have hatom : Precedence.unary ≤ Precedence.atom := by decide
    simp only [Precedence.ofTree, hheld, hkind, bind, Except.bind, if_false, Bool.false_eq_true]
    split
    · exact ⟨Precedence.choice, rfl, by omega⟩
    · split
      · exact ⟨Precedence.unary, rfl, by omega⟩
      · exact ⟨Precedence.atom, rfl, by omega⟩
  obtain ⟨level, hlevel, hiff⟩ := hlevel
  rw [Value.printOperand, Value.printOperand, hlevel]
  cases o.value.printTree with
  | error fault => rfl
  | ok text =>
    refine congrArg Except.ok ?_
    simp only [hiff]

theorem printRun_single (t : InfixTree) :
    printRun (t, []) = (t.value.printOperand Precedence.unary).map Value.displayPlain := by
  rw [printRun]
  cases t.value.printOperand Precedence.unary with
  | error fault => rfl
  | ok text => exact congrArg Except.ok (String.append_empty ..)

theorem printRun_binary (l r : Grouping InfixTree) :
    printRun (Grouping.binary operator l r).run = (do
      let leftText ← printRun l.run
      let rightText ← printRun r.run
      return leftText ++ " " ++ operator.symbol ++ " " ++ rightText) := by
  simp only [Grouping.run_binary, printRun, printRest_append, printRest, bind_assoc, pure_bind,
    String.append_assoc]

/-- A tree is printed as its operands are, with the operator between them. -/
theorem printTree_of_runs {l r : Grouping InfixTree}
    (hl : printRun l.run = (left.value.printOperand operator.level).map Value.displayPlain)
    (hr : printRun r.run =
      (right.value.printOperand (operator.level + 1)).map Value.displayPlain) :
    (binary id span operator left right).value.printTree =
      (printRun (Grouping.binary operator l r).run).map Value.text := by
  rw [printRun_binary, hl, hr, printTree_binary]
  cases left.value.printOperand operator.level with
  | error fault => rfl
  | ok leftText => cases right.value.printOperand (operator.level + 1) <;> rfl

theorem printRun_grouped (t : InfixTree) (hpos : 0 < minimum) (hle : minimum ≤ Precedence.unary) :
    printRun (t.grouped minimum).run = (t.value.printOperand minimum).map Value.displayPlain := by
  induction t generalizing minimum with
  | operand o other =>
    rw [grouped, Grouping.run, Grouping.first, Grouping.rest, printRun_single, value,
      printOperand_operand other hpos hle]
  | binary id span operator left right ihl ihr =>
    have hlevel := operator.level_bounds
    have hunary : Precedence.unary = 7 := rfl
    rcases Nat.lt_or_ge operator.level minimum with hlt | hge
    · rw [grouped_of_lt hlt, Grouping.run, Grouping.first, Grouping.rest, printRun_single,
        printOperand_of_lt hlt, printOperand_of_lt (by omega)]
    · rw [grouped_of_le hge, printOperand_of_le hge, printTree_of_runs
        (ihl (by omega) (by omega)) (ihr (by omega) (by omega))]
      cases printRun (Grouping.binary operator _ _).run <;> rfl

/-- A tree is printed as its run is. -/
theorem printTree_eq_printRun :
    (binary id span operator left right).value.printTree =
      (printRun (binary id span operator left right).flat).map Value.text := by
  have hlevel := operator.level_bounds
  have hunary : Precedence.unary = 7 := rfl
  rw [flat, grouped_of_le (Nat.zero_le _)]
  exact printTree_of_runs (printRun_grouped left (by omega) (by omega))
    (printRun_grouped right (by omega) (by omega))

/-! ## Leaving parentheses out -/

/-- One tree of a run is written without parentheses around it. -/
inductive Unwraps (t : InfixTree) : InfixRun InfixTree → InfixRun InfixTree → Prop where
  | first (rest : List (InfixOperator × InfixTree)) :
      Unwraps t (t, rest) (t.flat.1, t.flat.2 ++ rest)
  | later (first : InfixTree) (before after : List (InfixOperator × InfixTree))
      (operator : InfixOperator) :
      Unwraps t (first, before ++ (operator, t) :: after)
        (first, before ++ (operator, t.flat.1) :: (t.flat.2 ++ after))

variable {run : InfixRun InfixTree}

theorem Unwraps.of_single {other : InfixTree} (h : Unwraps t (other, []) run) :
    other = t ∧ run = t.flat := by
  generalize hw : (other, []) = whole at h
  cases h with
  | first rest =>
    cases hw
    exact ⟨rfl, by simp⟩
  | later first before after operator =>
    have hnil := (Prod.mk.inj hw).2
    simp at hnil

/-- The tree is in the part of the run to the left of an operator, or in that to the right. -/
theorem Unwraps.of_binary {l r : Grouping InfixTree}
    (h : Unwraps t (Grouping.binary operator l r).run run) :
    (∃ run', Unwraps t l.run run' ∧ run = (run'.1, run'.2 ++ (operator, r.run.1) :: r.run.2)) ∨
      ∃ run', Unwraps t r.run run' ∧ run = (l.run.1, l.run.2 ++ (operator, run'.1) :: run'.2) := by
  rw [Grouping.run_binary] at h
  generalize l.run = leftRun at h ⊢
  generalize r.run = rightRun at h ⊢
  obtain ⟨leftFirst, leftRest⟩ := leftRun
  obtain ⟨rightFirst, rightRest⟩ := rightRun
  generalize hw : (leftFirst, leftRest ++ (operator, rightFirst) :: rightRest) = whole at h
  cases h with
  | first rest =>
    obtain ⟨rfl, rfl⟩ := Prod.mk.inj hw
    exact .inl ⟨_, .first leftRest, by simp⟩
  | later first before after other =>
    obtain ⟨rfl, hrest⟩ := Prod.mk.inj hw
    rcases List.append_eq_append_iff.mp hrest with ⟨between, rfl, h⟩ | ⟨between, rfl, h⟩
    · cases between with
      | nil =>
        cases h
        exact .inr ⟨_, .first _, by simp⟩
      | cons operation between =>
        cases h
        exact .inr ⟨_, .later _ between after other, by simp⟩
    · cases between with
      | nil =>
        cases h
        exact .inr ⟨_, .first _, by simp⟩
      | cons operation between =>
        cases h
        exact .inl ⟨_, .later _ before between other, by simp⟩

/-- What is written without parentheses around one tree of a run has the content of the whole in a
grouping that is not ordered. -/
theorem Unwraps.exists_grouping {whole : InfixTree}
    (h : Unwraps (binary id span operator left right) (whole.grouped minimum).run run) :
    ∃ g : Grouping InfixTree, g.run = run ∧ g.bind content = whole.content ∧
      ¬ (g.AtLeast minimum ∧ g.Ordered) := by
  induction whole generalizing minimum run with
  | operand o other => cases h.of_single.1
  | binary id' span' operator' left' right' ihl ihr =>
    rcases Nat.lt_or_ge operator'.level minimum with hlt | hge
    · rw [grouped_of_lt hlt] at h
      obtain ⟨heq, rfl⟩ := h.of_single
      cases heq
      refine ⟨_, rfl, bind_grouped _, ?_⟩
      rw [grouped_of_le (Nat.zero_le _)]
      exact fun hordered => Nat.not_le.mpr hlt hordered.1
    · rw [grouped_of_le hge] at h
      rcases h.of_binary with ⟨run', hu, rfl⟩ | ⟨run', hu, rfl⟩
      · obtain ⟨g, rfl, hcontent, hnot⟩ := ihl hu
        refine ⟨.binary operator' g (right'.grouped (operator'.level + 1)), rfl, ?_, ?_⟩
        · rw [Grouping.bind, hcontent, bind_grouped, content]
        · rintro ⟨-, hl, -, ho, -⟩
          exact hnot ⟨hl, ho⟩
      · obtain ⟨g, rfl, hcontent, hnot⟩ := ihr hu
        refine ⟨.binary operator' (left'.grouped operator'.level) g, rfl, ?_, ?_⟩
        · rw [Grouping.bind, hcontent, bind_grouped, content]
        · rintro ⟨-, -, hr, -, ho⟩
          exact hnot ⟨hr, ho⟩

/-- Infix trees are printed with no parentheses too few and none too many: what stands outside
parentheses is folded back to the tree, and without one pair of them to another tree. -/
theorem parentheses_exact (id : Identity) (span : Span) (operator : InfixOperator)
    (left right : InfixTree) :
    let t := binary id span operator left right
    t.value.printTree = (printRun t.flat).map .text ∧
      (∃ s : InfixTree, fold t.flat = .ok s.value ∧ s.content = t.content) ∧
      ∀ (id' : Identity) (span' : Span) (operator' : InfixOperator) (left' right' : InfixTree),
        let inner := binary id' span' operator' left' right'
        ∀ run, inner.Unwraps t.flat run →
          inner.value.printOperand Precedence.unary = inner.value.printTree.map parenthesized ∧
            ∃ s : InfixTree, fold run = .ok s.value ∧ s.content ≠ t.content ∧
              s.value.hasContentOf t.value = false := by
  intro t
  refine ⟨printTree_eq_printRun, ⟨(t.grouped 0).assembled, fold_run (ordered_grouped t), ?_⟩,
    fun id' span' operator' left' right' => ?_⟩
  · rw [Grouping.content_assembled, bind_grouped]
  · intro inner run hu
    refine ⟨printOperand_of_lt (Nat.lt_succ_of_le operator'.level_bounds.2), ?_⟩
    obtain ⟨g, rfl, hcontent, hnot⟩ := hu.exists_grouping
    have hordered := Grouping.ordered_ofRun g.run
    have hrun := Grouping.run_ofRun g.run
    -- a tree put together like this one would group the run in the same way
    have hshape : (Grouping.ofRun g.run).assembled.content.shape ≠ t.content.shape := by
      intro hs
      rw [Grouping.content_assembled, ← hcontent] at hs
      have hleaves : (Grouping.ofRun g.run).leaves = g.leaves := by
        rw [Grouping.leaves_eq_run, hrun, Grouping.leaves_eq_run]
      have heq := Grouping.eq_of_shape_bind hleaves hs
      rw [heq] at hordered
      exact hnot ⟨Grouping.atLeast_zero _, hordered⟩
    refine ⟨(Grouping.ofRun g.run).assembled, ?_, fun hc => hshape (congrArg _ hc), ?_⟩
    · rw [← fold_run hordered, hrun]
    · exact Bool.eq_false_iff.mpr fun hc => hshape (shape_of_hasContentOf hc)

end InfixTree

end GatedExpr
