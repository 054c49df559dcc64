import GatedExpr.Grammar.Precedence
import GatedExpr.Proofs.Computation
import GatedExpr.Proofs.Expr.Basic
import GatedExpr.Proofs.Precedence.Grouping

/-! # Folded runs

Folding a run of operands yields the tree of its one ordered grouping. Where the operands and the
operators that wait are kept on two stacks of their own, no operand is ever missing.
-/

namespace GatedExpr

/-- A node that knows where it was matched. -/
structure Operand where
  value : Value
  span : Span
  matched : value.matchedSpan = .ok span

namespace Grouping

/-- The tree of a grouping. It reaches from the start of the leftmost operand to the end of the
rightmost one. -/
def tree : Grouping Operand → Value
  | .operand o => o.value
  | .binary operator left right =>
    .branch "BinaryExpression" ⟨left.first.span.start, right.last.span.stop⟩
      [("operator", .text operator.symbol), ("left", left.tree), ("right", right.tree)]

theorem matchedSpan_tree (t : Grouping Operand) :
    t.tree.matchedSpan = .ok ⟨t.first.span.start, t.last.span.stop⟩ := by
  cases t with
  | operand o => exact o.matched
  | binary => rfl

end Grouping

namespace Precedence

/-- The operators of a run as texts, with the values of their right operands. -/
def texts (operations : List (InfixOperator × Operand)) : List (String × Value) :=
  operations.map fun operation => (operation.1.symbol, operation.2.value)

def foldRun (run : InfixRun Operand) : Except Fault Value :=
  fold run.1.value (texts run.2)

theorem join_tree (operator : InfixOperator) (left right : Grouping Operand) :
    join ⟨left.tree, operator.symbol⟩ right.tree =
      .ok (Grouping.binary operator left right).tree := by
  simp only [join, Value.spanning, left.matchedSpan_tree, right.matchedSpan_tree]
  rfl

theorem level_eq (left : Value) (operator : InfixOperator) :
    Pending.level ⟨left, operator.symbol⟩ = operator.level := by
  rw [Pending.level, operator.known]
  rfl

/-- The topmost operand that waits binds less strongly. -/
def Below (minimum : Nat) (stack : List Pending) : Prop :=
  ∀ pending, stack.head? = some pending → pending.level < minimum

/-- The operator that comes next, if any, binds at most that strongly. -/
def NextAtMost (maximum : Nat) (operations : List (InfixOperator × Operand)) : Prop :=
  ∀ operation, operations.head? = some operation → operation.1.level ≤ maximum

theorem collapse_of_below {minimum : Nat} {stack : List Pending} (h : Below minimum stack)
    (current : Value) : collapse minimum stack current = .ok (stack, current) := by
  cases stack with
  | nil => rfl
  | cons pending stack =>
    rw [collapse, if_neg]
    exact Nat.not_le.mpr (h pending rfl)

theorem foldFrom_cons (stack : List Pending) (current : Value) (operator : InfixOperator)
    (right : Operand) (operations : List (InfixOperator × Operand)) :
    foldFrom stack current (texts ((operator, right) :: operations)) = (do
      let (stack, left) ← collapse operator.level stack current
      foldFrom (⟨left, operator.symbol⟩ :: stack) right.value (texts operations)) := by
  rw [texts, List.map_cons, foldFrom, operator.known]
  rfl

/-- A waiting operand is joined with the current one before anything that binds no more strongly
is read. -/
theorem foldFrom_pending {left right : Grouping Operand} {operator : InfixOperator}
    {operations : List (InfixOperator × Operand)} (h : NextAtMost operator.level operations)
    (stack : List Pending) :
    foldFrom (⟨left.tree, operator.symbol⟩ :: stack) right.tree (texts operations) =
      foldFrom stack (Grouping.binary operator left right).tree (texts operations) := by
  have hcollapse {level : Nat} (hle : level ≤ operator.level) :
      collapse level (⟨left.tree, operator.symbol⟩ :: stack) right.tree =
        collapse level stack (Grouping.binary operator left right).tree := by
    rw [collapse, level_eq, if_pos hle, join_tree]
    rfl
  cases operations with
  | nil =>
    rw [texts, List.map_nil, foldFrom, hcollapse (Nat.zero_le _), foldFrom]
  | cons operation operations =>
    rw [foldFrom_cons, hcollapse (h operation rfl), foldFrom_cons]

/-- Once the run of an ordered grouping is read, its tree stands in the place of the run. -/
theorem foldFrom_append {t : Grouping Operand} (ho : t.Ordered) {minimum : Nat}
    (ht : t.AtLeast minimum) {stack : List Pending} (hb : Below minimum stack)
    {operations : List (InfixOperator × Operand)} (hn : NextAtMost minimum operations) :
    foldFrom stack t.first.value (texts (t.rest ++ operations)) =
      foldFrom stack t.tree (texts operations) := by
  induction t generalizing minimum stack operations with
  | operand => rfl
  | binary operator left right ihl ihr =>
    obtain ⟨hl, hr, hol, hor⟩ := ho
    have hle : minimum ≤ operator.level := ht
    have hleft : Below operator.level stack := fun pending hp =>
      Nat.lt_of_lt_of_le (hb pending hp) hle
    have hright : Below (operator.level + 1) (⟨left.tree, operator.symbol⟩ :: stack) := by
      rintro _ ⟨⟩
      rw [level_eq]
      exact Nat.lt_succ_self _
    have hnext : NextAtMost operator.level operations := fun operation h =>
      Nat.le_trans (hn operation h) hle
    have hfirst : NextAtMost operator.level
        ((operator, right.first) :: (right.rest ++ operations)) := by
      rintro _ ⟨⟩
      exact Nat.le_refl _
    rw [Grouping.first, Grouping.rest, List.append_assoc, List.cons_append,
      ihl hol hl hleft hfirst, foldFrom_cons, collapse_of_below hleft]
    change foldFrom (⟨left.tree, operator.symbol⟩ :: stack) right.first.value
      (texts (right.rest ++ operations)) = _
    rw [ihr hor hr hright fun operation h => Nat.le_succ_of_le (hnext operation h),
      foldFrom_pending hnext]

/-- The run of an ordered grouping is folded to its tree. -/
theorem foldRun_run {t : Grouping Operand} (ho : t.Ordered) : foldRun t.run = .ok t.tree := by
  have hstack : Below 0 [] := nofun
  have hnext : NextAtMost 0 [] := nofun
  have h := foldFrom_append ho t.atLeast_zero hstack hnext
  rw [List.append_nil] at h
  exact h

/-! ## Two stacks -/

/-- What takes things off stacks has no result where a stack has nothing left. -/
abbrev Popping := ExceptT Fault Option

namespace Popping

def pop : List Value → Popping (Value × List Value)
  | [] => ExceptT.mk none
  | value :: values => return (value, values)

/-- Joins the two topmost operands. -/
def reduce (operands : List Value) (operator : String) : Popping (List Value) := do
  let (right, operands) ← pop operands
  let (left, operands) ← pop operands
  return (← join ⟨left, operator⟩ right) :: operands

/-- Joins operands while the topmost operator binds at least as strongly as `level`. -/
def reduceWhile (level : Nat) (operands : List Value) :
    List String → Popping (List Value × List String)
  | [] => return (operands, [])
  | operator :: operators =>
    if level ≤ (precedence? operator).getD 0 then do
      reduceWhile level (← reduce operands operator) operators
    else return (operands, operator :: operators)

def foldFrom (operands : List Value) (operators : List String) :
    List (String × Value) → Popping Value
  | [] => do
    let (operands, _) ← reduceWhile 0 operands operators
    ExceptT.lift operands.getLast?
  | (operator, right) :: rest =>
    match precedence? operator with
    | none => throw (.unbound (.text operator))
    | some level => do
      let (operands, operators) ← reduceWhile level operands operators
      foldFrom (right :: operands) (operator :: operators) rest

/-- The tree of an operand followed by operators with operands, by two stacks that start with the
operand alone. -/
def fold (first : Value) (rest : List (String × Value)) : Popping Value :=
  foldFrom [first] [] rest

/-- What is on the two stacks: there is always one operand more than there are operators. -/
def spread (state : List Pending × Value) : List Value × List String :=
  (state.2 :: state.1.map (·.left), state.1.map (·.operator))

theorem reduce_cons (right left : Value) (operands : List Value) (operator : String) :
    reduce (right :: left :: operands) operator =
      ExceptT.mk (some ((join ⟨left, operator⟩ right).map (· :: operands))) := by
  cases h : join ⟨left, operator⟩ right <;> simp only [reduce, pop, pure_bind, h] <;> rfl

theorem reduceWhile_spread (level : Nat) (stack : List Pending) (current : Value) :
    reduceWhile level (spread (stack, current)).1 (spread (stack, current)).2 =
      ExceptT.mk (some ((collapse level stack current).map spread)) := by
  induction stack generalizing current with
  | nil => rfl
  | cons pending stack ih =>
    simp only [spread, List.map_cons] at ih ⊢
    rw [reduceWhile, collapse, Pending.level]
    split
    · rw [reduce_cons]
      cases join pending current with
      | error fault => rfl
      | ok joined => exact ih joined
    · rfl

theorem collapse_zero {stack rest : List Pending} {current last : Value}
    (h : collapse 0 stack current = .ok (rest, last)) : rest = [] := by
  induction stack generalizing current with
  | nil =>
    cases h
    rfl
  | cons pending stack ih =>
    rw [collapse, if_pos (Nat.zero_le _)] at h
    obtain ⟨joined, -, h⟩ := Computation.except_bind_eq_ok.mp h
    exact ih h

theorem foldFrom_spread (stack : List Pending) (current : Value) (rest : List (String × Value)) :
    foldFrom (spread (stack, current)).1 (spread (stack, current)).2 rest =
      ExceptT.mk (some (Precedence.foldFrom stack current rest)) := by
  induction rest generalizing stack current with
  | nil =>
    rw [foldFrom, reduceWhile_spread, Precedence.foldFrom]
    cases h : collapse 0 stack current with
    | error fault => rfl
    | ok state =>
      obtain ⟨stack, last⟩ := state
      obtain rfl := collapse_zero h
      rfl
  | cons operation rest ih =>
    obtain ⟨operator, right⟩ := operation
    rw [foldFrom, Precedence.foldFrom]
    cases precedence? operator with
    | none => rfl
    | some level =>
      simp only [reduceWhile_spread]
      cases collapse level stack current with
      | error fault => rfl
      | ok state => exact ih (⟨state.2, operator⟩ :: state.1) right

/-- Nothing is ever taken off an empty stack, whatever the operands and operators are. -/
theorem fold_eq_some (first : Value) (rest : List (String × Value)) :
    fold first rest = ExceptT.mk (some (Precedence.fold first rest)) :=
  foldFrom_spread [] first rest

end Popping

/-- A run is folded to the tree of its one ordered grouping, and no stack runs out. -/
theorem fold_ordered (first : Operand) (rest : List (InfixOperator × Operand)) :
    ∃ t : Grouping Operand, t.run = (first, rest) ∧ t.Ordered ∧
      (∀ s : Grouping Operand, s.run = (first, rest) → s.Ordered → s = t) ∧
      fold first.value (texts rest) = .ok t.tree ∧
      t.tree.matchedSpan = .ok ⟨t.first.span.start, t.last.span.stop⟩ ∧
      Popping.fold first.value (texts rest) = ExceptT.mk (some (.ok t.tree)) := by
  have hrun : (Grouping.ofRun (first, rest)).run = (first, rest) := Grouping.run_ofRun _
  have hfold := foldRun_run (Grouping.ordered_ofRun (first, rest))
  rw [hrun] at hfold
  refine ⟨.ofRun (first, rest), hrun, Grouping.ordered_ofRun _, fun s hs ho => ?_, hfold,
    Grouping.matchedSpan_tree _, ?_⟩
  · rw [ho.eq_ofRun, hs]
  · exact (Popping.fold_eq_some _ _).trans (congrArg (fun r => ExceptT.mk (some r)) hfold)

end Precedence

end GatedExpr
