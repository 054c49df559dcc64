import Mathlib.Data.List.Forall2
import GatedExpr.Proofs.Expr.Basic

/-! # Folding expressions

What a run of operands and operators is folded to, told for expressions. Folding trees yields a
tree of what folding the expressions yields, and it keeps the leaves in their order.
-/

namespace GatedExpr

namespace Expr

/-- An expression that waits for its right neighbour, and the operator between the two. -/
structure Pending where
  left : Expr
  operator : String

/-- How strongly an infix operator binds. -/
def levelOf (operator : String) : Nat :=
  (precedence? operator).getD 0

/-- What waits, the last one first, and the current operand. -/
abbrev Run := List Pending × Expr

/-- Joins the current operand with waiting ones while they bind at least as strongly. -/
def collapse (level : Nat) : List Pending → Expr → Run
  | [], current => ([], current)
  | pending :: stack, current =>
    if level ≤ levelOf pending.operator then
      collapse level stack (.binary pending.operator pending.left current)
    else (pending :: stack, current)

/-- Reads one more operator and its right operand. -/
def feed (run : Run) (operation : String × Expr) : Run :=
  let (stack, left) := collapse (levelOf operation.1) run.1 run.2
  (⟨left, operation.1⟩ :: stack, operation.2)

/-- The expression of an operand followed by operators with operands. -/
def fold (first : Expr) (operations : List (String × Expr)) : Expr :=
  let (stack, current) := operations.foldl feed ([], first)
  (collapse 0 stack current).2

/-! ## Leaves -/

def leavesBefore : List Pending → List String → List String
  | [], after => after
  | pending :: stack, after => leavesBefore stack (leaves pending.left ++ after)

theorem leavesBefore_append (stack : List Pending) (s t : List String) :
    leavesBefore stack (s ++ t) = leavesBefore stack s ++ t := by
  induction stack generalizing s with
  | nil => rfl
  | cons pending stack ih => rw [leavesBefore, leavesBefore, ← List.append_assoc, ih]

theorem leavesBefore_collapse (level : Nat) (stack : List Pending) (current : Expr) :
    leavesBefore (collapse level stack current).1 (leaves (collapse level stack current).2) =
      leavesBefore stack (leaves current) := by
  induction stack generalizing current with
  | nil => rfl
  | cons pending stack ih =>
    rw [collapse]
    split
    · rw [ih, leavesBefore, leaves]
    · rfl

theorem leavesBefore_feed (run : Run) (operation : String × Expr) :
    leavesBefore (feed run operation).1 (leaves (feed run operation).2) =
      leavesBefore run.1 (leaves run.2) ++ leaves operation.2 := by
  simp only [feed, leavesBefore, leavesBefore_append, leavesBefore_collapse]

theorem leavesBefore_foldl (operations : List (String × Expr)) (run : Run) :
    leavesBefore (operations.foldl feed run).1 (leaves (operations.foldl feed run).2) =
      leavesBefore run.1 (leaves run.2) ++ operations.flatMap (leaves ·.2) := by
  induction operations generalizing run with
  | nil => simp
  | cons operation operations ih =>
    rw [List.foldl_cons, ih, leavesBefore_feed, List.flatMap_cons, List.append_assoc]

theorem collapse_zero (stack : List Pending) (current : Expr) :
    (collapse 0 stack current).1 = [] := by
  induction stack generalizing current with
  | nil => rfl
  | cons pending stack ih =>
    rw [collapse, if_pos (Nat.zero_le _)]
    exact ih _

theorem leaves_fold (first : Expr) (operations : List (String × Expr)) :
    leaves (fold first operations) = leaves first ++ operations.flatMap (leaves ·.2) := by
  have h := leavesBefore_foldl operations ([], first)
  rw [← leavesBefore_collapse 0, collapse_zero] at h
  exact h

end Expr

/-! ## Trees -/

namespace Precedence

/-- The tree that waits shows the expression that waits. -/
def Pending.Shows (pending : Pending) (shown : Expr.Pending) : Prop :=
  pending.operator = shown.operator ∧ shown.operator ∈ infixSymbols ∧
    Depicts .value pending.left shown.left

/-- The operators and right operands of a run show those of expressions. -/
def ShowsOperation (operation : String × Value) (shown : String × Expr) : Prop :=
  operation.1 = shown.1 ∧ shown.1 ∈ infixSymbols ∧ Depicts .value operation.2 shown.2

theorem depicts_join {pending : Pending} {shown : Expr.Pending} {v : Value} {e : Expr}
    (hp : pending.Shows shown) (hv : Depicts .value v e) :
    ∃ w, join pending v = .ok w ∧
      Depicts .value w (.binary shown.operator shown.left e) := by
  obtain ⟨ho, hs, hl⟩ := hp
  obtain ⟨span, hspan⟩ := hl.spanning hv
  refine ⟨_, by simp only [join, hspan]; rfl, ?_⟩
  rw [ho]
  exact .binary hs hl hv

theorem depicts_collapse (level : Nat) {stack : List Pending} {shown : List Expr.Pending}
    (hs : List.Forall₂ Pending.Shows stack shown) {v : Value} {e : Expr}
    (hv : Depicts .value v e) :
    ∃ stack' w, collapse level stack v = .ok (stack', w) ∧
      List.Forall₂ Pending.Shows stack' (Expr.collapse level shown e).1 ∧
      Depicts .value w (Expr.collapse level shown e).2 := by
  induction hs generalizing v e with
  | nil => exact ⟨_, _, rfl, .nil, hv⟩
  | @cons pending p stack shown hp hs ih =>
    have hlevel : pending.level = Expr.levelOf p.operator := by
      rw [Pending.level, hp.1, Expr.levelOf]
    rw [collapse, Expr.collapse, hlevel]
    split
    · obtain ⟨w, hw, hd⟩ := depicts_join hp hv
      obtain ⟨stack', u, hu, hs', hd'⟩ := ih hd
      exact ⟨stack', u, by rw [hw]; exact hu, hs', hd'⟩
    · exact ⟨_, _, rfl, .cons hp hs, hv⟩

theorem depicts_foldFrom {operations : List (String × Value)} {shown : List (String × Expr)}
    (ho : List.Forall₂ ShowsOperation operations shown) {stack : List Pending}
    {waiting : List Expr.Pending} (hs : List.Forall₂ Pending.Shows stack waiting) {v : Value}
    {e : Expr} (hv : Depicts .value v e) :
    ∃ w, foldFrom stack v operations = .ok w ∧
      Depicts .value w
        (Expr.collapse 0 (shown.foldl Expr.feed (waiting, e)).1
          (shown.foldl Expr.feed (waiting, e)).2).2 := by
  induction ho generalizing stack waiting v e with
  | nil =>
    obtain ⟨stack', w, hw, _, hd⟩ := depicts_collapse 0 hs hv
    exact ⟨w, by rw [foldFrom, hw]; rfl, hd⟩
  | @cons operation o operations shown hop _ ih =>
    obtain ⟨operator, right⟩ := operation
    obtain ⟨rfl, hsym, hright⟩ := hop
    obtain ⟨level, hlevel⟩ : ∃ level, precedence? o.1 = some level := by
      have hall : ∀ s ∈ infixSymbols, (precedence? s).isSome := by decide
      exact Option.isSome_iff_exists.mp (hall o.1 hsym)
    have hof : Expr.levelOf o.1 = level := by rw [Expr.levelOf, hlevel]; rfl
    obtain ⟨stack', w, hw, hs', hd⟩ := depicts_collapse level hs hv
    have hpush : Pending.Shows ⟨w, o.1⟩ ⟨(Expr.collapse level waiting e).2, o.1⟩ :=
      ⟨rfl, hsym, hd⟩
    obtain ⟨u, hu, hdu⟩ := ih (.cons hpush hs') hright
    refine ⟨u, ?_, ?_⟩
    · simp only [foldFrom, hlevel]
      rw [hw]
      exact hu
    · rw [List.foldl_cons, Expr.feed, hof]
      exact hdu

/-- Folding trees yields a tree of the folded expression. -/
theorem depicts_fold {operations : List (String × Value)} {shown : List (String × Expr)}
    (ho : List.Forall₂ ShowsOperation operations shown) {v : Value} {e : Expr}
    (hv : Depicts .value v e) :
    ∃ w, fold v operations = .ok w ∧ Depicts .value w (Expr.fold e shown) :=
  depicts_foldFrom ho .nil hv

end Precedence

end GatedExpr
