import GatedExpr.Gate.Basic
import GatedExpr.Proofs.Computation
import GatedExpr.Proofs.Node

/-! # Passing the gate

What a computation in the gate yields does not depend on the warnings that were given before, and
it satisfies whatever each of its steps ensures.
-/

namespace GatedExpr

open GatedExpr.Computation

/-- The computation ends in the same way whatever the warnings before it are, and leaves the same
warnings behind them. What it yields, if anything, satisfies `P`. -/
def Gate.Yields {α : Type} (act : Gate α) (P : α → Prop) : Prop :=
  ∃ r more, (∀ ws, act.run ws = (r, ws ++ more)) ∧ ∀ a, r = .ok a → P a

namespace Gate.Yields

variable {α β : Type} {act : Gate α} {f : α → Gate β} {P Q : α → Prop} {S : β → Prop}

theorem pure {a : α} (h : P a) : Yields (Pure.pure a) P :=
  ⟨.ok a, [], fun ws => by rw [List.append_nil]; rfl, fun _ he => by cases he; exact h⟩

theorem failAt {node : Option Node} {fault : Fault} : Yields (Gate.failAt node fault) P :=
  ⟨.error ⟨fault, node⟩, [], fun ws => by rw [List.append_nil]; rfl, nofun⟩

theorem fail {fault : Fault} : Yields (Gate.fail fault) P :=
  failAt

theorem mono (h : Yields act P) (hP : ∀ a, P a → Q a) : Yields act Q := by
  obtain ⟨r, more, hrun, ha⟩ := h
  exact ⟨r, more, hrun, fun a he => hP a (ha a he)⟩

theorem bind (h : Yields act P) (hf : ∀ a, P a → Yields (f a) S) : Yields (act >>= f) S := by
  obtain ⟨r, more, hrun, ha⟩ := h
  cases r with
  | error failure =>
    refine ⟨.error failure, more, fun ws => ?_, nofun⟩
    rw [run_bind, hrun]
  | ok a =>
    obtain ⟨r, rest, hrest, hb⟩ := hf a (ha a rfl)
    refine ⟨r, more ++ rest, fun ws => ?_, hb⟩
    rw [run_bind, hrun, ← List.append_assoc]
    exact hrest _

theorem read (r : Except Fault α) : Yields (ofExcept r) fun a => r = .ok a := by
  cases r with
  | ok a => exact pure rfl
  | error fault => exact fail

theorem get (node : Node) (name : String) :
    Yields (ofExcept (node.get name)) fun part => node.field? name = some part.1 :=
  (read _).mono fun _ h => Node.get_eq_ok.mp h

theorem warn {warning : Warning} : Yields (Gate.warn warning) fun _ => True :=
  ⟨.ok (), [warning], fun _ => rfl, fun _ _ => trivial⟩

theorem of_run (h : Yields act P) {a : α} {ws ws' : List Warning}
    (hrun : act.run ws = (.ok a, ws')) : P a := by
  obtain ⟨r, more, hr, ha⟩ := h
  rw [hr] at hrun
  exact ha a (congrArg Prod.fst hrun)

end Gate.Yields

theorem Gate.find?_eq_some {α : Type} {table : List (String × α)} {name : Value} {found : α} :
    find? table name = .ok (some found) ↔ ∃ s, name = .text s ∧ table.lookup s = some found := by
  cases name <;> simp [find?] <;> split <;> simp

theorem Gate.yields_find? {α : Type} (table : List (String × α)) (name : Value) :
    Yields (ofExcept (find? table name)) fun found? =>
      ∀ found, found? = some found → ∃ s, name = .text s ∧ table.lookup s = some found :=
  (Yields.read _).mono fun _ h _ he => find?_eq_some.mp (he ▸ h)

namespace Whitelist

variable {whitelist : Whitelist}

/-- A root that is allowed is an object of the whitelist. -/
theorem yields_objectRoot (name : Value) (node : Option Node) :
    (whitelist.objectRoot name node).Yields fun accessor =>
      ∃ s, name = .text s ∧ whitelist.objects.lookup s = some accessor := by
  refine (Gate.yields_find? whitelist.objects name).bind fun found? hfound => ?_
  cases found? with
  | some accessor => exact .pure (hfound accessor rfl)
  | none => exact Gate.Yields.warn.bind fun _ _ => .failAt

/-- A callee that is allowed is a function of the whitelist. -/
theorem yields_callee (signature : Value) (call : Node) :
    (whitelist.callee signature call).Yields fun function =>
      ∃ s, signature = .text s ∧ whitelist.callees.lookup s = some function := by
  refine (Gate.yields_find? whitelist.callees signature).bind fun found? hfound => ?_
  cases found? with
  | some function => exact .pure (hfound function rfl)
  | none => exact Gate.Yields.warn.bind fun _ _ => .failAt

end Whitelist

end GatedExpr
