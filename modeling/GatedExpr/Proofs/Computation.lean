import Mathlib.Tactic.Basic
import GatedExpr.Gate.Basic

/-! # Running computations

Evaluations and passes through the gate both carry a state and may fail, and both keep the state
when they fail. How they run is told here for either.
-/

namespace GatedExpr.Computation

variable {ε σ α β : Type}

theorem run_pure (a : α) (s : σ) : (pure a : ExceptT ε (StateM σ) α).run s = (.ok a, s) :=
  rfl

theorem run_bind (act : ExceptT ε (StateM σ) α) (f : α → ExceptT ε (StateM σ) β) (s : σ) :
    (act >>= f).run s =
      match act.run s with
      | (.ok a, s₁) => (f a).run s₁
      | (.error e, s₁) => (.error e, s₁) := by
  simp only [Bind.bind, ExceptT.bind, ExceptT.mk, ExceptT.run, StateT.bind]
  cases act s with
  | mk r s₁ => cases r <;> rfl

theorem run_bind_eq_ok {act : ExceptT ε (StateM σ) α} {f : α → ExceptT ε (StateM σ) β} {s s₂ : σ}
    {b : β} :
    (act >>= f).run s = (.ok b, s₂) ↔
      ∃ a s₁, act.run s = (.ok a, s₁) ∧ (f a).run s₁ = (.ok b, s₂) := by
  rw [run_bind]
  constructor
  · intro h
    split at h
    · next a s₁ hr => exact ⟨a, s₁, hr, h⟩
    · cases h
  · rintro ⟨a, s₁, hr, h⟩
    rw [hr]
    exact h

theorem except_bind_eq_ok {r : Except ε α} {f : α → Except ε β} {b : β} :
    (r >>= f) = .ok b ↔ ∃ a, r = .ok a ∧ f a = .ok b := by
  cases r <;> simp [bind, Except.bind]

/-- Both succeed with related results, or both fail with related errors. -/
inductive Agree {ε ε' α β : Type} (E : ε → ε' → Prop) (R : α → β → Prop) :
    Except ε α → Except ε' β → Prop where
  | ok {a : α} {b : β} : R a b → Agree E R (.ok a) (.ok b)
  | error {e : ε} {e' : ε'} : E e e' → Agree E R (.error e) (.error e')

namespace Agree

variable {ε ε' α α' β β' : Type} {E : ε → ε' → Prop} {R : α → α' → Prop} {S : β → β' → Prop}
  {r : Except ε α} {r' : Except ε' α'}

theorem bind {f : α → Except ε β} {g : α' → Except ε' β'} (h : Agree E R r r')
    (hf : ∀ a a', R a a' → Agree E S (f a) (g a')) : Agree E S (r >>= f) (r' >>= g) := by
  cases h with
  | ok ha => exact hf _ _ ha
  | error he => exact .error he

theorem map {f : α → β} {g : α' → β'} (h : Agree E R r r')
    (hf : ∀ a a', R a a' → S (f a) (g a')) : Agree E S (f <$> r) (g <$> r') := by
  cases h with
  | ok ha => exact .ok (hf _ _ ha)
  | error he => exact .error he

/-- A computation agrees with itself if its results are related to themselves. -/
theorem self {R : α → α → Prop} {r : Except ε α} (h : ∀ a, r = .ok a → R a a) :
    Agree Eq R r r := by
  cases r with
  | ok a => exact .ok (h a rfl)
  | error e => exact .error rfl

end Agree

end GatedExpr.Computation

namespace GatedExpr

theorem Eval.run_fail {α : Type} (fault : Fault) (w : World) :
    (fail fault : Eval α).run w = (.error (.bare fault), w) :=
  rfl

theorem Eval.run_located {α : Type} (node : Node) (act : Eval α) (w : World) :
    (located node act).run w =
      match act.run w with
      | (.ok a, w₁) => (.ok a, w₁)
      | (.error e, w₁) => (.error (e.locate node), w₁) := by
  simp only [located, tryCatch, tryCatchThe, MonadExceptOf.tryCatch, ExceptT.tryCatch, ExceptT.mk,
    Bind.bind, ExceptT.run, StateT.bind]
  cases act w with
  | mk r w₁ => cases r <;> rfl

theorem Gate.run_ofExcept_eq_ok {α : Type} {r : Except Fault α} {a : α} {s s₁ : List Warning} :
    (ofExcept r).run s = (.ok a, s₁) ↔ r = .ok a ∧ s₁ = s := by
  cases r with
  | ok b =>
    change ((.ok b, s) : Except Failure α × List Warning) = (.ok a, s₁) ↔ _
    simp [eq_comm]
  | error fault =>
    change ((.error (.bare fault), s) : Except Failure α × List Warning) = (.ok a, s₁) ↔ _
    simp

end GatedExpr
