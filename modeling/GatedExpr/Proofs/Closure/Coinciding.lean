import Mathlib.Data.List.Forall2
import GatedExpr.Closure.Basic
import GatedExpr.Proofs.Computation

/-! # Computations that coincide

Two computations coincide if they lead to the same state, and to related results or failures of
the same fault: only the nodes that the failures are about may differ. Closures coincide that are
put together in the same way from closures that do, whichever nodes they are about.
-/

namespace GatedExpr

open GatedExpr.Computation

/-- Failures of one fault, whatever nodes they are about. -/
def SameFault (failure other : Failure) : Prop :=
  failure.fault = other.fault

/-- The same state, and related results or failures of the same fault. -/
def Coincide {σ α β : Type} (R : α → β → Prop) (act : ExceptT Failure (StateM σ) α)
    (other : ExceptT Failure (StateM σ) β) : Prop :=
  ∀ s, Agree SameFault R (act.run s).1 (other.run s).1 ∧ (act.run s).2 = (other.run s).2

namespace Coincide

variable {σ α α' β β' : Type} {R : α → α' → Prop} {S : β → β' → Prop}
  {act : ExceptT Failure (StateM σ) α} {other : ExceptT Failure (StateM σ) α'}

theorem self (act : ExceptT Failure (StateM σ) α) : Coincide Eq act act := by
  intro s
  refine ⟨?_, rfl⟩
  cases (act.run s).1 with
  | ok a => exact .ok rfl
  | error failure => exact .error rfl

theorem pure {a : α} {b : α'} (h : R a b) :
    Coincide R (Pure.pure a : ExceptT Failure (StateM σ) α) (Pure.pure b) :=
  fun _ => ⟨.ok h, rfl⟩

theorem bind {f : α → ExceptT Failure (StateM σ) β} {g : α' → ExceptT Failure (StateM σ) β'}
    (h : Coincide R act other) (hf : ∀ a b, R a b → Coincide S (f a) (g b)) :
    Coincide S (act >>= f) (other >>= g) := by
  intro s
  have hrun := h s
  rw [run_bind, run_bind]
  revert hrun
  obtain ⟨r, s₁⟩ := act.run s
  obtain ⟨r', s₁'⟩ := other.run s
  rintro ⟨hr, rfl⟩
  cases hr with
  | ok hab => exact hf _ _ hab s₁
  | error he => exact ⟨.error he, rfl⟩

/-- Equal results are passed on. -/
theorem andThen {act' : ExceptT Failure (StateM σ) α} {f : α → ExceptT Failure (StateM σ) β}
    {g : α → ExceptT Failure (StateM σ) β'} (h : Coincide Eq act act')
    (hf : ∀ a, Coincide S (f a) (g a)) : Coincide S (act >>= f) (act' >>= g) := by
  refine h.bind fun a b hab => ?_
  subst hab
  exact hf a

theorem located {act : Eval α} {other : Eval α'} (node node' : Node) (h : Coincide R act other) :
    Coincide R (Eval.located node act) (Eval.located node' other) := by
  intro w
  have hrun := h w
  rw [Eval.run_located, Eval.run_located]
  revert hrun
  obtain ⟨r, w₁⟩ := act.run w
  obtain ⟨r', w₁'⟩ := other.run w
  rintro ⟨hr, rfl⟩
  cases hr with
  | ok hab => exact ⟨.ok hab, rfl⟩
  | error he => exact ⟨.error he, rfl⟩

end Coincide

namespace Closure

/-- Both closures do the same on all bindings and options. -/
def Coincides (closure other : Closure) : Prop :=
  ∀ env, Coincide Eq (closure env) (other env)

namespace Coincides

variable {f f' g g' h h' : Closure} {fs fs' : List Closure}

theorem self (closure : Closure) : Coincides closure closure :=
  fun env => .self (closure env)

theorem lookup (node node' : Node) (name : Value) :
    Coincides (Closure.lookup node name) (Closure.lookup node' name) :=
  fun _ => .located node node' (.self _)

theorem choice (hf : Coincides f f') (hg : Coincides g g') (hh : Coincides h h') :
    Coincides (Closure.choice f g h) (Closure.choice f' g' h') := by
  intro env
  refine (hf env).andThen fun v => (Coincide.self _).andThen fun truthy => ?_
  split
  · exact hg env
  · exact hh env

theorem logical (operator : LogicalOperator) (hf : Coincides f f') (hg : Coincides g g') :
    Coincides (Closure.logical operator f g) (Closure.logical operator f' g') := by
  intro env
  refine (hf env).andThen fun v => (Coincide.self _).andThen fun truthy => ?_
  split
  · exact hg env
  · exact .self _

theorem binary (operator : BinaryOperator) (hf : Coincides f f') (hg : Coincides g g') :
    Coincides (Closure.binary operator f g) (Closure.binary operator f' g') :=
  fun env => (hf env).andThen fun _ => (hg env).andThen fun _ => .self _

theorem unary (operator : UnaryOperator) (hf : Coincides f f') :
    Coincides (Closure.unary operator f) (Closure.unary operator f') :=
  fun env => (hf env).andThen fun _ => .self _

theorem mapM (h : List.Forall₂ Coincides fs fs') (env : Env) :
    Coincide Eq (fs.mapM (· env)) (fs'.mapM (· env)) := by
  induction h with
  | nil => exact .self _
  | cons hf _ ih =>
    simp only [List.mapM_cons]
    exact (hf env).andThen fun _ => ih.andThen fun _ => .self _

theorem array (h : List.Forall₂ Coincides fs fs') :
    Coincides (Closure.array fs) (Closure.array fs') :=
  fun env => (mapM h env).andThen fun _ => .self _

theorem property (hf : Coincides f f') (hg : Coincides g g') :
    Coincides (Closure.property f g) (Closure.property f' g') :=
  fun env => (hf env).andThen fun _ => (hg env).andThen fun _ => .self _

theorem addEntry (h : Coincides f f') (env : Env) (entries : List (String × Value)) :
    Coincide Eq (Closure.addEntry env entries f) (Closure.addEntry env entries f') :=
  (h env).andThen fun _ => .self _

theorem foldlM (h : List.Forall₂ Coincides fs fs') (env : Env) (entries : List (String × Value)) :
    Coincide Eq (fs.foldlM (Closure.addEntry env) entries)
      (fs'.foldlM (Closure.addEntry env) entries) := by
  induction h generalizing entries with
  | nil => exact .self _
  | cons hf _ ih =>
    simp only [List.foldlM_cons]
    exact (hf.addEntry env entries).andThen ih

theorem object (h : List.Forall₂ Coincides fs fs') :
    Coincides (Closure.object fs) (Closure.object fs') :=
  fun env => (foldlM h env []).andThen fun _ => .self _

theorem member (node node' : Node) (hf : Coincides f f') (hg : Coincides g g') :
    Coincides (Closure.member node f g) (Closure.member node' f' g') :=
  fun env => (hf env).andThen fun _ =>
    .located node node' ((hg env).andThen fun _ => .self _)

theorem call (node node' : Node) (function : Function) {receiver receiver' : Option Closure}
    (hr : List.Forall₂ Coincides receiver.toList receiver'.toList)
    (h : List.Forall₂ Coincides fs fs') :
    Coincides (Closure.call node function receiver fs)
      (Closure.call node' function receiver' fs') :=
  fun env => (mapM (List.rel_append hr h) env).andThen fun _ => .located node node' (.self _)

end Coincides

end Closure

end GatedExpr
