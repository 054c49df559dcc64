import GatedExpr.Proofs.Closure.RunsAlike
import GatedExpr.Proofs.Value.Bounds

/-! # Evaluations without effects

A function has no effects if what it does depends on its arguments only, and if whatever it yields
is made of them and of identities that were handed out. Trees that use no other functions evaluate
to values made of their bindings and of new identities.
-/

namespace GatedExpr

open GatedExpr.Computation Semantics

/-- All identities in the bindings and options have been handed out when `n` is the next one. -/
def Env.Below (n : Identity) (env : Env) : Prop :=
  ∀ i ∈ env.ids, i < n

theorem Env.Below.mono {n m : Identity} {env : Env} (h : env.Below n) (hle : n ≤ m) : env.Below m :=
  fun i hm => Nat.lt_of_lt_of_le (h i hm) hle

/-! ## Handing out identities -/

namespace Eval

variable {α β : Type} {n : Identity} {P : Identity → α → Prop} {Q : Identity → β → Prop}
  {act : Eval α}

/-- From a world in which `n` is the next identity, the computation takes none back, and what it
yields has the property for the one that is next then. -/
def HandsOut (n : Identity) (P : Identity → α → Prop) (act : Eval α) : Prop :=
  ∀ world, world.nextId = n → n ≤ (act.run world).2.nextId ∧
    ∀ a, (act.run world).1 = .ok a → P (act.run world).2.nextId a

namespace HandsOut

theorem pure {a : α} (h : P n a) : HandsOut n P (Pure.pure a) := by
  rintro world rfl
  refine ⟨Nat.le_refl _, ?_⟩
  rintro _ ⟨⟩
  exact h

theorem throw {failure : Failure} : HandsOut n P (MonadExcept.throw failure) := by
  rintro world rfl
  exact ⟨Nat.le_refl _, nofun⟩

theorem fail {fault : Fault} : HandsOut n P (Eval.fail fault) :=
  throw

theorem bind {f : α → Eval β} (h : HandsOut n P act)
    (hf : ∀ m a, n ≤ m → P m a → HandsOut m Q (f a)) : HandsOut n Q (act >>= f) := by
  intro world hn
  obtain ⟨hle, hok⟩ := h world hn
  rw [run_bind]
  revert hle hok
  obtain ⟨r, next⟩ := act.run world
  intro hle hok
  cases r with
  | ok a =>
    obtain ⟨hle', hok'⟩ := hf _ a hle (hok a rfl) next rfl
    exact ⟨Nat.le_trans hle hle', hok'⟩
  | error failure => exact ⟨hle, nofun⟩

theorem ofExcept {r : Except Fault α} (h : ∀ a, r = .ok a → P n a) :
    HandsOut n P (Eval.ofExcept r) := by
  cases r with
  | ok a => exact pure (h a rfl)
  | error fault => exact fail

theorem ofNumeric {r : Except NumberFault α} (h : ∀ a, r = .ok a → P n a) :
    HandsOut n P (Eval.ofNumeric r) := by
  cases r with
  | ok a => exact pure (h a rfl)
  | error cause => exact fail

theorem truth {v : Value} : HandsOut n (fun _ _ => True) (Eval.ofNumeric v.isTruthy) :=
  ofNumeric fun _ _ => trivial

theorem located (node : Node) (h : HandsOut n P act) : HandsOut n P (Eval.located node act) := by
  intro world hn
  have hrun := h world hn
  rw [Eval.run_located]
  revert hrun
  obtain ⟨r, next⟩ := act.run world
  rintro ⟨hle, hok⟩
  cases r with
  | ok a => exact ⟨hle, hok⟩
  | error failure => exact ⟨hle, nofun⟩

theorem settle {v : Value} (h : v.Below n) : HandsOut n Value.Below (Eval.settle v) := by
  rintro world rfl
  refine ⟨Value.le_adopt v _, ?_⟩
  rintro _ ⟨⟩
  exact Value.below_adopt v _ h

theorem note (call : Call) : HandsOut n (fun _ _ => True) (Eval.note call) := by
  rintro world rfl
  exact ⟨Nat.le_refl _, fun _ _ => trivial⟩

end HandsOut

end Eval

/-! ## Closures -/

/-- Evaluations yield what is made of the bindings and options and of identities that are handed
out, once those below `n` are. -/
def Closure.HandsOut (n : Identity) (closure : Closure) : Prop :=
  ∀ m env, n ≤ m → env.Below m → (closure env).HandsOut m Value.Below

namespace Closure.HandsOut

open Eval.HandsOut

variable {n m : Identity} {env : Env} {node : Node} {first second third : Closure}
  {closures : List Closure}

theorem constant {value : Value} (h : value.Below n) : HandsOut n (Closure.constant value) :=
  fun _ _ hle _ => settle (h.mono hle)

theorem fromBindings (key : Value) : HandsOut n (Accessor.fromBindings key) := by
  intro m env _ henv
  unfold Accessor.fromBindings
  split
  · split
    · next hl =>
      exact pure fun i hm => henv i (List.mem_append_left _ (Value.ids_subset_of_lookup hl hm))
    · exact fail
  · exact fail

theorem lookup (node : Node) (name : Value) : HandsOut n (Closure.lookup node name) :=
  fun m env hle henv => located node (fromBindings name m env hle henv)

/-- The bindings and options stay below whatever identity comes next. -/
theorem later (h : HandsOut n first) (hle : n ≤ m) (henv : env.Below m) {k : Identity}
    (hk : m ≤ k) : (first env).HandsOut k Value.Below :=
  h k env (Nat.le_trans hle hk) (henv.mono hk)

theorem each (h : ∀ closure ∈ closures, HandsOut n closure) (hle : n ≤ m) (henv : env.Below m) :
    Eval.HandsOut m Value.EachBelow (closures.mapM (· env)) := by
  induction closures generalizing m with
  | nil =>
    simp only [List.mapM_nil]
    exact pure Value.eachBelow_nil
  | cons closure closures ih =>
    simp only [List.mapM_cons]
    obtain ⟨hfirst, hrest⟩ := List.forall_mem_cons.mp h
    refine bind (hfirst m env hle henv) fun k v hk hv => ?_
    refine bind (ih hrest (Nat.le_trans hle hk) (henv.mono hk)) fun l vs hl hvs => ?_
    exact pure (Value.eachBelow_cons.mpr ⟨hv.mono hl, hvs⟩)

theorem call (node : Node) {function : Function} {receiver : Option Closure}
    (hf : ∀ m arguments, n ≤ m → Value.EachBelow m arguments →
      (function.apply arguments).HandsOut m Value.Below)
    (h : ∀ closure ∈ receiver.toList ++ closures, HandsOut n closure) :
    HandsOut n (Closure.call node function receiver closures) := by
  intro m env hle henv
  refine bind (each h hle henv) fun k vs hk hvs => located node ?_
  have hcall : (function.call vs).HandsOut k Value.Below :=
    bind (note _) fun l _ hl _ => hf l vs (Nat.le_trans hle (Nat.le_trans hk hl)) fun i hm =>
      Nat.lt_of_lt_of_le (hvs i hm) hl
  exact bind hcall fun _ _ _ hv => settle hv

section

variable (hn : World.firstFreeId ≤ n)

include hn

theorem addEntry {entries : List (String × Value)} (h : HandsOut n first) (hle : n ≤ m)
    (henv : env.Below m) (hentries : Value.EntriesBelow m entries) :
    Eval.HandsOut m Value.EntriesBelow (Closure.addEntry env entries first) := by
  refine bind (h m env hle henv) fun k v hk hv => ?_
  have hpair (pair : Value × Value) (h : v.asPair = .ok pair) : pair.2.Below k :=
    (hv.asPair (Nat.le_trans hn (Nat.le_trans hle hk)) h).2
  refine bind (P := fun k (pair : Value × Value) => pair.2.Below k) (ofExcept hpair)
    fun l pair hl hvalue => ?_
  exact pure ((hentries.mono (Nat.le_trans hk hl)).set hvalue _)

theorem addEntries (h : ∀ closure ∈ closures, HandsOut n closure) (hle : n ≤ m)
    (henv : env.Below m) {entries : List (String × Value)}
    (hentries : Value.EntriesBelow m entries) :
    Eval.HandsOut m Value.EntriesBelow (closures.foldlM (Closure.addEntry env) entries) := by
  induction closures generalizing m entries with
  | nil => exact pure hentries
  | cons closure closures ih =>
    obtain ⟨hfirst, hrest⟩ := List.forall_mem_cons.mp h
    simp only [List.foldlM_cons]
    refine bind (hfirst.addEntry hn hle henv hentries) fun k more hk hmore => ?_
    exact ih hrest (Nat.le_trans hle hk) (henv.mono hk) hmore

theorem compositional : Closure.Compositional (HandsOut n) where
  choice ht hc ha := by
    intro m env hle henv
    refine bind (ht m env hle henv) fun k v hk _ => bind truth fun l _ hl _ => ?_
    split
    · exact hc.later hle henv (Nat.le_trans hk hl)
    · exact ha.later hle henv (Nat.le_trans hk hl)
  logical operator _ _ hl hr := by
    intro m env hle henv
    refine bind (hl m env hle henv) fun k v hk hv => bind truth fun l _ hl _ => ?_
    split
    · exact hr.later hle henv (Nat.le_trans hk hl)
    · exact pure (hv.mono hl)
  binary operator _ _ hl hr := by
    intro m env hle henv
    refine bind (hl m env hle henv) fun k v hk hv => ?_
    refine bind (hr.later hle henv hk) fun l w hl hw => ?_
    have hfree := Nat.le_trans hn (Nat.le_trans hle (Nat.le_trans hk hl))
    exact bind (ofNumeric fun _ h => (hv.mono hl).binary hfree hw h) fun _ _ _ h => settle h
  unary operator _ ha := by
    intro m env hle henv
    refine bind (ha m env hle henv) fun k v hk hv => ?_
    have hfree := Nat.le_trans hn (Nat.le_trans hle hk)
    exact bind (ofNumeric fun _ h => hv.unary hfree h) fun _ _ _ h => settle h
  array h := by
    intro m env hle henv
    refine bind (each h hle henv) fun k vs hk hvs => settle ?_
    exact Value.Below.list (Nat.le_trans hn (Nat.le_trans hle hk)) hvs
  map h := by
    intro m env hle henv
    refine bind (addEntries hn h hle henv Value.entriesBelow_nil) fun k es hk hes => settle ?_
    exact Value.Below.map (Nat.le_trans hn (Nat.le_trans hle hk)) hes
  property hk hv := by
    intro m env hle henv
    refine bind (hk m env hle henv) fun k v hk hkey => ?_
    refine bind (hv.later hle henv hk) fun l w hl hw => settle ?_
    have hfree := Nat.le_trans hn (Nat.le_trans hle (Nat.le_trans hk hl))
    have hboth : Value.EachBelow l [v, w] :=
      Value.eachBelow_cons.mpr ⟨hkey.mono hl, Value.eachBelow_cons.mpr ⟨hw, Value.eachBelow_nil⟩⟩
    exact Value.Below.tuple hfree hboth
  member node _ _ ht hk := by
    intro m env hle henv
    refine bind (ht m env hle henv) fun k v hkm hv => located node ?_
    refine bind (hk.later hle henv hkm) fun l w hl hw => ?_
    have hfree := Nat.le_trans hn (Nat.le_trans hle (Nat.le_trans hkm hl))
    exact bind (ofExcept fun _ h => (hv.mono hl).getMember hfree hw h) fun _ _ _ h => settle h

end

end Closure.HandsOut

/-! ## Functions without effects -/

/-- Every identity below `n` stands for itself, and otherwise the runs may differ in all that the
worlds hold. -/
structure Correspondence.KeepsBelow (c : Correspondence) (n : Identity) : Prop where
  same : ∀ id < n, c.same id id
  hidesNothing : ∀ name, ¬ c.hidden name
  seeds : ∀ seed other, c.seeds seed other

/-- What the accessor yields depends on the bindings and options only, up to the identities of new
values. -/
structure Accessor.HasNoEffects (n : Identity) (accessor : Accessor) : Prop where
  respects : ∀ c : Correspondence, c.KeepsBelow n → c.Respects accessor
  handsOut : Closure.HandsOut n accessor

/-- What the function yields depends on its arguments only, up to the identities of new values:
neither on random numbers, nor on the calls that were made, nor on how many identities were handed
out. -/
structure Function.HasNoEffects (n : Identity) (function : Function) : Prop where
  respects : ∀ c : Correspondence, c.KeepsBelow n → c.RespectsCalls function
  handsOut : ∀ m arguments, n ≤ m → Value.EachBelow m arguments →
    (function.apply arguments).HandsOut m Value.Below

/-- Nothing that evaluating the task may use has effects. -/
structure Whitelist.HasNoEffectsFor (n : Identity) (whitelist : Whitelist) (task : Task) :
    Prop where
  objects : ∀ name accessor, Reaches whitelist task (.object name) →
    whitelist.objects.lookup name = some accessor → accessor.HasNoEffects n
  callees : ∀ path function tasks, Reaches whitelist task (.node path) →
    Calls whitelist path function tasks → function.HasNoEffects n

namespace Whitelist.HasNoEffectsFor

variable {n : Identity} {whitelist : Whitelist} {task : Task}

theorem respectsFor (h : whitelist.HasNoEffectsFor n task) {c : Correspondence}
    (hc : c.KeepsBelow n) : c.RespectsFor whitelist task where
  objects name accessor hreached hl := (h.objects name accessor hreached hl).respects c hc
  callees path function tasks hreached hcalls :=
    (h.callees path function tasks hreached hcalls).respects c hc

theorem handsOut (h : whitelist.HasNoEffectsFor n task) (hn : World.firstFreeId ≤ n)
    {closure : Closure} (hcompiled : CompiledFrom whitelist closure task)
    (hids : ∀ id ∈ task.ids, id < n) : closure.HandsOut n := by
  refine hcompiled.satisfies (Closure.HandsOut.compositional hn)
    ⟨?constant, ?lookup, ?object, ?call⟩
  case constant => exact fun value hv => .constant fun id hm => hids id (hv.ids_subset hm)
  case lookup => exact fun path name _ _ _ _ => .lookup path.node name
  case object =>
    exact fun name accessor hreached hl => (h.objects name accessor hreached hl).handsOut
  case call =>
    intro path function tasks receiver closures hreached hcalls hparts
    have hf := (h.callees path function tasks hreached hcalls).handsOut
    exact .call path.node hf hparts

end Whitelist.HasNoEffectsFor

end GatedExpr
