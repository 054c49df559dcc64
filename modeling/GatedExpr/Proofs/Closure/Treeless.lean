import GatedExpr.Proofs.Closure.Blame
import GatedExpr.Proofs.Closure.Composition
import GatedExpr.Proofs.Expr.WellFormed
import GatedExpr.Proofs.Value.Treeless

/-! # Evaluations that yield no trees

Trees evaluate to treeless values if their bindings are treeless and if the objects and functions
of the whitelist yield no trees. What a literal stands for is no tree itself.
-/

namespace GatedExpr

open GatedExpr.Computation Semantics

/-- No tree is bound. -/
def Env.Treeless (env : Env) : Prop :=
  Value.EntriesTreeless env.bindings

/-! ## Computations -/

namespace Eval

variable {α β : Type} {P : α → Prop} {Q : β → Prop} {act : Eval α}

/-- What the computation yields has the property, in whichever world it runs. -/
def Yields (P : α → Prop) (act : Eval α) : Prop :=
  ∀ world a, (act.run world).1 = .ok a → P a

namespace Yields

theorem pure {a : α} (h : P a) : Yields P (Pure.pure a) := by
  rintro world _ ⟨⟩
  exact h

theorem throw {failure : Failure} : Yields P (MonadExcept.throw failure) :=
  fun _ => nofun

theorem fail {fault : Fault} : Yields P (Eval.fail fault) :=
  throw

theorem any : Yields (fun _ => True) act :=
  fun _ _ _ => trivial

theorem bind {f : α → Eval β} (h : Yields P act) (hf : ∀ a, P a → Yields Q (f a)) :
    Yields Q (act >>= f) := by
  intro world b hb
  obtain ⟨a, next, hrun, hrest⟩ := run_bind_eq_ok.mp (Prod.ext hb rfl)
  exact hf a (h world a (congrArg Prod.fst hrun)) next b (congrArg Prod.fst hrest)

theorem ofExcept {r : Except Fault α} (h : ∀ a, r = .ok a → P a) : Yields P (Eval.ofExcept r) := by
  cases r with
  | ok a => exact pure (h a rfl)
  | error fault => exact fail

theorem ofNumeric {r : Except NumberFault α} (h : ∀ a, r = .ok a → P a) :
    Yields P (Eval.ofNumeric r) := by
  cases r with
  | ok a => exact pure (h a rfl)
  | error cause => exact fail

theorem located (node : Node) (h : Yields P act) : Yields P (Eval.located node act) := by
  intro world a ha
  have hrun := h world a
  rw [run_located] at ha
  revert ha hrun
  obtain ⟨r, next⟩ := act.run world
  cases r with
  | ok b => exact fun ha hrun => hrun ha
  | error failure => exact nofun

theorem settle {v : Value} (h : v.Treeless) : Yields Value.Treeless (Eval.settle v) := by
  rintro world _ ⟨⟩
  exact h.adopt v world.nextId

theorem newList {items : List Value} (h : Value.EachTreeless items) :
    Yields Value.Treeless (Eval.newList items) :=
  settle h

end Yields

end Eval

/-! ## Closures -/

/-- Evaluations yield no trees if none is bound. -/
def Closure.YieldsNoTrees (closure : Closure) : Prop :=
  ∀ env : Env, env.Treeless → (closure env).Yields Value.Treeless

/-- The function makes no trees of arguments without any. -/
def Function.YieldsNoTrees (function : Function) : Prop :=
  ∀ arguments, Value.EachTreeless arguments → (function.apply arguments).Yields Value.Treeless

/-- The objects and functions of the whitelist make no trees. -/
structure Whitelist.YieldsNoTrees (whitelist : Whitelist) : Prop where
  objects : ∀ entry ∈ whitelist.objects, Closure.YieldsNoTrees entry.2
  callees : ∀ entry ∈ whitelist.callees, entry.2.YieldsNoTrees

namespace Closure.YieldsNoTrees

open Eval.Yields

variable {env : Env} {first second : Closure} {closures : List Closure}

theorem constant {value : Value} (h : value.Treeless) : YieldsNoTrees (Closure.constant value) :=
  fun _ _ => settle h

theorem lookup (node : Node) (name : Value) : YieldsNoTrees (Closure.lookup node name) := by
  intro env henv
  refine located node ?_
  unfold Accessor.fromBindings
  split
  · split
    · next hl => exact pure (henv.lookup hl)
    · exact fail
  · exact fail

theorem each (h : ∀ closure ∈ closures, YieldsNoTrees closure) (henv : env.Treeless) :
    Eval.Yields Value.EachTreeless (closures.mapM (· env)) := by
  induction closures with
  | nil => exact pure trivial
  | cons closure closures ih =>
    obtain ⟨hfirst, hrest⟩ := List.forall_mem_cons.mp h
    simp only [List.mapM_cons]
    exact bind (hfirst env henv) fun _ hv => bind (ih hrest) fun _ hvs => pure ⟨hv, hvs⟩

theorem addEntries (h : ∀ closure ∈ closures, YieldsNoTrees closure) (henv : env.Treeless)
    {entries : List (String × Value)} (hentries : Value.EntriesTreeless entries) :
    Eval.Yields Value.EntriesTreeless (closures.foldlM (Closure.addEntry env) entries) := by
  induction closures generalizing entries with
  | nil => exact pure hentries
  | cons closure closures ih =>
    obtain ⟨hfirst, hrest⟩ := List.forall_mem_cons.mp h
    simp only [List.foldlM_cons]
    refine bind (P := Value.EntriesTreeless) ?_ fun more hmore => ih hrest hmore
    refine bind (hfirst env henv) fun v hv => ?_
    exact bind (ofExcept fun _ hpair => hv.asPair hpair) fun _ hvalue =>
      pure (hentries.set hvalue _)

theorem call (node : Node) {function : Function} (hf : function.YieldsNoTrees)
    {receiver : Option Closure}
    (h : ∀ closure ∈ receiver.toList ++ closures, YieldsNoTrees closure) :
    YieldsNoTrees (Closure.call node function receiver closures) := by
  intro env henv
  refine bind (each h henv) fun values hvalues => located node ?_
  have hcall : (function.call values).Yields Value.Treeless :=
    bind any fun _ _ => hf values hvalues
  exact bind hcall fun _ hv => settle hv

theorem compositional : Closure.Compositional YieldsNoTrees where
  choice ht hc ha := by
    intro env henv
    refine bind (ht env henv) fun _ _ => bind any fun _ _ => ?_
    split
    · exact hc env henv
    · exact ha env henv
  logical operator _ _ hl hr := by
    intro env henv
    refine bind (hl env henv) fun v hv => bind any fun _ _ => ?_
    split
    · exact hr env henv
    · exact pure hv
  binary operator _ _ hl hr := fun env henv =>
    bind (hl env henv) fun _ _ => bind (hr env henv) fun _ _ =>
      bind (ofNumeric fun _ h => Value.treeless_binary h) fun _ h => settle h
  unary operator _ ha := fun env henv =>
    bind (ha env henv) fun _ _ =>
      bind (ofNumeric fun _ h => Value.treeless_unary h) fun _ h => settle h
  array h := fun env henv => bind (each h henv) fun _ hvs => newList hvs
  map h := fun env henv => bind (addEntries h henv trivial) fun _ hes => settle hes
  property hk hv := fun env henv =>
    bind (hk env henv) fun _ hkey => bind (hv env henv) fun _ hvalue =>
      settle ⟨hkey, hvalue, trivial⟩
  member node _ _ ht hk := fun env henv =>
    bind (ht env henv) fun _ hv => located node <| bind (hk env henv) fun _ _ =>
      bind (ofExcept fun _ h => hv.getMember h) fun _ h => settle h

end Closure.YieldsNoTrees

/-! ## Compiled trees -/

namespace Semantics

variable {whitelist : Whitelist} {P : Node → Prop} {task part : Task} {path : Path}

/-- All nodes of the task have the property. -/
def Task.AllNodes (P : Node → Prop) : Task → Prop
  | .node path => (Value.ofTree path.node).AllNodes P
  | .hole | .object _ => True

theorem Task.allNodes_of_mem_ofItems {slot : String} {parts : Value} (h : parts.AllNodes P)
    (hm : part ∈ Task.ofItems path slot parts) : part.AllNodes P := by
  rcases Task.mem_ofItems hm with rfl | ⟨id, items, other, tree, hparts, hitem, rfl⟩
  · trivial
  · have htree : (Value.node other tree).AllNodes P := by
      rcases hparts with rfl | rfl
      · exact fun inner hi => h inner (.item hitem hi)
      · exact fun inner hi => h inner (.entry hitem hi)
    exact htree.node_id _

theorem Task.Root.allNodes {slot : String} {target : Value} (h : Task.Root path slot target part)
    (ht : target.AllNodes P) : part.AllNodes P := by
  cases h with
  | object => trivial
  | node => exact ht.node_id _

theorem PartOf.allNodes (h : PartOf whitelist task part) (ht : task.AllNodes P) :
    part.AllNodes P := by
  cases h with
  | slot _ _ hp =>
    obtain ⟨id, tree, hf, rfl⟩ := hp
    exact (Value.AllNodes.field ht hf).node_id _
  | item _ _ hf hm => exact Task.allNodes_of_mem_ofItems (Value.AllNodes.field ht hf) hm
  | root _ ho hroot => exact hroot.allNodes (Value.AllNodes.field ht ho)
  | operand _ hcalls hm =>
    cases hcalls with
    | name _ _ _ _ ha => exact Task.allNodes_of_mem_ofItems (Value.AllNodes.field ht ha) hm
    | ofCustom _ _ _ ha => exact Task.allNodes_of_mem_ofItems (Value.AllNodes.field ht ha) hm
    | method hmethod _ _ hroot ha =>
      rcases List.mem_cons.mp hm with rfl | hm
      · obtain ⟨callee, _, _, _, hc, _, _, _, _, _, _, hobject⟩ := hmethod
        exact hroot.allNodes ((Value.AllNodes.field ht hc).part hobject)
      · exact Task.allNodes_of_mem_ofItems (Value.AllNodes.field ht ha) hm

theorem Reaches.allNodes (h : Reaches whitelist task part) (ht : task.AllNodes P) :
    part.AllNodes P := by
  induction h with
  | refl => exact ht
  | tail _ hp ih => exact hp.allNodes ih

end Semantics

/-! ## Trees of the expression grammar -/

end GatedExpr
