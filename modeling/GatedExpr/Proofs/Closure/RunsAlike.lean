import Mathlib.Data.List.Forall2
import GatedExpr.Proofs.Closure.Composition
import GatedExpr.Proofs.Value.AlikeMembers

/-! # Runs alike

Two evaluations run alike if corresponding worlds take them to corresponding worlds and to
outcomes that are alike. Whatever a tree compiles to runs alike on alike bindings and options,
provided that the functions and objects of the whitelist do.
-/

namespace GatedExpr

open GatedExpr.Computation Semantics

/-- The identities of the bindings and options. -/
def Env.ids (env : Env) : List Identity :=
  Value.idsEntries env.bindings ++ Value.idsEach env.options

namespace Correspondence

variable {c : Correspondence} {α α' β β' : Type}

/-! ## Worlds and computations -/

structure AlikeCall (c : Correspondence) (call other : Call) : Prop where
  function : call.function = other.function
  arguments : c.AlikeEach call.arguments other.arguments

/-- The worlds will hand out corresponding identities, none of which is built in, and the calls
that were made since the start are alike. -/
structure Worlds (c : Correspondence) (world other : World) : Prop where
  free : World.firstFreeId ≤ world.nextId
  fresh : c.Fresh world.nextId other.nextId
  seeds : c.seeds world.seed other.seed
  calls : ∃ made others, world.calls = made ++ c.calls ∧ other.calls = others ++ c.otherCalls ∧
    List.Forall₂ c.AlikeCall made others

def RunsAlike (c : Correspondence) (R : α → α' → Prop) (act : Eval α) (other : Eval α') : Prop :=
  ∀ w w', c.Worlds w w' → Agree c.AlikeFailure R (act.run w).1 (other.run w').1 ∧
    c.Worlds (act.run w).2 (other.run w').2

namespace RunsAlike

variable {R : α → α' → Prop} {S : β → β' → Prop} {act : Eval α} {other : Eval α'}

theorem pure {a : α} {a' : α'} (h : R a a') : c.RunsAlike R (Pure.pure a) (Pure.pure a') :=
  fun _ _ hw => ⟨.ok h, hw⟩

theorem fail {fault other : Fault} (h : c.AlikeFault fault other) :
    c.RunsAlike R (Eval.fail fault) (Eval.fail other) :=
  fun _ _ hw => ⟨.error (.bare h), hw⟩

theorem bind {f : α → Eval β} {g : α' → Eval β'} (h : c.RunsAlike R act other)
    (hf : ∀ a a', R a a' → c.RunsAlike S (f a) (g a')) :
    c.RunsAlike S (act >>= f) (other >>= g) := by
  intro w w' hw
  have hrun := h w w' hw
  rw [run_bind, run_bind]
  revert hrun
  obtain ⟨r, w₁⟩ := act.run w
  obtain ⟨r', w₁'⟩ := other.run w'
  rintro ⟨hr, hw₁⟩
  cases hr with
  | ok ha => exact hf _ _ ha _ _ hw₁
  | error he => exact ⟨.error he, hw₁⟩

theorem ofExcept {r : Except Fault α} {r' : Except Fault α'} (h : Agree c.AlikeFault R r r') :
    c.RunsAlike R (Eval.ofExcept r) (Eval.ofExcept r') := by
  cases h with
  | ok ha => exact pure ha
  | error he => exact fail he

theorem ofNumeric {r : Except NumberFault α} {r' : Except NumberFault α'} (h : Agree Eq R r r') :
    c.RunsAlike R (Eval.ofNumeric r) (Eval.ofNumeric r') := by
  cases h with
  | ok ha => exact pure ha
  | error he => exact he ▸ fail .same

theorem truth {v w : Value} (h : c.Alike v w) :
    c.RunsAlike Eq (Eval.ofNumeric v.isTruthy) (Eval.ofNumeric w.isTruthy) := by
  rw [h.isTruthy]
  exact ofNumeric (.self fun _ _ => rfl)

theorem located (node : Node) (h : c.RunsAlike R act other) :
    c.RunsAlike R (Eval.located node act) (Eval.located node other) := by
  intro w w' hw
  have hrun := h w w' hw
  rw [Eval.run_located, Eval.run_located]
  revert hrun
  obtain ⟨r, w₁⟩ := act.run w
  obtain ⟨r', w₁'⟩ := other.run w'
  rintro ⟨hr, hw₁⟩
  cases hr with
  | ok ha => exact ⟨.ok ha, hw₁⟩
  | error he => exact ⟨.error (he.locate node), hw₁⟩

theorem settle {v w : Value} (h : c.Alike v w) :
    c.RunsAlike c.Alike (Eval.settle v) (Eval.settle w) := by
  rintro world other ⟨hfree, hfresh, hseeds, hcalls⟩
  obtain ⟨hv, hnext⟩ := h.adopt hfresh
  exact ⟨.ok hv, Nat.le_trans hfree (Value.le_adopt v _), hnext, hseeds, hcalls⟩

theorem note {call other : Call} (h : c.AlikeCall call other) :
    c.RunsAlike (fun _ _ => True) (Eval.note call) (Eval.note other) := by
  rintro w w' ⟨hfree, hfresh, hseeds, made, others, hm, ho, hcalls⟩
  exact ⟨.ok trivial, hfree, hfresh, hseeds, call :: made, other :: others,
    congrArg (call :: ·) hm, congrArg (other :: ·) ho, .cons h hcalls⟩

/-- Runs that are alike one by one yield alike lists. -/
theorem mapM {closures : List Closure} {env other : Env}
    (h : ∀ closure ∈ closures, c.RunsAlike c.Alike (closure env) (closure other)) :
    c.RunsAlike c.AlikeEach (closures.mapM (· env)) (closures.mapM (· other)) := by
  induction closures with
  | nil =>
    simp only [List.mapM_nil]
    exact pure .nil
  | cons closure closures ih =>
    simp only [List.mapM_cons]
    obtain ⟨hfirst, hrest⟩ := List.forall_mem_cons.mp h
    refine bind hfirst fun v w hv => ?_
    exact bind (ih hrest) fun vs ws hvs => pure (.cons hv hvs)

end RunsAlike

/-! ## Closures -/

structure AlikeEnv (c : Correspondence) (env other : Env) : Prop where
  bindings : c.AlikeEntries nothing env.bindings other.bindings
  options : c.AlikeEach env.options other.options

theorem alikeEnv_self {env : Env} (h : ∀ id ∈ env.ids, c.same id id) : c.AlikeEnv env env where
  bindings := alikeEntries_self _ _ fun _ hm => h _ (List.mem_append_left _ hm)
  options := alikeEach_self _ fun _ hm => h _ (List.mem_append_right _ hm)

/-- The closure or accessor runs alike on alike bindings and options. -/
def Respects (c : Correspondence) (closure : Closure) : Prop :=
  ∀ env other, c.AlikeEnv env other → c.RunsAlike c.Alike (closure env) (closure other)

/-- The function runs alike on alike arguments. -/
def RespectsCalls (c : Correspondence) (function : Function) : Prop :=
  ∀ arguments others, c.AlikeEach arguments others →
    c.RunsAlike c.Alike (function.apply arguments) (function.apply others)

/-- Whatever the whitelist allows runs alike. -/
structure RespectsAll (c : Correspondence) (whitelist : Whitelist) : Prop where
  objects : ∀ name accessor, whitelist.objects.lookup name = some accessor → c.Respects accessor
  callees : ∀ signature function, whitelist.callees.lookup signature = some function →
    c.RespectsCalls function

namespace Respects

variable {node : Node} {first second third : Closure} {closures : List Closure}

theorem constant {value : Value} (h : ∀ id ∈ value.ids, c.same id id) :
    c.Respects (Closure.constant value) :=
  fun _ _ _ => .settle (alike_self value h)

theorem fromBindings (key : Value) : c.Respects (Accessor.fromBindings key) := by
  intro env other henv
  unfold Accessor.fromBindings
  split
  · next s =>
    have h : c.AlikeIfAny (env.bindings.lookup s) (other.bindings.lookup s) :=
      henv.bindings.lookup id
    revert h
    generalize env.bindings.lookup s = v?, other.bindings.lookup s = w?
    intro h
    cases h with
    | none => exact .fail .same
    | some h => exact .pure h
  · exact .fail .same

theorem lookup (node : Node) (name : Value) : c.Respects (Closure.lookup node name) :=
  fun env other henv => .located node (fromBindings name env other henv)

theorem choice (h : c.Respects first) (h' : c.Respects second) (h'' : c.Respects third) :
    c.Respects (Closure.choice first second third) := by
  intro env other henv
  refine .bind (h env other henv) fun v w hv => ?_
  refine .bind (.truth hv) fun b b' hb => ?_
  subst hb
  split
  · exact h' env other henv
  · exact h'' env other henv

theorem logical (operator : LogicalOperator) (h : c.Respects first) (h' : c.Respects second) :
    c.Respects (Closure.logical operator first second) := by
  intro env other henv
  refine .bind (h env other henv) fun v w hv => ?_
  refine .bind (.truth hv) fun b b' hb => ?_
  subst hb
  split
  · exact h' env other henv
  · exact .pure hv

theorem binary (operator : BinaryOperator) (h : c.Respects first) (h' : c.Respects second) :
    c.Respects (Closure.binary operator first second) := by
  intro env other henv
  refine .bind (h env other henv) fun v w hv => ?_
  refine .bind (h' env other henv) fun v' w' hv' => ?_
  exact .bind (.ofNumeric (hv.binary operator hv')) fun _ _ hr => .settle hr

theorem unary (operator : UnaryOperator) (h : c.Respects first) :
    c.Respects (Closure.unary operator first) := by
  intro env other henv
  refine .bind (h env other henv) fun v w hv => ?_
  exact .bind (.ofNumeric (hv.unary operator)) fun _ _ hr => .settle hr

theorem array (h : ∀ closure ∈ closures, c.Respects closure) :
    c.Respects (Closure.array closures) := by
  intro env other henv
  refine .bind (.mapM fun closure hm => h closure hm env other henv) fun vs ws hvs => ?_
  exact .settle (.list same_zero hvs)

theorem property (h : c.Respects first) (h' : c.Respects second) :
    c.Respects (Closure.property first second) := by
  intro env other henv
  refine .bind (h env other henv) fun v w hv => ?_
  refine .bind (h' env other henv) fun v' w' hv' => ?_
  exact .settle (.tuple same_zero (.cons hv (.cons hv' .nil)))

theorem addEntry {env other : Env} {entries others : List (String × Value)}
    (h : c.Respects first) (henv : c.AlikeEnv env other)
    (hentries : c.AlikeEntries nothing entries others) :
    c.RunsAlike (c.AlikeEntries nothing) (Closure.addEntry env entries first)
      (Closure.addEntry other others first) := by
  refine .bind (h env other henv) fun v w hv => ?_
  refine .bind (.ofExcept hv.asPair) fun ⟨key, value⟩ ⟨key', value'⟩ ⟨hk, hheld⟩ => ?_
  simp only [hk.toText]
  exact .pure (hentries.set hheld _)

theorem map (h : ∀ closure ∈ closures, c.Respects closure) :
    c.Respects (Closure.object closures) := by
  intro env other henv
  have hentries : ∀ {entries others}, c.AlikeEntries nothing entries others →
      c.RunsAlike (c.AlikeEntries nothing) (closures.foldlM (Closure.addEntry env) entries)
        (closures.foldlM (Closure.addEntry other) others) := by
    induction closures with
    | nil => exact fun hes => .pure hes
    | cons closure closures ih =>
      intro entries others hes
      obtain ⟨hfirst, hrest⟩ := List.forall_mem_cons.mp h
      simp only [List.foldlM_cons]
      exact .bind (hfirst.addEntry henv hes) fun _ _ hes => ih hrest hes
  exact .bind (hentries .nil) fun _ _ hes => .settle (.map same_zero hes)

theorem member (node : Node) (h : c.Respects first) (h' : c.Respects second) :
    c.Respects (Closure.member node first second) := by
  intro env other henv
  refine .bind (h env other henv) fun v w hv => .located node ?_
  refine .bind (h' env other henv) fun v' w' hv' => ?_
  exact .bind (.ofExcept (hv.getMember hv')) fun _ _ hr => .settle hr

theorem call (node : Node) {function : Function} {receiver : Option Closure}
    (hf : c.RespectsCalls function)
    (h : ∀ closure ∈ receiver.toList ++ closures, c.Respects closure) :
    c.Respects (Closure.call node function receiver closures) := by
  intro env other henv
  refine .bind (.mapM fun closure hm => h closure hm env other henv) fun vs ws hvs => ?_
  refine .located node (.bind ?_ fun _ _ hr => .settle hr)
  exact .bind (.note ⟨rfl, hvs⟩) fun _ _ _ => hf vs ws hvs

theorem compositional (c : Correspondence) : Closure.Compositional c.Respects where
  choice := choice
  logical operator _ _ := logical operator
  binary operator _ _ := binary operator
  unary operator _ := unary operator
  array := array
  map := map
  property := property
  member node _ _ := member node

end Respects

/-- Whatever evaluating the task reads or applies runs alike. -/
structure RespectsFor (c : Correspondence) (whitelist : Whitelist) (task : Task) : Prop where
  objects : ∀ name accessor, Reaches whitelist task (.object name) →
    whitelist.objects.lookup name = some accessor → c.Respects accessor
  callees : ∀ path function tasks, Reaches whitelist task (.node path) →
    Calls whitelist path function tasks → c.RespectsCalls function

theorem RespectsAll.respectsFor {whitelist : Whitelist} (h : c.RespectsAll whitelist)
    (task : Task) : c.RespectsFor whitelist task where
  objects name accessor _ hl := h.objects name accessor hl
  callees := by
    intro path function tasks _ hcalls
    obtain ⟨signature, hl⟩ := hcalls.allowed
    exact h.callees signature function hl

/-- What a task compiles to runs alike if whatever it uses does and the identities in the tree
stand for themselves. -/
theorem respects_of_compiledFrom {whitelist : Whitelist} {closure : Closure} {task : Task}
    (h : CompiledFrom whitelist closure task) (hw : c.RespectsFor whitelist task)
    (hids : ∀ id ∈ task.ids, c.same id id) : c.Respects closure := by
  refine h.satisfies (Respects.compositional c) ⟨?constant, ?lookup, ?object, ?call⟩
  case constant => exact fun value hv => .constant fun id hm => hids id (hv.ids_subset hm)
  case lookup => exact fun path name _ _ _ _ => .lookup path.node name
  case object => exact hw.objects
  case call =>
    intro path function tasks receiver closures hreached hcalls h
    exact .call path.node (hw.callees path function tasks hreached hcalls) h

end Correspondence

end GatedExpr
