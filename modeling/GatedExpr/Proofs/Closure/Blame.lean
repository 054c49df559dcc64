import GatedExpr.Proofs.Closure.CompiledFrom

/-! # What failures are about

Nothing but nodes of the tree is ever blamed when a tree fails to compile or when its closure
fails to evaluate, unless the objects and functions of the whitelist blame nodes of their own.
-/

namespace GatedExpr

open GatedExpr.Computation

/-! ## Nodes in values -/

/-- The node stands somewhere in the value, where reading fields, attributes and items leads. -/
inductive Occurs (inner : Node) : Value → Prop where

  | here {id : Identity} : Occurs inner (.node id inner)

  | field {id : Identity} {node : Node} {name : String} {part : Value} :
      node.field? name = some part → Occurs inner part → Occurs inner (.node id node)

  | item {id : Identity} {items : List Value} {item : Value} :
      item ∈ items → Occurs inner item → Occurs inner (.list id items)

  | entry {id : Identity} {items : List Value} {item : Value} :
      item ∈ items → Occurs inner item → Occurs inner (.tuple id items)

  | held {id : Identity} {attributes : List (String × Value)} {name : String} {part : Value} :
      attributes.lookup name = some part → Occurs inner part →
      Occurs inner (.object id attributes)

/-- All nodes in the value have the property. -/
def Value.AllNodes (P : Node → Prop) (value : Value) : Prop :=
  ∀ inner, Occurs inner value → P inner

namespace Value.AllNodes

variable {P : Node → Prop} {id : Identity} {node : Node} {items : List Value}

theorem here (h : (Value.node id node).AllNodes P) : P node :=
  h node .here

theorem node_id (h : (Value.node id node).AllNodes P) (id' : Identity) :
    (Value.node id' node).AllNodes P := by
  intro inner hi
  cases hi with
  | here => exact h.here
  | field hf hp => exact h inner (.field hf hp)

theorem field {name : String} {part : Value} (h : (Value.ofTree node).AllNodes P)
    (hf : node.field? name = some part) : part.AllNodes P :=
  fun inner hi => h inner (.field hf hi)

theorem part {value part : Value} {name : String} (h : value.AllNodes P)
    (hp : value.HasPart name part) : part.AllNodes P := by
  obtain ⟨smaller, hp⟩ := hp
  cases value with
  | node id tree =>
    obtain ⟨⟨found, _⟩, hf, he⟩ := Computation.except_bind_eq_ok.mp hp
    cases he
    exact fun inner hi => h inner (.field (Node.get_eq_ok.mp hf) hi)
  | object id attributes =>
    simp only [Value.part] at hp
    split at hp
    · next hl =>
      cases hp
      exact fun inner hi => h inner (.held hl hi)
    · cases hp
  | _ => cases hp

theorem node? {value : Value} (h : value.AllNodes P) :
    ∀ node, value.node? = some node → P node := by
  intro node hn
  cases value with
  | node id tree =>
    cases hn
    exact h.here
  | _ => cases hn

theorem receiver {whitelist : Whitelist} {call : Node} {signature : String} {receiver : Value}
    {smaller : sizeOf receiver < sizeOf call} (h : (Value.ofTree call).AllNodes P)
    (ht : CallTarget.of whitelist call = .ok (.method signature receiver smaller)) :
    receiver.AllNodes P := by
  have hcalled : ∀ shape, CallTarget.method signature receiver smaller ≠ .refused shape := nofun
  obtain ⟨_, _, ⟨_, _, _, he⟩ | ⟨_, _, hmethod, hcase⟩⟩ := CallTarget.of_spec ht hcalled
  · cases he
  rcases hcase with ⟨_, _, he⟩ | ⟨_, _, he⟩ <;> cases he
  obtain ⟨_, _, _, _, hc, _, _, _, _, _, _, hobject⟩ := hmethod
  exact (h.field hc).part hobject

end Value.AllNodes

/-! ## Computations -/

/-- A failure is about no node or about one with the property `P`, and what is yielded has the
property `Q`. -/
def Computation.Blames {σ α : Type} (P : Node → Prop) (Q : α → Prop)
    (act : ExceptT Failure (StateM σ) α) : Prop :=
  ∀ s, match (act.run s).1 with
    | .ok a => Q a
    | .error failure => ∀ node, failure.node = some node → P node

/-- Any value will do. -/
abbrev Anything {α : Type} : α → Prop := fun _ => True

namespace Computation.Blames

variable {σ α β : Type} {P : Node → Prop} {Q : α → Prop} {R : β → Prop}
  {act : ExceptT Failure (StateM σ) α} {f : α → ExceptT Failure (StateM σ) β}

theorem pure {a : α} (h : Q a) : Blames P Q (Pure.pure a : ExceptT Failure (StateM σ) α) :=
  fun _ => h

theorem throw {failure : Failure} (h : ∀ node, failure.node = some node → P node) :
    Blames P Q (MonadExcept.throw failure : ExceptT Failure (StateM σ) α) :=
  fun _ => h

theorem bare {fault : Fault} :
    Blames P Q (MonadExcept.throw (Failure.bare fault) : ExceptT Failure (StateM σ) α) :=
  throw nofun

theorem bind (h : Blames P Q act) (hf : ∀ a, Q a → Blames P R (f a)) :
    Blames P R (act >>= f) := by
  intro s
  have hs := h s
  rw [run_bind]
  revert hs
  obtain ⟨r, s'⟩ := act.run s
  cases r with
  | ok a => exact fun ha => hf a ha s'
  | error failure => exact id

theorem mono {Q' : α → Prop} (h : Blames P Q act) (hQ : ∀ a, Q a → Q' a) : Blames P Q' act := by
  intro s
  have hs := h s
  revert hs
  cases (act.run s).1 with
  | ok a => exact hQ a
  | error failure => exact id

theorem of_run (h : Blames P Q act) {failure : Failure} {s s' : σ}
    (hr : act.run s = (.error failure, s')) : ∀ node, failure.node = some node → P node := by
  have hs := h s
  rw [hr] at hs
  exact hs

theorem mapM {γ : Type} {items : List γ} {g : γ → ExceptT Failure (StateM σ) α}
    (h : ∀ item ∈ items, Blames P Q (g item)) :
    Blames P Anything (items.mapM g) := by
  induction items with
  | nil => exact pure trivial
  | cons item items ih =>
    obtain ⟨hitem, hitems⟩ := List.forall_mem_cons.mp h
    rw [List.mapM_cons]
    exact bind hitem fun _ _ => bind (ih hitems) fun _ _ => pure trivial

theorem foldlM {γ : Type} {items : List γ} {g : α → γ → ExceptT Failure (StateM σ) α}
    (h : ∀ item ∈ items, ∀ a, Blames P Anything (g a item)) (a : α) :
    Blames P Anything (items.foldlM g a) := by
  induction items generalizing a with
  | nil => exact pure trivial
  | cons item items ih =>
    obtain ⟨hitem, hitems⟩ := List.forall_mem_cons.mp h
    rw [List.foldlM_cons]
    exact bind (hitem a) fun b _ => ih hitems b

end Computation.Blames

/-! ## Evaluation -/

namespace Eval

variable {α : Type} {P : Node → Prop} {Q : α → Prop}

theorem blames_ofExcept (r : Except Fault α) : Blames P Anything (ofExcept r) := by
  cases r with
  | ok a => exact .pure trivial
  | error fault => exact .bare

theorem blames_ofNumeric (r : Except NumberFault α) : Blames P Anything (ofNumeric r) := by
  cases r with
  | ok a => exact .pure trivial
  | error cause => exact .bare

theorem blames_settle (value : Value) : Blames P Anything (settle value) :=
  fun _ => trivial

theorem blames_located {node : Node} {act : Eval α} (hn : P node) (h : Blames P Q act) :
    Blames P Q (located node act) := by
  intro world
  have hw := h world
  rw [run_located]
  revert hw
  obtain ⟨r, world'⟩ := act.run world
  cases r with
  | ok a => exact id
  | error failure =>
    intro hw held hheld
    cases hf : failure.node with
    | none =>
      rw [Failure.locate, hf] at hheld
      cases hheld
      exact hn
    | some inner =>
      rw [Failure.locate, hf] at hheld
      cases hheld
      exact hw inner hf

end Eval

/-- Evaluations fail about nodes with the property only. -/
def Closure.Blames (P : Node → Prop) (closure : Closure) : Prop :=
  ∀ env, Computation.Blames P Anything (closure env)

def Function.Blames (P : Node → Prop) (function : Function) : Prop :=
  ∀ arguments, Computation.Blames P Anything (function.apply arguments)

/-- The objects and functions of the whitelist fail about nodes with the property only. -/
structure Whitelist.Blames (P : Node → Prop) (whitelist : Whitelist) : Prop where
  objects : ∀ entry ∈ whitelist.objects, Closure.Blames P entry.2
  callees : ∀ entry ∈ whitelist.callees, entry.2.Blames P

namespace Closure.Blames

open Computation.Blames Eval

variable {P : Node → Prop} {node : Node} {first second third : Closure} {closures : List Closure}

theorem constant (value : Value) : Closure.Blames P (Closure.constant value) :=
  fun _ => blames_settle value

theorem fromBindings (key : Value) : Closure.Blames P (Accessor.fromBindings key) := by
  intro env
  unfold Accessor.fromBindings
  split
  · split
    · exact pure trivial
    · exact bare
  · exact bare

theorem lookup (hn : P node) (name : Value) : Closure.Blames P (Closure.lookup node name) :=
  fun env => blames_located hn (fromBindings name env)

theorem choice (h : Closure.Blames P first) (h' : Closure.Blames P second)
    (h'' : Closure.Blames P third) : Closure.Blames P (Closure.choice first second third) := by
  intro env
  refine bind (h env) fun test _ => bind (blames_ofNumeric _) fun b _ => ?_
  cases b with
  | true => exact h' env
  | false => exact h'' env

theorem logical (operator : LogicalOperator) (h : Closure.Blames P first)
    (h' : Closure.Blames P second) : Closure.Blames P (Closure.logical operator first second) := by
  intro env
  refine bind (h env) fun value _ => bind (blames_ofNumeric _) fun truthy _ => ?_
  split
  · exact h' env
  · exact pure trivial

theorem binary (operator : BinaryOperator) (h : Closure.Blames P first)
    (h' : Closure.Blames P second) : Closure.Blames P (Closure.binary operator first second) :=
  fun env => bind (h env) fun _ _ => bind (h' env) fun _ _ =>
    bind (blames_ofNumeric _) fun _ _ => blames_settle _

theorem unary (operator : UnaryOperator) (h : Closure.Blames P first) :
    Closure.Blames P (Closure.unary operator first) :=
  fun env => bind (h env) fun _ _ => bind (blames_ofNumeric _) fun _ _ => blames_settle _

theorem array (h : ∀ closure ∈ closures, Closure.Blames P closure) :
    Closure.Blames P (Closure.array closures) :=
  fun env => bind (mapM fun closure hm => h closure hm env) fun _ _ => blames_settle _

theorem property (h : Closure.Blames P first) (h' : Closure.Blames P second) :
    Closure.Blames P (Closure.property first second) :=
  fun env => bind (h env) fun _ _ => bind (h' env) fun _ _ => blames_settle _

theorem object (h : ∀ closure ∈ closures, Closure.Blames P closure) :
    Closure.Blames P (Closure.object closures) := by
  intro env
  refine bind (foldlM (fun closure hm entries => ?_) []) fun _ _ => blames_settle _
  exact bind (h closure hm env) fun _ _ => bind (blames_ofExcept _) fun _ _ => pure trivial

theorem member (hn : P node) (h : Closure.Blames P first) (h' : Closure.Blames P second) :
    Closure.Blames P (Closure.member node first second) := by
  intro env
  refine bind (h env) fun _ _ => blames_located hn ?_
  exact bind (h' env) fun _ _ => bind (blames_ofExcept _) fun _ _ => blames_settle _

theorem call (hn : P node) {function : Function} (hf : function.Blames P)
    {receiver : Option Closure}
    (h : ∀ closure ∈ receiver.toList ++ closures, Closure.Blames P closure) :
    Closure.Blames P (Closure.call node function receiver closures) := by
  intro env
  refine bind (mapM fun closure hm => h closure hm env) fun values _ => blames_located hn ?_
  refine bind (Q := Anything) ?_ fun _ _ => blames_settle _
  exact bind (Q := Anything) (fun _ => trivial) fun _ _ => hf values

end Closure.Blames

/-! ## Compilation -/

namespace Gate

variable {α : Type} {P : Node → Prop} {Q : α → Prop}

theorem blames_read (r : Except Fault α) : Blames P (fun a => r = .ok a) (ofExcept r) := by
  cases r with
  | ok a => exact .pure rfl
  | error fault => exact .bare

theorem blames_get (node : Node) (name : String) :
    Blames P (fun part => node.field? name = some part.1) (ofExcept (node.get name)) :=
  (blames_read _).mono fun _ h => Node.get_eq_ok.mp h

theorem blames_warn (warning : Warning) : Blames P Anything (warn warning) :=
  fun _ => trivial

theorem blames_failAt {node : Option Node} {fault : Fault} (h : ∀ n, node = some n → P n) :
    Blames P Q (failAt node fault) :=
  .throw h

end Gate

namespace Whitelist

open Gate

variable {whitelist : Whitelist} {P : Node → Prop} {path : Path} {slot : String}

theorem blames_objectRoot (hw : whitelist.Blames P) (name : Value) {node : Option Node}
    (hn : ∀ n, node = some n → P n) :
    Computation.Blames P (Closure.Blames P) (whitelist.objectRoot name node) := by
  refine (blames_read _).bind fun found? hfound => ?_
  cases found? with
  | some accessor =>
    obtain ⟨s, rfl, hl⟩ := Gate.find?_eq_some.mp hfound
    exact .pure (hw.objects _ (Table.mem_of_lookup hl))
  | none => exact (blames_warn _).bind fun _ _ => blames_failAt hn

theorem blames_callee (hw : whitelist.Blames P) (signature : Value) {call : Node} (hn : P call) :
    Computation.Blames P (Function.Blames P) (whitelist.callee signature call) := by
  refine (blames_read _).bind fun found? hfound => ?_
  cases found? with
  | some function =>
    obtain ⟨s, rfl, hl⟩ := Gate.find?_eq_some.mp hfound
    exact .pure (hw.callees _ (Table.mem_of_lookup hl))
  | none =>
    refine (blames_warn _).bind fun _ _ => blames_failAt ?_
    rintro _ ⟨⟩
    exact hn

/-- Compiling a node that is smaller than `size` blames nodes in it only, and so does what it
compiles to. -/
def BlamesBelow (whitelist : Whitelist) (P : Node → Prop) (size : Nat) : Prop :=
  ∀ {path : Path}, sizeOf path.node < size → (Value.ofTree path.node).AllNodes P →
    Computation.Blames P (Closure.Blames P) (whitelist.compile path)

namespace BlamesBelow

variable {size : Nat}

theorem part (below : BlamesBelow whitelist P size) {part : Value} (hs : sizeOf part < size)
    (hp : part.AllNodes P) :
    Computation.Blames P (Closure.Blames P) (whitelist.compilePart path slot part) := by
  unfold compilePart
  split
  · next id tree =>
    have := Value.sizeOf_lt_node id tree
    exact below (by rw [Path.node_down]; omega) (hp.node_id _)
  · exact .bare

theorem root (below : BlamesBelow whitelist P size) (hw : whitelist.Blames P) {target : Value}
    (hs : sizeOf target < size) (hp : target.AllNodes P) :
    Computation.Blames P (Closure.Blames P) (whitelist.compileRoot path slot target) := by
  unfold compileRoot
  refine (blames_read _).bind fun isName _ => ?_
  split
  · exact (blames_read _).bind fun name _ => blames_objectRoot hw name hp.node?
  · exact below.part hs hp

theorem each (below : BlamesBelow whitelist P size) {parts : List Value}
    (hs : sizeOf parts < size) (hp : ∀ part ∈ parts, part.AllNodes P) :
    Computation.Blames P (fun closures => ∀ closure ∈ closures, Closure.Blames P closure)
      (whitelist.compileEach path slot parts) := by
  induction parts with
  | nil =>
    unfold compileEach
    exact .pure nofun
  | cons head rest ih =>
    unfold compileEach
    simp only [List.cons.sizeOf_spec] at hs
    obtain ⟨hhead, hrest⟩ := List.forall_mem_cons.mp hp
    refine (below.part (by omega) hhead).bind fun first hfirst => ?_
    refine (ih (by omega) hrest).bind fun others hothers => .pure ?_
    exact List.forall_mem_cons.mpr ⟨hfirst, hothers⟩

theorem holes (below : BlamesBelow whitelist P size) {parts : List Value}
    (hs : sizeOf parts < size) (hp : ∀ part ∈ parts, part.AllNodes P) :
    Computation.Blames P (fun closures => ∀ closure ∈ closures, Closure.Blames P closure)
      (whitelist.compileHoles path parts) := by
  induction parts with
  | nil =>
    unfold compileHoles
    exact .pure nofun
  | cons head rest ih =>
    unfold compileHoles
    simp only [List.cons.sizeOf_spec] at hs
    obtain ⟨hhead, hrest⟩ := List.forall_mem_cons.mp hp
    have hcons {first : Closure} (hfirst : Closure.Blames P first) : Computation.Blames P
        (fun closures => ∀ closure ∈ closures, Closure.Blames P closure)
        (do return first :: (← whitelist.compileHoles path rest)) :=
      (ih (by omega) hrest).bind fun others hothers =>
        .pure (List.forall_mem_cons.mpr ⟨hfirst, hothers⟩)
    split
    · exact hcons (.constant .null)
    · exact (below.part (by omega) hhead).bind fun first hfirst => hcons hfirst

theorem noParts (parts : Value) :
    Computation.Blames P (fun closures => ∀ closure ∈ closures, Closure.Blames P closure) (do
      match ← Gate.ofExcept parts.iterate with
      | [] => return []
      | item :: _ => Gate.fail (.notANode item.typeName)) := by
  refine (blames_read _).bind fun items _ => ?_
  cases items with
  | nil => exact .pure nofun
  | cons item rest => exact .bare

theorem parts (below : BlamesBelow whitelist P size) {parts : Value} (hs : sizeOf parts < size)
    (hp : parts.AllNodes P) :
    Computation.Blames P (fun closures => ∀ closure ∈ closures, Closure.Blames P closure)
      (whitelist.compileParts path slot parts) := by
  unfold compileParts
  split
  · next id items =>
    simp only [Value.list.sizeOf_spec] at hs
    exact below.each (by omega) fun part hm inner hi => hp inner (.item hm hi)
  · next id items =>
    simp only [Value.tuple.sizeOf_spec] at hs
    exact below.each (by omega) fun part hm inner hi => hp inner (.entry hm hi)
  · exact noParts _

theorem elements (below : BlamesBelow whitelist P size) {elements : Value}
    (hs : sizeOf elements < size) (hp : elements.AllNodes P) :
    Computation.Blames P (fun closures => ∀ closure ∈ closures, Closure.Blames P closure)
      (whitelist.compileElements path elements) := by
  unfold compileElements
  split
  · next id items =>
    simp only [Value.list.sizeOf_spec] at hs
    exact below.holes (by omega) fun part hm inner hi => hp inner (.item hm hi)
  · next id items =>
    simp only [Value.tuple.sizeOf_spec] at hs
    exact below.holes (by omega) fun part hm inner hi => hp inner (.entry hm hi)
  · exact noParts _

/-! ### Kinds of nodes -/

theorem identifier (hp : (Value.ofTree path.node).AllNodes P)
    (hk : path.node.kind = some "Identifier") :
    Computation.Blames P (Closure.Blames P) (whitelist.compile path) := by
  unfold compile
  simp only [hk, Option.getD_some]
  refine (blames_get _ _).bind fun name _ => (blames_read _).bind fun own _ => ?_
  split
  · exact .pure (.constant _)
  · exact .pure (.lookup hp.here _)

theorem literal (hk : path.node.kind = some "Literal") :
    Computation.Blames P (Closure.Blames P) (whitelist.compile path) := by
  unfold compile
  simp only [hk, Option.getD_some]
  exact (blames_get _ _).bind fun value _ => .pure (.constant _)

section Kinds

variable (below : BlamesBelow whitelist P (sizeOf path.node)) (hw : whitelist.Blames P)
  (hp : (Value.ofTree path.node).AllNodes P)

include below hp

/-- A part that is read and compiled, and what is done with it. -/
theorem field (name : String) {f : Closure → Gate Closure}
    (hf : ∀ closure, Closure.Blames P closure →
      Computation.Blames P (Closure.Blames P) (f closure)) :
    Computation.Blames P (Closure.Blames P) (do
      let ⟨part, _⟩ ← Gate.ofExcept (path.node.get name)
      f (← whitelist.compilePart path name part)) :=
  (blames_get _ _).bind fun part hpart =>
    (below.part part.2 (hp.field hpart)).bind fun closure hc => hf closure hc

theorem choice (hk : path.node.kind = some "ConditionalExpression") :
    Computation.Blames P (Closure.Blames P) (whitelist.compile path) := by
  unfold compile
  simp only [hk, Option.getD_some]
  refine below.field hp _ fun test ht => below.field hp _ fun consequent hc => ?_
  exact below.field hp _ fun alternate ha => .pure (.choice ht hc ha)

theorem binary (hk : path.node.kind = some "BinaryExpression") :
    Computation.Blames P (Closure.Blames P) (whitelist.compile path) := by
  unfold compile
  simp only [hk, Option.getD_some]
  have hself : ∀ n, some path.node = some n → P n := fun _ he => Option.some.inj he ▸ hp.here
  refine (blames_get _ _).bind fun operator _ => ?_
  refine (blames_read _).bind fun logical? _ => (blames_read _).bind fun binary? _ => ?_
  split
  · exact Computation.Blames.bind (blames_failAt hself) fun _ (h : False) => h.elim
  refine below.field hp _ fun left hl => below.field hp _ fun right hr => ?_
  split
  · exact .pure (.logical _ hl hr)
  · exact .pure (.binary _ hl hr)
  · exact blames_failAt hself

theorem unary (hk : path.node.kind = some "UnaryExpression") :
    Computation.Blames P (Closure.Blames P) (whitelist.compile path) := by
  unfold compile
  simp only [hk, Option.getD_some]
  refine (blames_get _ _).bind fun operator _ => (blames_read _).bind fun unary? _ => ?_
  cases unary? with
  | none => exact blames_failAt fun _ he => Option.some.inj he ▸ hp.here
  | some operator => exact below.field hp _ fun argument ha => .pure (.unary _ ha)

theorem array (hk : path.node.kind = some "ArrayExpression") :
    Computation.Blames P (Closure.Blames P) (whitelist.compile path) := by
  unfold compile
  simp only [hk, Option.getD_some]
  refine (blames_get _ _).bind fun elements he => ?_
  exact (below.elements elements.2 (hp.field he)).bind fun closures hc => .pure (.array hc)

theorem map (hk : path.node.kind = some "ObjectExpression") :
    Computation.Blames P (Closure.Blames P) (whitelist.compile path) := by
  unfold compile
  simp only [hk, Option.getD_some]
  refine (blames_get _ _).bind fun properties hf => ?_
  exact (below.parts properties.2 (hp.field hf)).bind fun closures hc => .pure (.object hc)

theorem property (hk : path.node.kind = some "Property") :
    Computation.Blames P (Closure.Blames P) (whitelist.compile path) := by
  unfold compile
  simp only [hk, Option.getD_some]
  refine below.field hp _ fun key hkey => below.field hp _ fun value hv => ?_
  exact .pure (.property hkey hv)

include hw

theorem member (hk : path.node.kind = some "MemberExpression") :
    Computation.Blames P (Closure.Blames P) (whitelist.compile path) := by
  unfold compile
  simp only [hk, Option.getD_some]
  refine below.field hp _ fun key hkey => (blames_get _ _).bind fun object ho => ?_
  refine (below.root hw object.2 (hp.field ho)).bind fun target ht => ?_
  exact .pure (.member hp.here ht hkey)

theorem call (hk : path.node.kind = some "CallExpression") :
    Computation.Blames P (Closure.Blames P) (whitelist.compile path) := by
  unfold compile
  simp only [hk, Option.getD_some]
  refine (blames_read _).bind fun target htarget => ?_
  cases target with
  | refused shape =>
    refine (blames_warn _).bind fun _ _ => blames_failAt ?_
    exact fun _ he => Option.some.inj he ▸ hp.here
  | function signature =>
    refine (blames_callee hw _ hp.here).bind fun function hf => ?_
    refine (blames_get _ _).bind fun arguments ha => ?_
    exact (below.parts arguments.2 (hp.field ha)).bind fun closures hc =>
      .pure (.call hp.here hf hc)
  | method signature receiver smaller =>
    refine (blames_callee hw _ hp.here).bind fun function hf => ?_
    refine (below.root hw smaller (hp.receiver htarget)).bind fun receiverClosure hr => ?_
    refine (blames_get _ _).bind fun arguments ha => ?_
    refine (below.parts arguments.2 (hp.field ha)).bind fun closures hc => ?_
    exact .pure (.call hp.here hf (List.forall_mem_cons.mpr ⟨hr, hc⟩))

end Kinds

/-- One more level: each kind of node blames nodes in it only if its parts do. -/
theorem step (hw : whitelist.Blames P) (below : BlamesBelow whitelist P size) :
    BlamesBelow whitelist P (size + 1) := by
  intro path hs hp
  have below : BlamesBelow whitelist P (sizeOf path.node) := fun hlt => below (by omega)
  cases compilesAs path with
  | choice hk => exact below.choice hp hk
  | binary hk => exact below.binary hp hk
  | unary hk => exact below.unary hp hk
  | array hk => exact below.array hp hk
  | map hk => exact below.map hp hk
  | property hk => exact below.property hp hk
  | identifier hk => exact identifier hp hk
  | literal hk => exact literal hk
  | member hk => exact below.member hw hp hk
  | call hk => exact below.call hw hp hk
  | unknown h =>
    rw [h]
    exact blames_failAt fun _ he => Option.some.inj he ▸ hp.here

end BlamesBelow

theorem blamesBelow (hw : whitelist.Blames P) (size : Nat) : BlamesBelow whitelist P size := by
  induction size with
  | zero => exact fun hs => absurd hs (Nat.not_lt_zero _)
  | succ size ih => exact ih.step hw

/-- Compiling a tree, and evaluating what it compiles to, blames nodes of the tree only. -/
theorem blames_compileTree (hw : whitelist.Blames P) {tree : Value} (hp : tree.AllNodes P) :
    Computation.Blames P (Closure.Blames P) (whitelist.compileTree tree) := by
  unfold compileTree
  refine (blames_read _).bind fun _ _ => (blames_read _).bind fun node hnode => ?_
  cases tree with
  | node id tree =>
    cases hnode
    exact blamesBelow hw _ (Nat.lt_succ_self _) (hp.node_id _)
  | _ => cases hnode

end Whitelist

end GatedExpr
