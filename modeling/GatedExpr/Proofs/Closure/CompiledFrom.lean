import Mathlib.Data.List.Forall2
import GatedExpr.Closure.Compile
import GatedExpr.Proofs.Closure.Path
import GatedExpr.Proofs.Closure.Target
import GatedExpr.Proofs.Gate.Passing

/-! # What closures are compiled from

A closure is put together from the closures of the parts of its node, down to leaves that come
from the tree or from the whitelist. The induction follows the compiler once; whatever holds of
compiled closures is an induction on how they are put together.
-/

namespace GatedExpr

open GatedExpr.Computation

theorem operatorOf_eq_some {α : Type} {ofSymbol? : String → Option α} {value : Value}
    {operator : α} :
    operatorOf ofSymbol? value = .ok (some operator) ↔
      ∃ symbol, value = .text symbol ∧ ofSymbol? symbol = some operator := by
  cases value <;> simp [operatorOf] <;> split <;> simp

namespace Path

theorem isOwnName_iff {path : Path} {own : Bool} (h : path.isOwnName = .ok own) :
    own = true ↔ path.NamesItself := by
  unfold isOwnName at h
  split at h
  · next hkey =>
    cases h
    obtain ⟨above, ha, hk⟩ := isAt_key.mp hkey
    exact ⟨fun _ => ⟨above, ha, .inl hk⟩, fun _ => rfl⟩
  · next hkey =>
    split at h
    · next hprop =>
      obtain ⟨above, ha, hk⟩ := isAt_property.mp hprop
      rw [ha] at h
      obtain ⟨computed, hc, h⟩ := except_bind_eq_ok.mp h
      cases h
      have hf := Node.get_eq_ok.mp hc
      constructor
      · intro hs
        exact ⟨above, ha, .inr ⟨hk.1, hk.2, computed, hf, by simpa using hs⟩⟩
      · rintro ⟨above', ha', hcase⟩
        rw [ha] at ha'
        cases ha'
        rcases hcase with ⟨hk', _⟩ | ⟨_, _, computed', hf', hs⟩
        · rw [hk.1] at hk'
          simp at hk'
        · rw [hf] at hf'
          cases hf'
          simpa using hs
    · next hprop =>
      cases h
      constructor
      · nofun
      · rintro ⟨above, ha, hk | ⟨hk, hs, _⟩⟩
        · exact absurd (isAt_key.mpr ⟨above, ha, hk⟩) hkey
        · exact absurd (isAt_property.mpr ⟨above, ha, hk, hs⟩) hprop

end Path

namespace Semantics

theorem Task.ofItems_of_notSequence {path : Path} {slot : String} {parts : Value}
    (hlist : ∀ id items, parts ≠ .list id items) (htuple : ∀ id items, parts ≠ .tuple id items) :
    Task.ofItems path slot parts = [] := by
  cases parts with
  | list id items => exact absurd rfl (hlist id items)
  | tuple id items => exact absurd rfl (htuple id items)
  | _ => rfl

/-- `CompiledFrom whitelist closure task`: the closure is what the task compiles to. The parts of
lists stand in their order. -/
inductive CompiledFrom (whitelist : Whitelist) : Closure → Task → Prop where

  | hole : CompiledFrom whitelist (Closure.constant .null) .hole

  | object {name : String} {accessor : Accessor} :
      whitelist.objects.lookup name = some accessor →
      CompiledFrom whitelist accessor (.object name)

  | literal {p : Path} {value : Value} :
      p.node.kind = some "Literal" → p.node.field? "value" = some value →
      CompiledFrom whitelist (Closure.constant value) (.node p)

  | ownName {p : Path} {name : Value} :
      p.node.kind = some "Identifier" → p.NamesItself → p.node.field? "name" = some name →
      CompiledFrom whitelist (Closure.constant name) (.node p)

  | lookup {p : Path} {name : Value} :
      p.node.kind = some "Identifier" → ¬ p.NamesItself → p.node.field? "name" = some name →
      CompiledFrom whitelist (Closure.lookup p.node name) (.node p)

  | choice {p t c a : Path} {test consequent alternate : Closure} :
      p.node.kind = some "ConditionalExpression" → p.Part "test" t → p.Part "consequent" c →
      p.Part "alternate" a → CompiledFrom whitelist test (.node t) →
      CompiledFrom whitelist consequent (.node c) → CompiledFrom whitelist alternate (.node a) →
      CompiledFrom whitelist (Closure.choice test consequent alternate) (.node p)

  | logical {p l q : Path} {symbol : String} {operator : LogicalOperator} {left right : Closure} :
      p.node.kind = some "BinaryExpression" → p.node.field? "operator" = some (.text symbol) →
      LogicalOperator.ofSymbol? symbol = some operator → p.Part "left" l → p.Part "right" q →
      CompiledFrom whitelist left (.node l) → CompiledFrom whitelist right (.node q) →
      CompiledFrom whitelist (Closure.logical operator left right) (.node p)

  | binary {p l q : Path} {symbol : String} {operator : BinaryOperator} {left right : Closure} :
      p.node.kind = some "BinaryExpression" → p.node.field? "operator" = some (.text symbol) →
      BinaryOperator.ofSymbol? symbol = some operator → p.Part "left" l → p.Part "right" q →
      CompiledFrom whitelist left (.node l) → CompiledFrom whitelist right (.node q) →
      CompiledFrom whitelist (Closure.binary operator left right) (.node p)

  | unary {p q : Path} {symbol : String} {operator : UnaryOperator} {argument : Closure} :
      p.node.kind = some "UnaryExpression" → p.node.field? "operator" = some (.text symbol) →
      UnaryOperator.ofSymbol? symbol = some operator → p.Part "argument" q →
      CompiledFrom whitelist argument (.node q) →
      CompiledFrom whitelist (Closure.unary operator argument) (.node p)

  | array {p : Path} {elements : Value} {closures : List Closure} :
      p.node.kind = some "ArrayExpression" → p.node.field? "elements" = some elements →
      closures.length = (Task.ofItems p "elements" elements).length →
      (∀ {closure task}, (closure, task) ∈ closures.zip (Task.ofItems p "elements" elements) →
        CompiledFrom whitelist closure task) →
      CompiledFrom whitelist (Closure.array closures) (.node p)

  | map {p : Path} {properties : Value} {closures : List Closure} :
      p.node.kind = some "ObjectExpression" → p.node.field? "properties" = some properties →
      closures.length = (Task.ofItems p "properties" properties).length →
      (∀ {closure task}, (closure, task) ∈ closures.zip (Task.ofItems p "properties" properties) →
        CompiledFrom whitelist closure task) →
      CompiledFrom whitelist (Closure.object closures) (.node p)

  | property {p k q : Path} {key value : Closure} :
      p.node.kind = some "Property" → p.Part "key" k → p.Part "value" q →
      CompiledFrom whitelist key (.node k) → CompiledFrom whitelist value (.node q) →
      CompiledFrom whitelist (Closure.property key value) (.node p)

  | member {p k : Path} {object : Value} {task : Task} {target key : Closure} :
      p.node.kind = some "MemberExpression" → p.node.field? "object" = some object →
      Task.Root p "object" object task → p.Part "property" k →
      CompiledFrom whitelist target task → CompiledFrom whitelist key (.node k) →
      CompiledFrom whitelist (Closure.member p.node target key) (.node p)

  | call {p : Path} {function : Function} {tasks : List Task} {receiver : Option Closure}
      {closures : List Closure} :
      p.node.kind = some "CallExpression" →
      (∀ function' tasks', Calls whitelist p function' tasks' ↔
        function' = function ∧ tasks' = tasks) →
      (receiver.toList ++ closures).length = tasks.length →
      (∀ {closure task}, (closure, task) ∈ (receiver.toList ++ closures).zip tasks →
        CompiledFrom whitelist closure task) →
      CompiledFrom whitelist (Closure.call p.node function receiver closures) (.node p)

/-- What holds of a closure with its task, for all tasks in a list, holds of all closures. -/
theorem forall_of_zip {P : Closure → Prop} {closures : List Closure} {tasks : List Task}
    (hlength : closures.length = tasks.length)
    (h : ∀ {closure task}, (closure, task) ∈ closures.zip tasks → task ∈ tasks → P closure) :
    ∀ closure ∈ closures, P closure := by
  intro closure hm
  rw [← List.map_fst_zip (Nat.le_of_eq hlength)] at hm
  obtain ⟨⟨_, task⟩, hzip, rfl⟩ := List.mem_map.mp hm
  exact h hzip (List.of_mem_zip hzip).2

end Semantics

namespace Whitelist

open Semantics

variable {whitelist : Whitelist} {path : Path}

/-- Every node that is smaller than `size` compiles to a closure that is compiled from it. -/
def CompiledBelow (whitelist : Whitelist) (size : Nat) : Prop :=
  ∀ {path : Path}, sizeOf path.node < size →
    (whitelist.compile path).Yields (CompiledFrom whitelist · (.node path))

namespace CompiledBelow

variable {size : Nat} {slot : String}

/-! ## Parts -/

theorem node (below : CompiledBelow whitelist size) {part : Value} (hs : sizeOf part < size) :
    (whitelist.compilePart path slot part).Yields fun closure =>
      ∃ id tree, part = .node id tree ∧
        CompiledFrom whitelist closure (.node (path.down slot tree)) := by
  unfold compilePart
  split
  · next id tree =>
    have := Value.sizeOf_lt_node id tree
    have hlt : sizeOf (path.down slot tree).node < size := by
      rw [Path.node_down]
      omega
    exact (below hlt).mono fun closure h => ⟨id, tree, rfl, h⟩
  · exact .fail

theorem part (below : CompiledBelow whitelist size) {part : Value} (hs : sizeOf part < size)
    (hf : path.node.field? slot = some part) :
    (whitelist.compilePart path slot part).Yields fun closure =>
      ∃ q, path.Part slot q ∧ CompiledFrom whitelist closure (.node q) := by
  refine (below.node hs).mono ?_
  rintro closure ⟨id, tree, rfl, h⟩
  exact ⟨_, ⟨id, tree, hf, rfl⟩, h⟩

theorem root (below : CompiledBelow whitelist size) {target : Value} (hs : sizeOf target < size) :
    (whitelist.compileRoot path slot target).Yields fun closure =>
      ∃ task, Task.Root path slot target task ∧ CompiledFrom whitelist closure task := by
  unfold compileRoot
  refine (Gate.Yields.read _).bind fun isName hi => ?_
  obtain ⟨kind, hk, rfl⟩ := Value.isOfKind_eq_ok.mp hi
  split
  · next hname =>
    rw [Value.isTextOf_iff.mp hname] at hk
    refine (Gate.Yields.read _).bind fun name hn => ?_
    refine (yields_objectRoot name _).mono ?_
    rintro accessor ⟨s, rfl, hl⟩
    exact ⟨_, .object hk hn, .object hl⟩
  · next hname =>
    refine (below.node hs).mono ?_
    rintro closure ⟨id, tree, rfl, h⟩
    refine ⟨_, .node ?_, h⟩
    rintro hkind
    rw [Value.readAttribute_kind, Value.ofText?_eq_text.mpr hkind] at hk
    cases hk
    exact hname (Value.isTextOf_iff.mpr rfl)

theorem each (below : CompiledBelow whitelist size) {parts : List Value}
    (hs : sizeOf parts < size) :
    (whitelist.compileEach path slot parts).Yields
      (List.Forall₂ (CompiledFrom whitelist) · (parts.filterMap (Task.ofItem? path slot))) := by
  induction parts with
  | nil =>
    unfold compileEach
    exact .pure .nil
  | cons head rest ih =>
    unfold compileEach
    simp only [List.cons.sizeOf_spec] at hs
    refine (below.node (by omega)).bind ?_
    rintro first ⟨id, tree, rfl, hfirst⟩
    exact (ih (by omega)).bind fun others hothers => .pure (.cons hfirst hothers)

theorem holes (below : CompiledBelow whitelist size) {parts : List Value}
    (hs : sizeOf parts < size) :
    (whitelist.compileHoles path parts).Yields (List.Forall₂ (CompiledFrom whitelist) ·
      (parts.filterMap (Task.ofItem? path "elements"))) := by
  induction parts with
  | nil =>
    unfold compileHoles
    exact .pure .nil
  | cons head rest ih =>
    unfold compileHoles
    simp only [List.cons.sizeOf_spec] at hs
    split
    · next hnull =>
      cases head with
      | null => exact (ih (by omega)).bind fun others hothers => .pure (.cons .hole hothers)
      | _ => cases hnull
    · refine (below.node (by omega)).bind ?_
      rintro first ⟨id, tree, rfl, hfirst⟩
      exact (ih (by omega)).bind fun others hothers => .pure (.cons hfirst hothers)

/-- What is neither a list nor a tuple holds no parts, or it does not compile. -/
theorem noParts {parts : Value} (hlist : ∀ id items, parts ≠ .list id items)
    (htuple : ∀ id items, parts ≠ .tuple id items) :
    Gate.Yields (do
        match ← Gate.ofExcept parts.iterate with
        | [] => return []
        | item :: _ => Gate.fail (.notANode item.typeName))
      (List.Forall₂ (CompiledFrom whitelist) · (Task.ofItems path slot parts)) := by
  refine (Gate.Yields.read _).bind fun items _ => ?_
  cases items with
  | nil =>
    rw [Task.ofItems_of_notSequence hlist htuple]
    exact .pure .nil
  | cons item rest => exact .fail

theorem parts (below : CompiledBelow whitelist size) {parts : Value} (hs : sizeOf parts < size) :
    (whitelist.compileParts path slot parts).Yields
      (List.Forall₂ (CompiledFrom whitelist) · (Task.ofItems path slot parts)) := by
  unfold compileParts
  split
  · next id items =>
    simp only [Value.list.sizeOf_spec] at hs
    exact below.each (by omega)
  · next id items =>
    simp only [Value.tuple.sizeOf_spec] at hs
    exact below.each (by omega)
  · next other hlist htuple => exact noParts hlist htuple

theorem elements (below : CompiledBelow whitelist size) {elements : Value}
    (hs : sizeOf elements < size) :
    (whitelist.compileElements path elements).Yields
      (List.Forall₂ (CompiledFrom whitelist) · (Task.ofItems path "elements" elements)) := by
  unfold compileElements
  split
  · next id items =>
    simp only [Value.list.sizeOf_spec] at hs
    exact below.holes (by omega)
  · next id items =>
    simp only [Value.tuple.sizeOf_spec] at hs
    exact below.holes (by omega)
  · next other hlist htuple => exact noParts hlist htuple

/-! ## Kinds of nodes -/

section

variable (below : CompiledBelow whitelist (sizeOf path.node))

include below

theorem choice (hk : path.node.kind = some "ConditionalExpression") :
    (whitelist.compile path).Yields (CompiledFrom whitelist · (.node path)) := by
  unfold compile
  simp only [hk, Option.getD_some]
  refine (Gate.Yields.get _ _).bind fun test ht => ?_
  refine (below.part test.2 ht).bind ?_
  rintro testClosure ⟨t, pt, htest⟩
  refine (Gate.Yields.get _ _).bind fun consequent hc => ?_
  refine (below.part consequent.2 hc).bind ?_
  rintro consequentClosure ⟨c, pc, hcons⟩
  refine (Gate.Yields.get _ _).bind fun alternate ha => ?_
  refine (below.part alternate.2 ha).bind ?_
  rintro alternateClosure ⟨a, pa, halt⟩
  exact .pure (.choice hk pt pc pa htest hcons halt)

theorem binary (hk : path.node.kind = some "BinaryExpression") :
    (whitelist.compile path).Yields (CompiledFrom whitelist · (.node path)) := by
  unfold compile
  simp only [hk, Option.getD_some]
  refine (Gate.Yields.get _ _).bind fun operator ho => ?_
  refine (Gate.Yields.read _).bind fun logical? hlogical => ?_
  refine (Gate.Yields.read _).bind fun binary? hbinary => ?_
  split
  · exact Gate.Yields.bind .failAt fun _ (h : False) => h.elim
  refine (Gate.Yields.get _ _).bind fun left hl => ?_
  refine (below.part left.2 hl).bind ?_
  rintro leftClosure ⟨l, pl, hleft⟩
  refine (Gate.Yields.get _ _).bind fun right hr => ?_
  refine (below.part right.2 hr).bind ?_
  rintro rightClosure ⟨r, pr, hright⟩
  split
  · obtain ⟨symbol, hsym, hs⟩ := operatorOf_eq_some.mp hlogical
    exact .pure (.logical hk (hsym ▸ ho) hs pl pr hleft hright)
  · obtain ⟨symbol, hsym, hs⟩ := operatorOf_eq_some.mp hbinary
    exact .pure (.binary hk (hsym ▸ ho) hs pl pr hleft hright)
  · exact .failAt

theorem unary (hk : path.node.kind = some "UnaryExpression") :
    (whitelist.compile path).Yields (CompiledFrom whitelist · (.node path)) := by
  unfold compile
  simp only [hk, Option.getD_some]
  refine (Gate.Yields.get _ _).bind fun operator ho => ?_
  refine (Gate.Yields.read _).bind fun unary? hunary => ?_
  cases unary? with
  | none => exact .failAt
  | some unary =>
    refine (Gate.Yields.get _ _).bind fun argument ha => ?_
    refine (below.part argument.2 ha).bind ?_
    rintro argumentClosure ⟨q, pq, harg⟩
    obtain ⟨symbol, hsym, hs⟩ := operatorOf_eq_some.mp hunary
    exact .pure (.unary hk (hsym ▸ ho) hs pq harg)

theorem array (hk : path.node.kind = some "ArrayExpression") :
    (whitelist.compile path).Yields (CompiledFrom whitelist · (.node path)) := by
  unfold compile
  simp only [hk, Option.getD_some]
  refine (Gate.Yields.get _ _).bind fun elements he => ?_
  refine (below.elements elements.2).bind fun closures hall => ?_
  obtain ⟨hlength, hall⟩ := List.forall₂_iff_zip.mp hall
  exact .pure (.array hk he hlength hall)

theorem map (hk : path.node.kind = some "ObjectExpression") :
    (whitelist.compile path).Yields (CompiledFrom whitelist · (.node path)) := by
  unfold compile
  simp only [hk, Option.getD_some]
  refine (Gate.Yields.get _ _).bind fun properties hp => ?_
  refine (below.parts properties.2).bind fun closures hall => ?_
  obtain ⟨hlength, hall⟩ := List.forall₂_iff_zip.mp hall
  exact .pure (.map hk hp hlength hall)

theorem property (hk : path.node.kind = some "Property") :
    (whitelist.compile path).Yields (CompiledFrom whitelist · (.node path)) := by
  unfold compile
  simp only [hk, Option.getD_some]
  refine (Gate.Yields.get _ _).bind fun key hkey => ?_
  refine (below.part key.2 hkey).bind ?_
  rintro keyClosure ⟨k, pk, hkc⟩
  refine (Gate.Yields.get _ _).bind fun value hv => ?_
  refine (below.part value.2 hv).bind ?_
  rintro valueClosure ⟨q, pq, hvc⟩
  exact .pure (.property hk pk pq hkc hvc)

theorem member (hk : path.node.kind = some "MemberExpression") :
    (whitelist.compile path).Yields (CompiledFrom whitelist · (.node path)) := by
  unfold compile
  simp only [hk, Option.getD_some]
  refine (Gate.Yields.get _ _).bind fun key hkey => ?_
  refine (below.part key.2 hkey).bind ?_
  rintro keyClosure ⟨k, pk, hkc⟩
  refine (Gate.Yields.get _ _).bind fun object ho => ?_
  refine (below.root object.2).bind ?_
  rintro target ⟨task, pt, ht⟩
  exact .pure (.member hk ho pt pk ht hkc)

theorem call (hk : path.node.kind = some "CallExpression") :
    (whitelist.compile path).Yields (CompiledFrom whitelist · (.node path)) := by
  unfold compile
  simp only [hk, Option.getD_some]
  refine (Gate.Yields.read _).bind fun target htarget => ?_
  cases target with
  | refused shape => exact Gate.Yields.warn.bind fun _ _ => .failAt
  | function signature =>
    refine (yields_callee _ _).bind ?_
    rintro function ⟨name, rfl, hl⟩
    refine (Gate.Yields.get _ _).bind fun arguments ha => ?_
    refine (below.parts arguments.2).bind fun closures hall => ?_
    obtain ⟨hlength, hall⟩ := List.forall₂_iff_zip.mp hall
    exact .pure (.call hk (calls_function htarget hl ha) hlength hall)
  | method signature receiver smaller =>
    refine (yields_callee _ _).bind ?_
    rintro function ⟨name, hname, hl⟩
    cases hname
    refine (below.root smaller).bind ?_
    rintro receiverClosure ⟨task, pt, ht⟩
    refine (Gate.Yields.get _ _).bind fun arguments ha => ?_
    refine (below.parts arguments.2).bind fun closures hall => ?_
    obtain ⟨hlength, hall⟩ := List.forall₂_iff_zip.mp (List.Forall₂.cons ht hall)
    exact .pure (.call hk (calls_method htarget hl pt ha) hlength hall)

end

end CompiledBelow

theorem yields_identifier (hk : path.node.kind = some "Identifier") :
    (whitelist.compile path).Yields (CompiledFrom whitelist · (.node path)) := by
  unfold compile
  simp only [hk, Option.getD_some]
  refine (Gate.Yields.get _ _).bind fun name hn => ?_
  refine (Gate.Yields.read _).bind fun own ho => ?_
  split
  · next hown => exact .pure (.ownName hk ((Path.isOwnName_iff ho).mp hown) hn)
  · next hown =>
    exact .pure (.lookup hk (fun hself => hown ((Path.isOwnName_iff ho).mpr hself)) hn)

theorem yields_literal (hk : path.node.kind = some "Literal") :
    (whitelist.compile path).Yields (CompiledFrom whitelist · (.node path)) := by
  unfold compile
  simp only [hk, Option.getD_some]
  exact (Gate.Yields.get _ _).bind fun value hv => .pure (.literal hk hv)

/-- How a node compiles: as its kind does, or not at all where its kind is unknown. -/
inductive CompilesAs (path : Path) : Prop where

  | choice : path.node.kind = some "ConditionalExpression" → CompilesAs path

  | binary : path.node.kind = some "BinaryExpression" → CompilesAs path

  | unary : path.node.kind = some "UnaryExpression" → CompilesAs path

  | array : path.node.kind = some "ArrayExpression" → CompilesAs path

  | map : path.node.kind = some "ObjectExpression" → CompilesAs path

  | property : path.node.kind = some "Property" → CompilesAs path

  | identifier : path.node.kind = some "Identifier" → CompilesAs path

  | literal : path.node.kind = some "Literal" → CompilesAs path

  | member : path.node.kind = some "MemberExpression" → CompilesAs path

  | call : path.node.kind = some "CallExpression" → CompilesAs path

  | unknown :
      (∀ whitelist : Whitelist, whitelist.compile path =
        Gate.failAt (some path.node) (.noCompiler path.node.kind)) →
      CompilesAs path

theorem compilesAs (path : Path) : CompilesAs path := by
  by_cases hkinds : path.node.kind.getD "" ∈ ["ConditionalExpression", "BinaryExpression",
      "UnaryExpression", "ArrayExpression", "ObjectExpression", "Property", "Identifier", "Literal",
      "MemberExpression", "CallExpression"]
  · simp only [List.mem_cons, List.not_mem_nil, or_false] at hkinds
    rcases hkinds with hk | hk | hk | hk | hk | hk | hk | hk | hk | hk <;>
      have hk := Node.kind_of_getD hk (by decide)
    · exact .choice hk
    · exact .binary hk
    · exact .unary hk
    · exact .array hk
    · exact .map hk
    · exact .property hk
    · exact .identifier hk
    · exact .literal hk
    · exact .member hk
    · exact .call hk
  · refine .unknown fun whitelist => ?_
    unfold compile
    split
    all_goals first
      | rfl
      | next hk => exact absurd (by simp [hk]) hkinds

/-- One more level: each kind of node compiles to what is compiled from it if its parts do. -/
theorem CompiledBelow.step {size : Nat} (below : CompiledBelow whitelist size) :
    CompiledBelow whitelist (size + 1) := by
  intro path hs
  have below : CompiledBelow whitelist (sizeOf path.node) := fun hlt => below (by omega)
  cases compilesAs path with
  | choice hk => exact below.choice hk
  | binary hk => exact below.binary hk
  | unary hk => exact below.unary hk
  | array hk => exact below.array hk
  | map hk => exact below.map hk
  | property hk => exact below.property hk
  | identifier hk => exact yields_identifier hk
  | literal hk => exact yields_literal hk
  | member hk => exact below.member hk
  | call hk => exact below.call hk
  | unknown h =>
    rw [h]
    exact .failAt

theorem compiledBelow (size : Nat) : CompiledBelow whitelist size := by
  induction size with
  | zero => exact fun hs => absurd hs (Nat.not_lt_zero _)
  | succ size ih => exact ih.step

/-- A node compiles to a closure that is compiled from it, or it does not compile. -/
theorem yields_compile (whitelist : Whitelist) (path : Path) :
    (whitelist.compile path).Yields (CompiledFrom whitelist · (.node path)) :=
  compiledBelow _ (Nat.lt_succ_self _)

/-- A whole tree compiles to a closure that is compiled from its root. -/
theorem yields_compileTree (whitelist : Whitelist) (tree : Value) :
    (whitelist.compileTree tree).Yields fun closure =>
      ∃ id node, tree = .node id node ∧ CompiledFrom whitelist closure (.node (.root node)) := by
  unfold compileTree
  refine (Gate.Yields.read _).bind fun _ _ => ?_
  refine (Gate.Yields.read _).bind fun node hnode => ?_
  refine (yields_compile whitelist _).mono fun closure h => ?_
  cases tree with
  | node id tree =>
    cases hnode
    exact ⟨id, tree, rfl, h⟩
  | _ => cases hnode

end Whitelist

end GatedExpr
