import Mathlib.Logic.Relation
import GatedExpr.Proofs.Closure.CompiledFrom
import GatedExpr.Proofs.Closure.Target
import GatedExpr.Proofs.Value.Alike

/-! # Properties of compiled closures

What is evaluated for a task are its parts, at once and further down. A property that putting
closures together preserves holds of whatever a task compiles to if it holds of the leaves: the
values and names in the tree, the objects of the whitelist, and the calls of its functions. Only
leaves that the task reaches matter.
-/

namespace GatedExpr

theorem Value.HasPart.ids_subset {value part : Value} {name : String}
    (h : value.HasPart name part) : part.ids ⊆ value.ids := by
  obtain ⟨smaller, h⟩ := h
  cases value with
  | node id tree =>
    obtain ⟨⟨found, _⟩, hf, he⟩ := Computation.except_bind_eq_ok.mp h
    cases he
    exact fun i hm => .tail _ (ids_subset_of_field? (Node.get_eq_ok.mp hf) hm)
  | object id attributes =>
    simp only [Value.part] at h
    split at h
    · next hl =>
      cases h
      exact fun i hm => .tail _ (ids_subset_of_lookup hl hm)
    · cases h
  | _ => cases h

/-! ## Parts of tasks

A name before a dot is an object there and never a node, and what a call names is no part of it at
all.
-/

namespace Semantics

/-- The slots of a kind of node that hold one part each. -/
def partSlots : String → List String
  | "ConditionalExpression" => ["test", "consequent", "alternate"]
  | "BinaryExpression" => ["left", "right"]
  | "UnaryExpression" => ["argument"]
  | "Property" => ["key", "value"]
  | "MemberExpression" => ["property"]
  | _ => []

/-- The slots of a kind of node that hold parts in a list. -/
def listSlots : String → List String
  | "ArrayExpression" => ["elements"]
  | "ObjectExpression" => ["properties"]
  | _ => []

/-- `PartOf whitelist task part`: evaluating the task may evaluate the part. -/
inductive PartOf (whitelist : Whitelist) : Task → Task → Prop where

  | slot {p q : Path} {kind slot : String} :
      p.node.kind = some kind → slot ∈ partSlots kind → p.Part slot q →
      PartOf whitelist (.node p) (.node q)

  | item {p : Path} {kind slot : String} {parts : Value} {part : Task} :
      p.node.kind = some kind → slot ∈ listSlots kind → p.node.field? slot = some parts →
      part ∈ Task.ofItems p slot parts → PartOf whitelist (.node p) part

  | root {p : Path} {object : Value} {part : Task} :
      p.node.kind = some "MemberExpression" → p.node.field? "object" = some object →
      Task.Root p "object" object part → PartOf whitelist (.node p) part

  | operand {p : Path} {function : Function} {tasks : List Task} {part : Task} :
      p.node.kind = some "CallExpression" → Calls whitelist p function tasks → part ∈ tasks →
      PartOf whitelist (.node p) part

/-- The part is the task itself or is reached from it through parts. -/
def Reaches (whitelist : Whitelist) : Task → Task → Prop :=
  Relation.ReflTransGen (PartOf whitelist)

variable {whitelist : Whitelist} {path : Path} {slot : String}

theorem Task.mem_ofItems {parts : Value} {part : Task} (h : part ∈ Task.ofItems path slot parts) :
    part = .hole ∨ ∃ id items other tree, (parts = .list id items ∨ parts = .tuple id items) ∧
      .node other tree ∈ items ∧ part = .node (path.down slot tree) := by
  have hitems : ∀ {items : List Value}, part ∈ items.filterMap (Task.ofItem? path slot) →
      part = .hole ∨ ∃ other tree, .node other tree ∈ items ∧
        part = .node (path.down slot tree) := by
    intro items h
    obtain ⟨item, hm, hi⟩ := List.mem_filterMap.mp h
    cases item with
    | null =>
      cases hi
      exact .inl rfl
    | node other tree =>
      cases hi
      exact .inr ⟨other, tree, hm, rfl⟩
    | _ => cases hi
  cases parts with
  | list id items =>
    exact (hitems h).imp_right fun ⟨other, tree, hm, he⟩ =>
      ⟨id, items, other, tree, .inl rfl, hm, he⟩
  | tuple id items =>
    exact (hitems h).imp_right fun ⟨other, tree, hm, he⟩ =>
      ⟨id, items, other, tree, .inr rfl, hm, he⟩
  | _ => cases h

/-! ## Identities of parts -/

/-- The identities in the tree of a task. -/
def Task.ids : Task → List Identity
  | .node path => Value.idsNode path.node
  | .hole | .object _ => []

theorem ids_subset_of_part {q : Path} (h : path.Part slot q) :
    Value.idsNode q.node ⊆ Value.idsNode path.node := by
  obtain ⟨id, tree, hf, rfl⟩ := h
  exact fun i hm => Value.ids_subset_of_field? hf (.tail _ hm)

theorem Task.ids_subset_of_mem_ofItems {parts : Value} {part : Task}
    (h : part ∈ Task.ofItems path slot parts) : part.ids ⊆ parts.ids := by
  rcases Task.mem_ofItems h with rfl | ⟨id, items, other, tree, hparts, hm, rfl⟩
  · exact List.nil_subset _
  · have hitems : Value.idsNode tree ⊆ Value.idsEach items :=
      fun i hi => Value.ids_subset_of_mem hm (.tail _ hi)
    rcases hparts with rfl | rfl <;> exact fun i hi => .tail _ (hitems hi)

theorem Task.Root.ids_subset {target : Value} {part : Task}
    (h : Task.Root path slot target part) : part.ids ⊆ target.ids := by
  cases h with
  | object => exact List.nil_subset _
  | node => exact fun i hi => .tail _ hi

theorem Calls.ids_subset {function : Function} {tasks : List Task} {part : Task}
    (h : Calls whitelist path function tasks) (hm : part ∈ tasks) :
    part.ids ⊆ Value.idsNode path.node := by
  cases h with
  | name _ _ _ _ ha =>
    exact fun i hi => Value.ids_subset_of_field? ha (Task.ids_subset_of_mem_ofItems hm hi)
  | ofCustom _ _ _ ha =>
    exact fun i hi => Value.ids_subset_of_field? ha (Task.ids_subset_of_mem_ofItems hm hi)
  | method hmethod _ _ hroot ha =>
    rcases List.mem_cons.mp hm with rfl | hm
    · obtain ⟨callee, _, _, _, hc, _, _, _, _, _, _, hobject⟩ := hmethod
      exact fun i hi => Value.ids_subset_of_field? hc (hobject.ids_subset (hroot.ids_subset hi))
    · exact fun i hi => Value.ids_subset_of_field? ha (Task.ids_subset_of_mem_ofItems hm hi)

theorem PartOf.ids_subset {task part : Task} (h : PartOf whitelist task part) :
    part.ids ⊆ task.ids := by
  cases h with
  | slot _ _ hp => exact ids_subset_of_part hp
  | item _ _ hf hm =>
    exact fun i hi => Value.ids_subset_of_field? hf (Task.ids_subset_of_mem_ofItems hm hi)
  | root _ ho hroot =>
    exact fun i hi => Value.ids_subset_of_field? ho (hroot.ids_subset hi)
  | operand _ hcalls hm => exact hcalls.ids_subset hm

theorem Reaches.ids_subset {task part : Task} (h : Reaches whitelist task part) :
    part.ids ⊆ task.ids := by
  induction h with
  | refl => exact List.Subset.refl _
  | tail _ hp ih => exact fun i hi => ih (hp.ids_subset hi)

end Semantics

/-! ## Properties of closures -/

/-- The property is preserved when closures are put together. -/
structure Closure.Compositional (P : Closure → Prop) : Prop where
  choice : ∀ {test consequent alternate : Closure}, P test → P consequent → P alternate →
    P (Closure.choice test consequent alternate)
  logical : ∀ (operator : LogicalOperator) {left right : Closure}, P left → P right →
    P (Closure.logical operator left right)
  binary : ∀ (operator : BinaryOperator) {left right : Closure}, P left → P right →
    P (Closure.binary operator left right)
  unary : ∀ (operator : UnaryOperator) {argument : Closure}, P argument →
    P (Closure.unary operator argument)
  array : ∀ {elements : List Closure}, (∀ closure ∈ elements, P closure) →
    P (Closure.array elements)
  map : ∀ {properties : List Closure}, (∀ closure ∈ properties, P closure) →
    P (Closure.object properties)
  property : ∀ {key value : Closure}, P key → P value → P (Closure.property key value)
  member : ∀ (node : Node) {target key : Closure}, P target → P key →
    P (Closure.member node target key)

namespace Semantics

variable {whitelist : Whitelist} {task inner : Task} {closure : Closure}

/-- The task reaches a hole, a literal or a name that stands for this very value. -/
inductive HasConstant (whitelist : Whitelist) (task : Task) : Value → Prop where

  | hole : HasConstant whitelist task .null

  | literal {path : Path} {value : Value} :
      Reaches whitelist task (.node path) → path.node.kind = some "Literal" →
      path.node.field? "value" = some value → HasConstant whitelist task value

  | ownName {path : Path} {name : Value} :
      Reaches whitelist task (.node path) → path.node.kind = some "Identifier" →
      path.NamesItself → path.node.field? "name" = some name → HasConstant whitelist task name

theorem HasConstant.ids_subset {value : Value} (h : HasConstant whitelist task value) :
    value.ids ⊆ task.ids := by
  cases h with
  | hole => exact List.nil_subset _
  | literal hreached _ hf | ownName hreached _ _ hf =>
    exact fun i hi => hreached.ids_subset (Value.ids_subset_of_field? hf hi)

theorem HasConstant.part {value : Value} (h : HasConstant whitelist inner value)
    (hp : PartOf whitelist task inner) : HasConstant whitelist task value := by
  cases h with
  | hole => exact .hole
  | literal hreached hk hf => exact .literal (.head hp hreached) hk hf
  | ownName hreached hk hself hf => exact .ownName (.head hp hreached) hk hself hf

/-- The property holds of the leaves that the task reaches. -/
structure HoldsOfLeaves (whitelist : Whitelist) (task : Task) (P : Closure → Prop) : Prop where
  constant : ∀ value, HasConstant whitelist task value → P (Closure.constant value)
  lookup : ∀ path name, Reaches whitelist task (.node path) →
    path.node.kind = some "Identifier" → ¬ path.NamesItself →
    path.node.field? "name" = some name → P (Closure.lookup path.node name)
  object : ∀ name accessor, Reaches whitelist task (.object name) →
    whitelist.objects.lookup name = some accessor → P accessor
  call : ∀ path function tasks (receiver : Option Closure) (closures : List Closure),
    Reaches whitelist task (.node path) → Calls whitelist path function tasks →
    (∀ closure ∈ receiver.toList ++ closures, P closure) →
    P (Closure.call path.node function receiver closures)

theorem HoldsOfLeaves.part {P : Closure → Prop} (h : HoldsOfLeaves whitelist task P)
    (hp : PartOf whitelist task inner) : HoldsOfLeaves whitelist inner P where
  constant value hv := h.constant value (hv.part hp)
  lookup path name hreached := h.lookup path name (.head hp hreached)
  object name accessor hreached := h.object name accessor (.head hp hreached)
  call path function tasks receiver closures hreached :=
    h.call path function tasks receiver closures (.head hp hreached)

/-- What a task compiles to has a property if the leaves have it and putting closures together
preserves it. -/
theorem CompiledFrom.satisfies {P : Closure → Prop} (h : CompiledFrom whitelist closure task)
    (hP : Closure.Compositional P) (hleaves : HoldsOfLeaves whitelist task P) : P closure := by
  induction h with
  | hole => exact hleaves.constant _ .hole
  | object hl => exact hleaves.object _ _ .refl hl
  | literal hk hv => exact hleaves.constant _ (.literal .refl hk hv)
  | ownName hk hself hn => exact hleaves.constant _ (.ownName .refl hk hself hn)
  | lookup hk hself hn => exact hleaves.lookup _ _ .refl hk hself hn
  | choice hk pt pc pa _ _ _ it ic ia =>
    have ht := it (hleaves.part (.slot hk (by decide) pt))
    have hc := ic (hleaves.part (.slot hk (by decide) pc))
    have ha := ia (hleaves.part (.slot hk (by decide) pa))
    exact hP.choice ht hc ha
  | logical hk _ _ pl pr _ _ il ir =>
    have hl := il (hleaves.part (.slot hk (by decide) pl))
    have hr := ir (hleaves.part (.slot hk (by decide) pr))
    exact hP.logical _ hl hr
  | binary hk _ _ pl pr _ _ il ir =>
    have hl := il (hleaves.part (.slot hk (by decide) pl))
    have hr := ir (hleaves.part (.slot hk (by decide) pr))
    exact hP.binary _ hl hr
  | unary hk _ _ pq _ iq => exact hP.unary _ (iq (hleaves.part (.slot hk (by decide) pq)))
  | array hk he hlength _ ih =>
    exact hP.array (forall_of_zip hlength fun hm hpart =>
      ih hm (hleaves.part (.item hk (by decide) he hpart)))
  | map hk hp hlength _ ih =>
    exact hP.map (forall_of_zip hlength fun hm hpart =>
      ih hm (hleaves.part (.item hk (by decide) hp hpart)))
  | property hk pk pq _ _ ik iq =>
    have hkey := ik (hleaves.part (.slot hk (by decide) pk))
    have hvalue := iq (hleaves.part (.slot hk (by decide) pq))
    exact hP.property hkey hvalue
  | member hk ho pt pk _ _ it ik =>
    have htarget := it (hleaves.part (.root hk ho pt))
    have hkey := ik (hleaves.part (.slot hk (by decide) pk))
    exact hP.member _ htarget hkey
  | call hk hc hlength _ ih =>
    have hcalls := (hc _ _).mpr ⟨rfl, rfl⟩
    exact hleaves.call _ _ _ _ _ .refl hcalls (forall_of_zip hlength fun hm hpart =>
      ih hm (hleaves.part (.operand hk hcalls hpart)))

end Semantics

end GatedExpr
