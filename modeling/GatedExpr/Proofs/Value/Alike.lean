import Mathlib.Tactic.Basic
import GatedExpr.Evaluation
import GatedExpr.Table

/-! # Values alike

Which identities an evaluation hands out depends on how many were handed out before it. A
correspondence says which identities of one run stand for which ones of another, and values are
alike if they differ in corresponding identities only. Attributes of host objects that nothing
can read may be left out of the comparison.
-/

namespace GatedExpr

namespace Value

mutual

/-- The identities of a value and of whatever it holds. -/
def ids : Value → List Identity
  | .null | .bool _ | .text _ | .absent => []
  | .number id _ | .function id _ | .span id _ => [id]
  | .list id items | .tuple id items => id :: idsEach items
  | .map id entries | .object id entries => id :: idsEntries entries
  | .method id receiver _ => id :: receiver.ids
  | .node id tree => id :: idsNode tree

def idsEach : List Value → List Identity
  | [] => []
  | item :: items => item.ids ++ idsEach items

def idsEntries : List (String × Value) → List Identity
  | [] => []
  | (_, value) :: entries => value.ids ++ idsEntries entries

def idsNode : Node → List Identity
  | ⟨_, _, _, children, fields⟩ => idsChildren children ++ idsEntries fields

def idsChildren : Option (List Value) → List Identity
  | none => []
  | some items => idsEach items

end

theorem ids_subset_of_mem {items : List Value} {item : Value} (h : item ∈ items) :
    item.ids ⊆ idsEach items := by
  induction h with
  | head => exact List.subset_append_left _ _
  | tail _ _ ih => exact fun id hm => List.mem_append_right _ (ih hm)

theorem ids_subset_of_lookup {entries : List (String × Value)} {name : String} {value : Value}
    (h : entries.lookup name = some value) : value.ids ⊆ idsEntries entries := by
  induction entries with
  | nil => cases h
  | cons entry entries ih =>
    obtain ⟨key, held⟩ := entry
    rw [List.lookup_cons] at h
    split at h
    · cases h
      exact List.subset_append_left _ _
    · exact fun id hm => List.mem_append_right _ (ih h hm)

theorem ids_subset_of_field? {node : Node} {name : String} {value : Value}
    (h : node.field? name = some value) : value.ids ⊆ idsNode node := by
  cases node
  rw [idsNode]
  exact fun id hm => List.mem_append_right _ (ids_subset_of_lookup h hm)

end Value

/-- Which identities of one run stand for which ones of another, and in what else the two may
differ. -/
structure Correspondence where
  same : Identity → Identity → Prop
  unique : ∀ {i j i' j' : Identity}, same i i' → same j j' → (i = j ↔ i' = j')
  builtIn : ∀ {id : Identity}, id < World.firstFreeId → same id id
  /-- The attributes of host objects that are left out. -/
  hidden : String → Prop
  hidden_private : ∀ {name : String}, hidden name → name.toList.head? = some '_'
  /-- Which states of the random numbers go together. -/
  seeds : Nat → Nat → Prop
  /-- The calls that either run found made already. -/
  calls : List Call
  otherCalls : List Call

namespace Correspondence

/-- What is left out of an object. A new one is made of all that it is given. -/
def hides (c : Correspondence) (id : Identity) (name : String) : Prop :=
  id ≠ .unassigned ∧ c.hidden name

/-- Leaves nothing out. -/
def nothing (_ : String) : Prop :=
  False

theorem nothing_private {name : String} (h : nothing name) : name.toList.head? = some '_' :=
  h.elim

theorem eq_unique {i j i' j' : Identity} (h : i = i') (h' : j = j') : i = j ↔ i' = j' := by
  rw [h, h']

mutual

/-- The values are the same up to corresponding identities and hidden attributes. -/
inductive Alike (c : Correspondence) : Value → Value → Prop where
  | null : Alike c .null .null
  | bool {b : Bool} : Alike c (.bool b) (.bool b)
  | number {i j : Identity} {n : Number} : c.same i j → Alike c (.number i n) (.number j n)
  | text {s : String} : Alike c (.text s) (.text s)
  | list {i j : Identity} {items others : List Value} :
      c.same i j → AlikeEach c items others → Alike c (.list i items) (.list j others)
  | tuple {i j : Identity} {items others : List Value} :
      c.same i j → AlikeEach c items others → Alike c (.tuple i items) (.tuple j others)
  | map {i j : Identity} {entries others : List (String × Value)} :
      c.same i j → AlikeEntries c nothing entries others → Alike c (.map i entries) (.map j others)
  | object {i j : Identity} {attributes others : List (String × Value)} :
      c.same i j → AlikeEntries c (c.hides i) attributes others →
        Alike c (.object i attributes) (.object j others)
  | function {i j : Identity} {name : String} :
      c.same i j → Alike c (.function i name) (.function j name)
  | method {i j : Identity} {receiver other : Value} {name : String} :
      c.same i j → Alike c receiver other → Alike c (.method i receiver name) (.method j other name)
  | node {i j : Identity} {tree other : Node} :
      c.same i j → AlikeNodes c tree other → Alike c (.node i tree) (.node j other)
  | span {i j : Identity} {range : Span} : c.same i j → Alike c (.span i range) (.span j range)
  | absent : Alike c .absent .absent

inductive AlikeEach (c : Correspondence) : List Value → List Value → Prop where
  | nil : AlikeEach c [] []
  | cons {v w : Value} {items others : List Value} :
      Alike c v w → AlikeEach c items others → AlikeEach c (v :: items) (w :: others)

/-- The entries are alike, name by name, except under names that are left out. -/
inductive AlikeEntries (c : Correspondence) : (String → Prop) → List (String × Value) →
    List (String × Value) → Prop where
  | nil {out : String → Prop} : AlikeEntries c out [] []
  | cons {out : String → Prop} {name : String} {v w : Value}
      {entries others : List (String × Value)} :
      Alike c v w → AlikeEntries c out entries others →
        AlikeEntries c out ((name, v) :: entries) ((name, w) :: others)
  | leftOut {out : String → Prop} {name : String} {v w : Value}
      {entries others : List (String × Value)} :
      out name → AlikeEntries c out entries others →
        AlikeEntries c out ((name, v) :: entries) ((name, w) :: others)

inductive AlikeNodes (c : Correspondence) : Node → Node → Prop where
  | mk {kind : Option String} {span : Option Span} {raw : Option String}
      {children others : Option (List Value)} {fields values : List (String × Value)} :
      AlikeChildren c children others → AlikeEntries c nothing fields values →
        AlikeNodes c ⟨kind, span, raw, children, fields⟩ ⟨kind, span, raw, others, values⟩

inductive AlikeChildren (c : Correspondence) :
    Option (List Value) → Option (List Value) → Prop where
  | none : AlikeChildren c none none
  | some {items others : List Value} :
      AlikeEach c items others → AlikeChildren c (some items) (some others)

end

variable {c : Correspondence}

theorem same_zero : c.same .unassigned .unassigned :=
  c.builtIn (by decide)

/-! ## Values that keep their identities -/

mutual

/-- A value is alike itself if its identities stand for themselves. -/
theorem alike_self : (v : Value) → (∀ id ∈ v.ids, c.same id id) → c.Alike v v
  | .null, _ => .null
  | .bool _, _ => .bool
  | .number _ _, h => .number (h _ List.mem_cons_self)
  | .text _, _ => .text
  | .list _ items, h =>
    .list (h _ List.mem_cons_self) (alikeEach_self items fun _ hm => h _ (.tail _ hm))
  | .tuple _ items, h =>
    .tuple (h _ List.mem_cons_self) (alikeEach_self items fun _ hm => h _ (.tail _ hm))
  | .map _ entries, h =>
    .map (h _ List.mem_cons_self) (alikeEntries_self _ entries fun _ hm => h _ (.tail _ hm))
  | .object _ attributes, h =>
    .object (h _ List.mem_cons_self) (alikeEntries_self _ attributes fun _ hm => h _ (.tail _ hm))
  | .function _ _, h => .function (h _ List.mem_cons_self)
  | .method _ receiver _, h =>
    .method (h _ List.mem_cons_self) (alike_self receiver fun _ hm => h _ (.tail _ hm))
  | .node _ tree, h =>
    .node (h _ List.mem_cons_self) (alikeNodes_self tree fun _ hm => h _ (.tail _ hm))
  | .span _ _, h => .span (h _ List.mem_cons_self)
  | .absent, _ => .absent

theorem alikeEach_self : (items : List Value) → (∀ id ∈ Value.idsEach items, c.same id id) →
    c.AlikeEach items items
  | [], _ => .nil
  | item :: items, h =>
    .cons (alike_self item fun _ hm => h _ (List.mem_append_left _ hm))
      (alikeEach_self items fun _ hm => h _ (List.mem_append_right _ hm))

theorem alikeEntries_self (out : String → Prop) : (entries : List (String × Value)) →
    (∀ id ∈ Value.idsEntries entries, c.same id id) → c.AlikeEntries out entries entries
  | [], _ => .nil
  | (_, value) :: entries, h =>
    .cons (alike_self value fun _ hm => h _ (List.mem_append_left _ hm))
      (alikeEntries_self out entries fun _ hm => h _ (List.mem_append_right _ hm))

theorem alikeNodes_self : (node : Node) → (∀ id ∈ Value.idsNode node, c.same id id) →
    c.AlikeNodes node node
  | ⟨_, _, _, children, fields⟩, h =>
    .mk (alikeChildren_self children fun _ hm => h _ (List.mem_append_left _ hm))
      (alikeEntries_self _ fields fun _ hm => h _ (List.mem_append_right _ hm))

theorem alikeChildren_self : (children : Option (List Value)) →
    (∀ id ∈ Value.idsChildren children, c.same id id) → c.AlikeChildren children children
  | none, _ => .none
  | some items, h => .some (alikeEach_self items h)

end

/-! ## Lists and entries -/

namespace AlikeEach

variable {items others more rest : List Value}

theorem length_eq (h : c.AlikeEach items others) : items.length = others.length := by
  induction items generalizing others with
  | nil => cases h; rfl
  | cons v items ih => cases h with | cons _ h => simp only [List.length_cons, ih h]

theorem append (h : c.AlikeEach items others) (h' : c.AlikeEach more rest) :
    c.AlikeEach (items ++ more) (others ++ rest) := by
  induction items generalizing others with
  | nil => cases h; exact h'
  | cons v items ih => cases h with | cons hv h => exact .cons hv (ih h)

/-- Both lists have an item at a place, or neither has. -/
theorem getD (h : c.AlikeEach items others) (place : Option Nat) :
    c.Alike ((place.bind (items[·]?)).getD .null) ((place.bind (others[·]?)).getD .null) := by
  cases place with
  | none => exact .null
  | some n =>
    simp only [Option.bind_some]
    induction items generalizing others n with
    | nil => cases h; exact .null
    | cons v items ih =>
      cases h with
      | cons hv h =>
        cases n with
        | zero => exact hv
        | succ n => exact ih h n

end AlikeEach

/-- Both are missing, or both are there and alike. -/
inductive AlikeIfAny (c : Correspondence) : Option Value → Option Value → Prop where
  | none : AlikeIfAny c none none
  | some {v w : Value} : c.Alike v w → AlikeIfAny c (some v) (some w)

theorem AlikeIfAny.getD {v? w? : Option Value} (h : c.AlikeIfAny v? w?) :
    c.Alike (v?.getD .null) (w?.getD .null) := by
  cases h with
  | none => exact .null
  | some h => exact h

namespace AlikeEntries

variable {out : String → Prop} {entries others : List (String × Value)}

theorem names_eq (h : c.AlikeEntries out entries others) :
    entries.map (·.1) = others.map (·.1) := by
  induction entries generalizing others with
  | nil => cases h; rfl
  | cons entry entries ih =>
    cases h with
    | cons _ h => simp only [List.map_cons, ih h]
    | leftOut _ h => simp only [List.map_cons, ih h]

theorem lookup (h : c.AlikeEntries out entries others) {name : String} (hname : ¬ out name) :
    c.AlikeIfAny (entries.lookup name) (others.lookup name) := by
  induction entries generalizing others with
  | nil => cases h; exact .none
  | cons entry entries ih =>
    cases h with
    | @cons _ key v w _ _ hv h =>
      rw [List.lookup_cons, List.lookup_cons]
      split
      · exact .some hv
      · exact ih h
    | @leftOut _ key v w _ _ hout h =>
      rw [List.lookup_cons, List.lookup_cons]
      split
      · next he => exact absurd (eq_of_beq he ▸ hout) hname
      · exact ih h

theorem set (h : c.AlikeEntries nothing entries others) {v w : Value} (hv : c.Alike v w)
    (name : String) :
    c.AlikeEntries nothing (Table.set name v entries) (Table.set name w others) := by
  induction entries generalizing others with
  | nil => cases h; exact .cons hv .nil
  | cons entry entries ih =>
    cases h with
    | @cons _ key old other _ _ hold h =>
      unfold Table.set
      split
      · exact .cons hv h
      · exact .cons hold (ih h)
    | leftOut hout _ => exact hout.elim

end AlikeEntries

end Correspondence

end GatedExpr
