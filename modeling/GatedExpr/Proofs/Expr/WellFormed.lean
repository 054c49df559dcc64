import Mathlib.Data.List.Forall2
import GatedExpr.Proofs.Closure.Blame
import GatedExpr.Proofs.Expr.Identities
import GatedExpr.Proofs.Expr.Printed
import GatedExpr.Proofs.Gate.Admission

/-! # Well-formed trees

The compiler and the printer read fields of nodes without looking whether they are there. Every
node of a parsed tree has the fields of its kind and what they should hold, so neither of the two
ever fails on such a tree for want of something.
-/

namespace GatedExpr

/-! ## Kinds and fields -/

/-- What a field of a node should hold. -/
inductive Holding where
  | node (kinds : List String)
  | nodes (kinds : List String)
  /-- Nodes or holes, which are null. -/
  | elements (kinds : List String)
  | text
  | truth
  | constant

namespace Value

/-- The value is a node of one of the kinds. -/
def IsOfKinds (kinds : List String) (value : Value) : Prop :=
  ∃ node kind, value = .ofTree node ∧ node.kind = some kind ∧ kind ∈ kinds

/-- The value is one that a literal can stand for. -/
inductive IsConstant : Value → Prop where
  | null : IsConstant .null
  | bool (b : Bool) : IsConstant (.bool b)
  | number (n : Number) : IsConstant (.ofNumber n)
  | text (s : String) : IsConstant (.text s)

end Value

namespace Holding

def Fits : Holding → Value → Prop
  | node kinds, value => value.IsOfKinds kinds
  | nodes kinds, value => ∃ items, value = .ofList items ∧ ∀ item ∈ items, item.IsOfKinds kinds
  | elements kinds, value =>
    ∃ items, value = .ofList items ∧ ∀ item ∈ items, item = .null ∨ item.IsOfKinds kinds
  | text, value => ∃ s, value = .text s
  | truth, value => ∃ b, value = .bool b
  | constant, value => value.IsConstant

end Holding

namespace Node

/-- The kinds of nodes that have values of their own. -/
def valueKinds : List String :=
  ["ConditionalExpression", "BinaryExpression", "UnaryExpression", "ArrayExpression",
    "ObjectExpression", "Identifier", "Literal", "MemberExpression", "CallExpression"]

def keyKinds : List String :=
  ["Identifier", "Literal"]

/-- All kinds of nodes with their fields. -/
def schema : List (String × List (String × Holding)) :=
  [("ConditionalExpression",
      [("test", .node valueKinds), ("consequent", .node valueKinds),
        ("alternate", .node valueKinds)]),
    ("BinaryExpression",
      [("operator", .text), ("left", .node valueKinds), ("right", .node valueKinds)]),
    ("UnaryExpression", [("operator", .text), ("argument", .node valueKinds)]),
    ("ArrayExpression", [("elements", .elements valueKinds)]),
    ("ObjectExpression", [("properties", .nodes ["Property"])]),
    ("Property", [("key", .node keyKinds), ("value", .node valueKinds)]),
    ("Identifier", [("name", .text)]),
    ("Literal", [("value", .constant)]),
    ("MemberExpression",
      [("object", .node valueKinds), ("property", .node valueKinds), ("computed", .truth)]),
    ("CallExpression", [("callee", .node valueKinds), ("arguments", .nodes valueKinds)])]

/-- The node has exactly the fields of its kind, in their order and with what they should hold,
and nothing else below it. -/
def FitsSchema (node : Node) : Prop :=
  node.children = none ∧ ∃ kind slots, node.kind = some kind ∧ schema.lookup kind = some slots ∧
    List.Forall₂ (fun field slot => field.1 = slot.1 ∧ slot.2.Fits field.2) node.fields slots

end Node

/-- Every field of the kind of a node can be read, and it holds what it should. -/
theorem Node.FitsSchema.exists_field {node : Node} (h : node.FitsSchema) {kind name : String}
    {slots : List (String × Holding)} {holding : Holding} (hk : node.kind = some kind)
    (hs : schema.lookup kind = some slots) (hl : slots.lookup name = some holding) :
    ∃ value, node.field? name = some value ∧ holding.Fits value := by
  obtain ⟨_, kind', slots', hk', hs', hfields⟩ := h
  cases hk.symm.trans hk'
  cases hs.symm.trans hs'
  rw [Node.field?]
  generalize node.fields = fields at hfields ⊢
  clear hs hs'
  induction hfields with
  | nil => cases hl
  | @cons field slot fields slots hfits _ ih =>
    obtain ⟨key, value⟩ := field
    obtain ⟨_, held⟩ := slot
    obtain ⟨rfl, hfits⟩ := hfits
    rw [List.lookup_cons] at hl ⊢
    cases hname : name == key with
    | true =>
      simp only [hname] at hl
      cases hl
      exact ⟨value, rfl, hfits⟩
    | false =>
      simp only [hname] at hl
      exact ih hl

/-! ## Places -/

namespace Path

/-- The places of nodes in a tree: in slots, in lists in slots and among explicit children. -/
inductive Within (tree : Node) : Path → Prop where

  | root : Within tree (.root tree)

  | slot {path : Path} {id : Identity} {slot : String} {node : Node} :
      Within tree path → (slot, .node id node) ∈ path.node.fields →
      Within tree (path.down slot node)

  | item {path : Path} {id inner : Identity} {slot : String} {items : List Value} {node : Node} :
      Within tree path → (slot, .list id items) ∈ path.node.fields → .node inner node ∈ items →
      Within tree (path.down slot node)

  | child {path : Path} {id : Identity} {children : List Value} {node : Node} :
      Within tree path → path.node.children = some children → .node id node ∈ children →
      Within tree (path.down "children" node)

/-- A node at its place has all that the compiler and the printer rely on. -/
structure WellFormed (path : Path) : Prop where
  fields : path.node.FitsSchema
  binary : path.node.kind = some "BinaryExpression" →
    ∃ symbol, path.node.field? "operator" = some (.text symbol) ∧
      ((BinaryOperator.ofSymbol? symbol).isSome ∨ (LogicalOperator.ofSymbol? symbol).isSome)
  unary : path.node.kind = some "UnaryExpression" →
    ∃ symbol, path.node.field? "operator" = some (.text symbol) ∧
      (UnaryOperator.ofSymbol? symbol).isSome
  member : path.node.kind = some "MemberExpression" →
    path.node.field? "computed" = some (.bool false) →
    ∃ span name, path.node.field? "property" = some (.identifier span name)
  key : path.node.kind = some "Property" → ∃ key, path.node.field? "key" = some key ∧
    ((∃ span name, key = .identifier span name) ∨
      ∃ span raw value, key = .literal span raw value ∧
        (Token.IsNumber raw value ∨ Token.IsString raw value))
  literal : path.node.kind = some "Literal" → ∃ raw value, path.node.raw = some raw ∧
    path.node.field? "value" = some value ∧
      (Token.IsNumber raw value ∨ Token.IsString raw value ∨ Token.IsKeyword raw value)
  name : path.node.kind = some "Identifier" → ¬ path.NamesItself →
    ∃ name, path.node.field? "name" = some (.text name) ∧ name ∉ Token.reservedWords
  prints : ∃ text, (Value.ofTree path.node).printTree = .ok (.text text)
  /-- Whatever the whitelist is, compiling can be refused for want of a permission only. -/
  compiles : ∀ (whitelist : Whitelist) (ws : List Warning) (failure : Failure)
    (ws' : List Warning), (whitelist.compile path).run ws = (.error failure, ws') →
    ∃ s, failure.fault = .unauthorizedIdentifier (.text s) ∨
      failure.fault = .unauthorizedCall (.text s)

end Path

/-! ## What trees show -/

theorem DepictsEach.exists_of_mem {role : Role} {items : List Value} {es : List Expr} {item : Value}
    (h : DepictsEach role items es) (hm : item ∈ items) : ∃ e, Depicts role item e := by
  rw [← List.map_fst_zip (Nat.le_of_eq h.1), List.mem_map] at hm
  obtain ⟨⟨v, e⟩, hm, rfl⟩ := hm
  exact ⟨e, h.2 v e hm⟩

theorem Token.isConstant {raw : String} {value : Value}
    (h : IsNumber raw value ∨ IsString raw value ∨ IsKeyword raw value) : value.IsConstant := by
  rcases h with ⟨_, n, _, rfl⟩ | ⟨_, rfl⟩ | h
  · exact .number n
  · exact .text _
  · cases h with
    | true => exact .bool true
    | false => exact .bool false
    | null => exact .null

namespace Depicts

variable {role : Role} {id : Identity} {v : Value} {e : Expr} {node : Node}

theorem isOfKinds_value (h : Depicts .value v e) : v.IsOfKinds Node.valueKinds := by
  cases h <;> exact ⟨_, _, rfl, rfl, by decide⟩

theorem isOfKinds_key (h : Depicts .key v e) : v.IsOfKinds Node.keyKinds := by
  cases h <;> exact ⟨_, _, rfl, rfl, by decide⟩

theorem isOfKinds_property (h : Depicts .property v e) : v.IsOfKinds ["Property"] := by
  cases h
  exact ⟨_, _, rfl, rfl, by decide⟩

theorem isOfKinds_element (h : Depicts .element v e) :
    v = .null ∨ v.IsOfKinds Node.valueKinds := by
  cases h with
  | hole => exact .inl rfl
  | element h => exact .inr h.isOfKinds_value

theorem isOfKinds_identifier (span : Span) (name : String) :
    (Value.identifier span name).IsOfKinds Node.valueKinds :=
  ⟨_, _, rfl, rfl, by decide⟩

theorem fitsSchema (h : Depicts role (.node id node) e) : node.FitsSchema := by
  generalize hv : Value.node id node = v at h
  induction h with
  | hole => cases hv
  | element _ ih => exact ih hv
  | literal hl =>
    cases hv
    exact ⟨rfl, _, _, rfl, rfl, .cons ⟨rfl, Token.isConstant hl⟩ .nil⟩
  | keyLiteral hl =>
    cases hv
    exact ⟨rfl, _, _, rfl, rfl, .cons ⟨rfl, Token.isConstant (hl.imp_right .inl)⟩ .nil⟩
  | name | keyName =>
    cases hv
    exact ⟨rfl, _, _, rfl, rfl, .cons ⟨rfl, _, rfl⟩ .nil⟩
  | array hl hall =>
    cases hv
    refine ⟨rfl, _, _, rfl, rfl, .cons ⟨rfl, _, rfl, fun item hm => ?_⟩ .nil⟩
    obtain ⟨e, he⟩ := DepictsEach.exists_of_mem ⟨hl, hall⟩ hm
    exact he.isOfKinds_element
  | property hk hv' =>
    cases hv
    exact ⟨rfl, _, _, rfl, rfl,
      .cons ⟨rfl, hk.isOfKinds_key⟩ <| .cons ⟨rfl, hv'.isOfKinds_value⟩ .nil⟩
  | object hl hall =>
    cases hv
    refine ⟨rfl, _, _, rfl, rfl, .cons ⟨rfl, _, rfl, fun item hm => ?_⟩ .nil⟩
    obtain ⟨e, he⟩ := DepictsEach.exists_of_mem ⟨hl, hall⟩ hm
    exact he.isOfKinds_property
  | member ht =>
    cases hv
    exact ⟨rfl, _, _, rfl, rfl, .cons ⟨rfl, ht.isOfKinds_value⟩ <|
      .cons ⟨rfl, isOfKinds_identifier _ _⟩ <| .cons ⟨rfl, _, rfl⟩ .nil⟩
  | index ht hk =>
    cases hv
    exact ⟨rfl, _, _, rfl, rfl, .cons ⟨rfl, ht.isOfKinds_value⟩ <|
      .cons ⟨rfl, hk.isOfKinds_value⟩ <| .cons ⟨rfl, _, rfl⟩ .nil⟩
  | call hc hl hall =>
    cases hv
    refine ⟨rfl, _, _, rfl, rfl, .cons ⟨rfl, hc.isOfKinds_value⟩ <|
      .cons ⟨rfl, _, rfl, fun item hm => ?_⟩ .nil⟩
    obtain ⟨e, he⟩ := DepictsEach.exists_of_mem ⟨hl, hall⟩ hm
    exact he.isOfKinds_value
  | unary _ ha =>
    cases hv
    exact ⟨rfl, _, _, rfl, rfl, .cons ⟨rfl, _, rfl⟩ <|
      .cons ⟨rfl, ha.isOfKinds_value⟩ .nil⟩
  | binary _ hl hr =>
    cases hv
    exact ⟨rfl, _, _, rfl, rfl, .cons ⟨rfl, _, rfl⟩ <|
      .cons ⟨rfl, hl.isOfKinds_value⟩ <| .cons ⟨rfl, hr.isOfKinds_value⟩ .nil⟩
  | choice ht hc ha =>
    cases hv
    exact ⟨rfl, _, _, rfl, rfl, .cons ⟨rfl, ht.isOfKinds_value⟩ <|
      .cons ⟨rfl, hc.isOfKinds_value⟩ <| .cons ⟨rfl, ha.isOfKinds_value⟩ .nil⟩

/-- What a field of a tree holds. Keys stand only where nodes name themselves. -/
inductive InField (node : Node) (slot : String) : Value → Prop where

  | part {v : Value} {e : Expr} : Depicts .value v e → InField node slot v

  | ownName {v : Value} {e : Expr} : Depicts .key v e →
      (∀ (path : Path) (child : Node), path.node = node → (path.down slot child).NamesItself) →
      InField node slot v

  | parts {role : Role} {items : List Value} {es : List Expr} : DepictsEach role items es →
      role ≠ .key → InField node slot (.ofList items)

  | constant {v : Value} : v.IsConstant → InField node slot v

theorem inField (h : Depicts role (.node id node) e) :
    ∀ field ∈ node.fields, InField node field.1 field.2 := by
  generalize hv : Value.node id node = v at h
  induction h with
  | hole => cases hv
  | element _ ih => exact ih hv
  | literal hl =>
    cases hv
    exact List.forall_mem_singleton.mpr (.constant (Token.isConstant hl))
  | keyLiteral hl =>
    cases hv
    exact List.forall_mem_singleton.mpr (.constant (Token.isConstant (hl.imp_right .inl)))
  | name | keyName =>
    cases hv
    exact List.forall_mem_singleton.mpr (.constant (.text _))
  | array hl hall =>
    cases hv
    exact List.forall_mem_singleton.mpr (.parts ⟨hl, hall⟩ nofun)
  | property hk hw =>
    cases hv
    refine List.forall_mem_cons.mpr ⟨.ownName hk fun path child hn => ?_,
      List.forall_mem_singleton.mpr (.part hw)⟩
    exact ⟨path.node, rfl, .inl ⟨by rw [hn]; rfl, rfl⟩⟩
  | object hl hall =>
    cases hv
    exact List.forall_mem_singleton.mpr (.parts ⟨hl, hall⟩ nofun)
  | member ht hs =>
    cases hv
    refine List.forall_mem_cons.mpr ⟨.part ht, List.forall_mem_cons.mpr
      ⟨.ownName (.keyName hs) fun path child hn => ?_,
        List.forall_mem_singleton.mpr (.constant (.bool false))⟩⟩
    refine ⟨path.node, rfl, .inr ⟨by rw [hn]; rfl, rfl, .bool false, ?_, rfl⟩⟩
    rw [hn]
    rfl
  | index ht hk =>
    cases hv
    exact List.forall_mem_cons.mpr ⟨.part ht, List.forall_mem_cons.mpr
      ⟨.part hk, List.forall_mem_singleton.mpr (.constant (.bool true))⟩⟩
  | call hc hl hall =>
    cases hv
    exact List.forall_mem_cons.mpr
      ⟨.part hc, List.forall_mem_singleton.mpr (.parts ⟨hl, hall⟩ nofun)⟩
  | unary _ ha =>
    cases hv
    exact List.forall_mem_cons.mpr
      ⟨.constant (.text _), List.forall_mem_singleton.mpr (.part ha)⟩
  | binary _ hl hr =>
    cases hv
    exact List.forall_mem_cons.mpr ⟨.constant (.text _),
      List.forall_mem_cons.mpr ⟨.part hl, List.forall_mem_singleton.mpr (.part hr)⟩⟩
  | choice ht hc ha =>
    cases hv
    exact List.forall_mem_cons.mpr ⟨.part ht,
      List.forall_mem_cons.mpr ⟨.part hc, List.forall_mem_singleton.mpr (.part ha)⟩⟩

theorem ofTree (h : Depicts role (.node id node) e) : Depicts role (.ofTree node) e := by
  obtain rfl : id = .unassigned := h.isNew id List.mem_cons_self
  exact h

/-- A node that stands for an element stands for a value. -/
theorem not_element (h : Depicts role (.node id node) e) (hr : role ≠ .key) :
    ∃ r, r ≠ .key ∧ r ≠ .element ∧ Depicts r (.ofTree node) e := by
  cases role with
  | element =>
    cases h with
    | element h => exact ⟨.value, nofun, nofun, h.ofTree⟩
  | key => exact absurd rfl hr
  | value => exact ⟨.value, nofun, nofun, h.ofTree⟩
  | property => exact ⟨.property, nofun, nofun, h.ofTree⟩

section Kinds

variable (h : Depicts role (.ofTree node) e) (hr : role ≠ .element)

include h hr

theorem binary_operator (hk : node.kind = some "BinaryExpression") :
    ∃ symbol, node.field? "operator" = some (.text symbol) ∧
      ((BinaryOperator.ofSymbol? symbol).isSome ∨ (LogicalOperator.ofSymbol? symbol).isSome) := by
  cases h with
  | element => exact absurd rfl hr
  | binary hs => exact ⟨_, rfl, (Whitelist.ofSymbol?_infix hs).symm⟩
  | _ => exact absurd (Option.some.inj hk) (by decide)

theorem unary_operator (hk : node.kind = some "UnaryExpression") :
    ∃ symbol, node.field? "operator" = some (.text symbol) ∧
      (UnaryOperator.ofSymbol? symbol).isSome := by
  cases h with
  | element => exact absurd rfl hr
  | unary hs =>
    have hall : ∀ s ∈ UnaryOperator.all.map (·.symbol), (UnaryOperator.ofSymbol? s).isSome := by
      decide
    exact ⟨_, rfl, hall _ hs⟩
  | _ => exact absurd (Option.some.inj hk) (by decide)

theorem dotted_property (hk : node.kind = some "MemberExpression")
    (hc : node.field? "computed" = some (.bool false)) :
    ∃ span name, node.field? "property" = some (.identifier span name) := by
  cases h with
  | element => exact absurd rfl hr
  | member => exact ⟨_, _, rfl⟩
  | index => cases hc
  | _ => exact absurd (Option.some.inj hk) (by decide)

theorem property_key (hk : node.kind = some "Property") :
    ∃ key, node.field? "key" = some key ∧ ((∃ span name, key = .identifier span name) ∨
      ∃ span raw value, key = .literal span raw value ∧
        (Token.IsNumber raw value ∨ Token.IsString raw value)) := by
  cases h with
  | element => exact absurd rfl hr
  | property hkey =>
    refine ⟨_, rfl, ?_⟩
    cases hkey with
    | keyName => exact .inl ⟨_, _, rfl⟩
    | keyLiteral hl => exact .inr ⟨_, _, _, rfl, hl⟩
  | _ => exact absurd (Option.some.inj hk) (by decide)

theorem literal_value (hk : node.kind = some "Literal") :
    ∃ raw value, node.raw = some raw ∧ node.field? "value" = some value ∧
      (Token.IsNumber raw value ∨ Token.IsString raw value ∨ Token.IsKeyword raw value) := by
  cases h with
  | element => exact absurd rfl hr
  | literal hl => exact ⟨_, _, rfl, rfl, hl⟩
  | keyLiteral hl => exact ⟨_, _, rfl, rfl, hl.imp_right .inl⟩
  | _ => exact absurd (Option.some.inj hk) (by decide)

theorem callee (hk : node.kind = some "CallExpression") :
    ∃ callee shown, node.field? "callee" = some callee ∧ Depicts .value callee shown := by
  cases h with
  | element => exact absurd rfl hr
  | call hcallee => exact ⟨_, _, rfl, hcallee⟩
  | _ => exact absurd (Option.some.inj hk) (by decide)

theorem name_not_reserved (hkey : role ≠ .key) (hk : node.kind = some "Identifier") :
    ∃ name, node.field? "name" = some (.text name) ∧ name ∉ Token.reservedWords := by
  cases h with
  | element => exact absurd rfl hr
  | keyName => exact absurd rfl hkey
  | name _ hfree => exact ⟨_, rfl, hfree⟩
  | _ => exact absurd (Option.some.inj hk) (by decide)

end Kinds

/-- What stands for an element and is no hole stands for a value. -/
theorem exists_ne_element {role : Role} {node : Node} {e : Expr}
    (h : Depicts role (.ofTree node) e) :
    ∃ other, other ≠ .element ∧ Depicts other (.ofTree node) e := by
  by_cases hr : role = .element
  · subst hr
    cases h with
    | element h => exact ⟨.value, nofun, h⟩
  · exact ⟨role, hr, h⟩

end Depicts

/-- Whatever stands in a tree that shows an expression shows one as well. -/
theorem Occurs.depicted {inner : Node} {v : Value} (ho : Occurs inner v)
    (hv : (∃ role e, Depicts role v e) ∨
      ∃ role items es, v = .ofList items ∧ DepictsEach role items es) :
    ∃ role e, Depicts role (.ofTree inner) e := by
  induction ho with
  | here =>
    obtain ⟨role, e, h⟩ | ⟨_, _, _, h, _⟩ := hv
    · exact ⟨role, e, h.ofTree⟩
    · cases h
  | field hf ho ih =>
    obtain ⟨role, e, h⟩ | ⟨_, _, _, h, _⟩ := hv
    · cases h.inField _ (Table.mem_of_lookup hf) with
      | part h => exact ih (.inl ⟨_, _, h⟩)
      | ownName h => exact ih (.inl ⟨_, _, h⟩)
      | parts h => exact ih (.inr ⟨_, _, _, rfl, h⟩)
      | constant h => cases h <;> cases ho
    · cases h
  | item hm _ ih =>
    obtain ⟨_, _, h⟩ | ⟨_, _, _, he, h⟩ := hv
    · cases h with
      | element h => cases h
    · cases he
      exact ih (.inl ⟨_, h.exists_of_mem hm⟩)
  | entry =>
    obtain ⟨_, _, h⟩ | ⟨_, _, _, he, _⟩ := hv
    · cases h with
      | element h => cases h
    · cases he
  | held =>
    obtain ⟨_, _, h⟩ | ⟨_, _, _, he, _⟩ := hv
    · cases h with
      | element h => cases h
    · cases he

namespace Path

/-- What the node at a place shows. Keys stand only where nodes name themselves. -/
structure Shows (path : Path) (role : Role) (e : Expr) : Prop where
  depicts : Depicts role (.ofTree path.node) e
  notElement : role ≠ .element
  key : role = .key → path.NamesItself
  own : ∃ own, path.isOwnName = .ok own

theorem tellsComputed_of_fitsSchema {path : Path} (h : path.node.FitsSchema) :
    path.TellsComputed := by
  intro hk
  obtain ⟨computed, hc, -⟩ : ∃ computed, path.node.field? "computed" = some computed ∧
      Holding.truth.Fits computed := h.exists_field hk rfl rfl
  exact ⟨computed, hc⟩

namespace Shows

variable {path : Path} {role : Role} {e : Expr}

theorem own_down (h : path.Shows role e) (slot : String) (child : Node) :
    ∃ own, (path.down slot child).isOwnName = .ok own :=
  isOwnName_down (tellsComputed_of_fitsSchema h.depicts.fitsSchema) slot child

end Shows

theorem Within.shows {tree : Node} {e : Expr} (h : Depicts .value (.ofTree tree) e)
    {path : Path} (hp : Within tree path) : ∃ r p, path.Shows r p := by
  induction hp with
  | root => exact ⟨.value, e, h, nofun, nofun, _, isOwnName_root tree⟩
  | slot _ hm ih =>
    obtain ⟨r, p, hs⟩ := ih
    generalize hv : Value.node _ _ = v at hm
    cases hs.depicts.inField _ hm with
    | part hpart =>
      subst hv
      exact ⟨_, _, hpart.ofTree, nofun, nofun, hs.own_down _ _⟩
    | ownName hk hown =>
      subst hv
      exact ⟨_, _, hk.ofTree, nofun, fun _ => hown _ _ rfl, hs.own_down _ _⟩
    | parts => cases hv
    | constant hc =>
      cases hv
      cases hc
  | item _ hm hi ih =>
    obtain ⟨r, p, hs⟩ := ih
    generalize hv : Value.list _ _ = v at hm
    cases hs.depicts.inField _ hm with
    | part hpart =>
      cases hv
      cases hpart
    | ownName hk =>
      cases hv
      cases hk
    | parts heach hne =>
      cases hv
      obtain ⟨p, hp⟩ := heach.exists_of_mem hi
      obtain ⟨r, hkey, helement, hd⟩ := hp.not_element hne
      exact ⟨r, p, hd, helement, fun hk => absurd hk hkey, hs.own_down _ _⟩
    | constant hc =>
      cases hv
      cases hc
  | child _ hc _ ih =>
    obtain ⟨r, p, hs⟩ := ih
    cases hs.depicts.fitsSchema.1.symm.trans hc

theorem Shows.compiles {path : Path} {role : Role} {e : Expr} (h : path.Shows role e)
    {whitelist : Whitelist} {ws ws' : List Warning} {failure : Failure}
    (hr : (whitelist.compile path).run ws = (.error failure, ws')) :
    ∃ s, failure.fault = .unauthorizedIdentifier (.text s) ∨
      failure.fault = .unauthorizedCall (.text s) := by
  have hpasses : whitelist.Passes (.ofTree path.node) e := by
    have hadmits : whitelist.Admits role (.ofTree path.node) e := Whitelist.admits h.depicts
    cases role with
    | element => exact absurd rfl h.notElement
    | value | key | property => exact hadmits
  obtain ⟨node, hn, hcompile⟩ := hpasses
  cases hn
  rcases hcompile path rfl h.own ws with ⟨closure, ws'', hok, -⟩ | ⟨failure', ws'', herr, hdeny⟩
  · cases hr.symm.trans hok
  · cases hr.symm.trans herr
    exact hdeny.names

theorem Shows.wellFormed {path : Path} {role : Role} {e : Expr} (h : path.Shows role e) :
    path.WellFormed where
  fields := h.depicts.fitsSchema
  binary := h.depicts.binary_operator h.notElement
  unary := h.depicts.unary_operator h.notElement
  member := h.depicts.dotted_property h.notElement
  key := h.depicts.property_key h.notElement
  literal := h.depicts.literal_value h.notElement
  name hk hown := h.depicts.name_not_reserved h.notElement (fun hr => hown (h.key hr)) hk
  prints := by
    rcases h.depicts.printsOrHole with ⟨hv, -⟩ | ⟨-, -, hp⟩
    · cases hv
    · exact ⟨_, hp⟩
  compiles _ _ _ _ hr := h.compiles hr

end Path

namespace Family

/-- Every node of the tree of an accepted source has all that the compiler and the printer rely
on. -/
theorem wellFormed_of_parse {source : List Char} {tree : Value}
    (h : expression.parse 0 source Grammar.rootKind = .ok tree) :
    tree.IsOfKinds Node.valueKinds ∧
      ∃ node, tree = .ofTree node ∧ ∀ path, Path.Within node path → path.WellFormed := by
  obtain ⟨e, hd⟩ := depicts_of_parse h
  have hkinds := hd.isOfKinds_value
  obtain ⟨node, _, rfl, -⟩ := id hkinds
  refine ⟨hkinds, node, rfl, fun path hp => ?_⟩
  obtain ⟨r, p, hs⟩ := hp.shows hd
  exact hs.wellFormed

/-- A tree with a hole, keys, a reserved word after a dot and both sorts of infix operators. -/
theorem wellFormed_of_parse_mixed : ∃ tree,
    expression.parse 0 "f([1,,-x.if], \x7bk: a && b, 2: !c[d]\x7d).e ? null : 0 + 1".toList
        Grammar.rootKind = .ok tree ∧
      tree.IsOfKinds Node.valueKinds ∧
      ∃ node, tree = .ofTree node ∧ ∀ path, Path.Within node path → path.WellFormed := by
  obtain ⟨tree, h⟩ : ∃ tree,
      expression.parse 0 "f([1,,-x.if], \x7bk: a && b, 2: !c[d]\x7d).e ? null : 0 + 1".toList
        Grammar.rootKind = .ok tree := exists_tree_of_isOk (by decide +kernel)
  exact ⟨tree, h, wellFormed_of_parse h⟩

end Family

end GatedExpr
