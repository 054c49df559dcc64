import Mathlib.Logic.Relation
import GatedExpr.Gate.Basic
import GatedExpr.Proofs.Expr.Basic

/-! # What a whitelist permits

A whitelist permits an expression if it allows every name that roots a member chain and every
signature that is called, at every place that is compiled. If it does not, it lacks something at
one of these places.
-/

namespace GatedExpr

namespace Expr

/-- The kind of the node that shows an expression. A hole is no node. -/
def kind : Expr → String
  | .literal _ => "Literal"
  | .name _ => "Identifier"
  | .hole => ""
  | .array _ => "ArrayExpression"
  | .property _ _ => "Property"
  | .object _ => "ObjectExpression"
  | .member _ _ | .index _ _ => "MemberExpression"
  | .call _ _ => "CallExpression"
  | .unary _ _ => "UnaryExpression"
  | .binary _ _ _ => "BinaryExpression"
  | .choice _ _ _ => "ConditionalExpression"

/-- How a call of something that is no name and no method is called. -/
def shape : Expr → String
  | .index _ _ => "<computed>"
  | e => "<" ++ e.kind ++ ">"

/-- Neither a name nor a method read by name. -/
def Uncallable (callee : Expr) : Prop :=
  (∀ name, callee ≠ .name name) ∧ ∀ object method, callee ≠ .member object method

/-- `Part p e`: compiling `e` compiles `p`. Keys and names after a dot are read as names, and of
a callee only the receiver is compiled. -/
inductive Part : Expr → Expr → Prop where
  | element {p : Expr} {elements : List Expr} : p ∈ elements → Part p (.array elements)
  | value {k v : Expr} : Part v (.property k v)
  | property {p : Expr} {properties : List Expr} : p ∈ properties → Part p (.object properties)
  | object {target : Expr} {s : String} : Part target (.member target s)
  | indexed {target k : Expr} : Part target (.index target k)
  | index {target k : Expr} : Part k (.index target k)
  | receiver {target : Expr} {s : String} {arguments : List Expr} :
      Part target (.call (.member target s) arguments)
  | argument {p callee : Expr} {arguments : List Expr} :
      p ∈ arguments → Part p (.call callee arguments)
  | operand {operator : String} {argument : Expr} : Part argument (.unary operator argument)
  | left {operator : String} {l r : Expr} : Part l (.binary operator l r)
  | right {operator : String} {l r : Expr} : Part r (.binary operator l r)
  | test {t c a : Expr} : Part t (.choice t c a)
  | consequent {t c a : Expr} : Part c (.choice t c a)
  | alternate {t c a : Expr} : Part a (.choice t c a)

end Expr

namespace Whitelist

/-- The name may root a member chain. -/
def AllowsObject (whitelist : Whitelist) (name : String) : Prop :=
  name ∈ whitelist.objects.map Prod.fst

/-- Calls of that signature are allowed. -/
def AllowsCall (whitelist : Whitelist) (signature : String) : Prop :=
  signature ∈ whitelist.callees.map Prod.fst

/-- The methods of the object of that name have signatures of their own. -/
def HasCustom (whitelist : Whitelist) (name : String) : Prop :=
  .text name ∈ whitelist.custom

mutual

/-- Everything that the expression needs is allowed. -/
inductive Permits (whitelist : Whitelist) : Expr → Prop where

  | literal {raw : String} : whitelist.Permits (.literal raw)

  | name {s : String} : whitelist.Permits (.name s)

  | hole : whitelist.Permits .hole

  | array {elements : List Expr} :
      (∀ p ∈ elements, whitelist.Permits p) → whitelist.Permits (.array elements)

  | property {k v : Expr} : whitelist.Permits v → whitelist.Permits (.property k v)

  | object {properties : List Expr} :
      (∀ p ∈ properties, whitelist.Permits p) → whitelist.Permits (.object properties)

  | member {target : Expr} {s : String} :
      whitelist.PermitsRoot target → whitelist.Permits (.member target s)

  | index {target k : Expr} :
      whitelist.PermitsRoot target → whitelist.Permits k → whitelist.Permits (.index target k)

  | function {s : String} {arguments : List Expr} :
      whitelist.AllowsCall s → (∀ p ∈ arguments, whitelist.Permits p) →
      whitelist.Permits (.call (.name s) arguments)

  /-- The object itself need not be allowed. -/
  | customMethod {root method : String} {arguments : List Expr} :
      whitelist.HasCustom root → whitelist.AllowsCall (root ++ "." ++ method) →
      (∀ p ∈ arguments, whitelist.Permits p) →
      whitelist.Permits (.call (.member (.name root) method) arguments)

  | method {receiver : Expr} {method : String} {arguments : List Expr} :
      (∀ root, receiver = .name root → ¬ whitelist.HasCustom root) →
      whitelist.AllowsCall ("*." ++ method) → whitelist.PermitsRoot receiver →
      (∀ p ∈ arguments, whitelist.Permits p) →
      whitelist.Permits (.call (.member receiver method) arguments)

  | unary {operator : String} {argument : Expr} :
      whitelist.Permits argument → whitelist.Permits (.unary operator argument)

  | binary {operator : String} {left right : Expr} :
      whitelist.Permits left → whitelist.Permits right →
      whitelist.Permits (.binary operator left right)

  | choice {test consequent alternate : Expr} :
      whitelist.Permits test → whitelist.Permits consequent → whitelist.Permits alternate →
      whitelist.Permits (.choice test consequent alternate)

/-- What stands before a dot or bracket is an allowed object, or an expression of its own. -/
inductive PermitsRoot (whitelist : Whitelist) : Expr → Prop where

  | object {root : String} : whitelist.AllowsObject root → whitelist.PermitsRoot (.name root)

  | compound {e : Expr} : (∀ root, e ≠ .name root) → whitelist.Permits e → whitelist.PermitsRoot e

end

/-- `Lacks e fault`: what the whitelist lacks at the place of `e` itself, and how the gate says
so. -/
inductive Lacks (whitelist : Whitelist) : Expr → Fault → Prop where

  | object {root s : String} : ¬ whitelist.AllowsObject root →
      whitelist.Lacks (.member (.name root) s) (.unauthorizedIdentifier (.text root))

  | indexed {root : String} {k : Expr} : ¬ whitelist.AllowsObject root →
      whitelist.Lacks (.index (.name root) k) (.unauthorizedIdentifier (.text root))

  | function {s : String} {arguments : List Expr} : ¬ whitelist.AllowsCall s →
      whitelist.Lacks (.call (.name s) arguments) (.unauthorizedCall (.text s))

  | customMethod {root method : String} {arguments : List Expr} :
      whitelist.HasCustom root → ¬ whitelist.AllowsCall (root ++ "." ++ method) →
      whitelist.Lacks (.call (.member (.name root) method) arguments)
        (.unauthorizedCall (.text (root ++ "." ++ method)))

  | method {receiver : Expr} {method : String} {arguments : List Expr} :
      (∀ root, receiver = .name root → ¬ whitelist.HasCustom root) →
      ¬ whitelist.AllowsCall ("*." ++ method) →
      whitelist.Lacks (.call (.member receiver method) arguments)
        (.unauthorizedCall (.text ("*." ++ method)))

  | receiver {root method : String} {arguments : List Expr} :
      ¬ whitelist.HasCustom root → ¬ whitelist.AllowsObject root →
      whitelist.Lacks (.call (.member (.name root) method) arguments)
        (.unauthorizedIdentifier (.text root))

  | shape {callee : Expr} {arguments : List Expr} : callee.Uncallable →
      whitelist.Lacks (.call callee arguments) (.unauthorizedCall (.text callee.shape))

/-- The whitelist lacks something at a place that is compiled with `e`. -/
def Denies (whitelist : Whitelist) (e : Expr) (fault : Fault) : Prop :=
  ∃ place, Relation.ReflTransGen Expr.Part place e ∧ whitelist.Lacks place fault

variable {whitelist : Whitelist} {e p : Expr} {fault : Fault}

theorem Denies.here (h : whitelist.Lacks e fault) : whitelist.Denies e fault :=
  ⟨e, .refl, h⟩

theorem Denies.inside (h : whitelist.Denies p fault) (hp : p.Part e) :
    whitelist.Denies e fault := by
  obtain ⟨place, hplace, hl⟩ := h
  exact ⟨place, hplace.tail hp, hl⟩

/-- What the gate says names an identifier or the signature of a call. -/
theorem Denies.names (h : whitelist.Denies e fault) :
    ∃ s, fault = .unauthorizedIdentifier (.text s) ∨ fault = .unauthorizedCall (.text s) := by
  obtain ⟨place, _, hl⟩ := h
  cases hl with
  | object | indexed | receiver => exact ⟨_, .inl rfl⟩
  | function | customMethod | method | shape => exact ⟨_, .inr rfl⟩

theorem permitsRoot_name {root : String} :
    whitelist.PermitsRoot (.name root) ↔ whitelist.AllowsObject root := by
  constructor
  · intro h
    cases h with
    | object ha => exact ha
    | compound hne => exact absurd rfl (hne root)
  · exact .object

theorem PermitsRoot.permits (h : whitelist.PermitsRoot e) : whitelist.Permits e := by
  cases h with
  | object => exact .name
  | compound _ hp => exact hp

/-- What is permitted is permitted at each of its parts. -/
theorem Permits.part (h : whitelist.Permits e) (hp : p.Part e) : whitelist.Permits p := by
  cases hp with
  | element hm => cases h with | array hall => exact hall _ hm
  | value => cases h with | property hv => exact hv
  | property hm => cases h with | object hall => exact hall _ hm
  | object => cases h with | member hr => exact hr.permits
  | indexed => cases h with | index hr _ => exact hr.permits
  | index => cases h with | index _ hk => exact hk
  | receiver =>
    cases h with
    | customMethod => exact .name
    | method _ _ hr => exact hr.permits
  | argument hm =>
    cases h with
    | function _ hall => exact hall _ hm
    | customMethod _ _ hall => exact hall _ hm
    | method _ _ _ hall => exact hall _ hm
  | operand => cases h with | unary ha => exact ha
  | left => cases h with | binary hl _ => exact hl
  | right => cases h with | binary _ hr => exact hr
  | test => cases h with | choice ht _ _ => exact ht
  | consequent => cases h with | choice _ hc _ => exact hc
  | alternate => cases h with | choice _ _ ha => exact ha

/-- Nothing is lacking at the place of what is permitted. -/
theorem Permits.not_lacks (h : whitelist.Permits e) : ¬ whitelist.Lacks e fault := by
  intro hl
  cases hl with
  | object hno => cases h with | member hr => exact hno (permitsRoot_name.mp hr)
  | indexed hno => cases h with | index hr _ => exact hno (permitsRoot_name.mp hr)
  | function hno => cases h with | function ha => exact hno ha
  | customMethod hcustom hno =>
    cases h with
    | customMethod _ ha => exact hno ha
    | method hother => exact hother _ rfl hcustom
  | method hother hno =>
    cases h with
    | customMethod hcustom => exact hother _ rfl hcustom
    | method _ ha => exact hno ha
  | receiver hother hno =>
    cases h with
    | customMethod hcustom => exact hother hcustom
    | method _ _ hr => exact hno (permitsRoot_name.mp hr)
  | shape hshape =>
    cases h with
    | function => exact hshape.1 _ rfl
    | customMethod | method => exact hshape.2 _ _ rfl

theorem Permits.not_denies (h : whitelist.Permits e) : ¬ whitelist.Denies e fault := by
  rintro ⟨place, hplace, hl⟩
  have hpermits : whitelist.Permits place := by
    clear hl
    induction hplace using Relation.ReflTransGen.head_induction_on with
    | refl => exact h
    | head hp _ ih => exact ih.part hp
  exact hpermits.not_lacks hl

end Whitelist

end GatedExpr
