import GatedExpr.Proofs.Expr.Basic
import GatedExpr.Proofs.Value.Alike

/-! # Trees of sources are new

Nothing in the tree of a source has an identity before it is evaluated, which is why the same tree
can be evaluated any number of times.
-/

namespace GatedExpr

namespace Value

/-- Nothing in the value has an identity yet. -/
def IsNew (value : Value) : Prop :=
  ∀ id ∈ value.ids, id = .unassigned

@[simp] theorem isNew_null : IsNew .null :=
  nofun

@[simp] theorem isNew_bool (b : Bool) : (bool b).IsNew :=
  nofun

@[simp] theorem isNew_text (s : String) : (text s).IsNew :=
  nofun

@[simp] theorem isNew_ofNumber (n : Number) : (ofNumber n).IsNew :=
  fun _ hm => List.mem_singleton.mp hm

theorem isNew_ofList {items : List Value} (h : ∀ item ∈ items, item.IsNew) :
    (ofList items).IsNew := by
  have hitems : ∀ id ∈ idsEach items, id = .unassigned := by
    induction items with
    | nil => exact nofun
    | cons item items ih =>
      obtain ⟨hitem, hitems⟩ := List.forall_mem_cons.mp h
      exact List.forall_mem_append.mpr ⟨hitem, ih hitems⟩
  exact List.forall_mem_cons.mpr ⟨rfl, hitems⟩

theorem isNew_ofTree {kind : Option String} {span : Option Span} {raw : Option String}
    {fields : List (String × Value)} (h : ∀ field ∈ fields, field.2.IsNew) :
    (ofTree ⟨kind, span, raw, none, fields⟩).IsNew := by
  have hfields : ∀ id ∈ idsEntries fields, id = .unassigned := by
    induction fields with
    | nil => exact nofun
    | cons field fields ih =>
      obtain ⟨hfield, hfields⟩ := List.forall_mem_cons.mp h
      exact List.forall_mem_append.mpr ⟨hfield, ih hfields⟩
  exact List.forall_mem_cons.mpr ⟨rfl, hfields⟩

@[simp] theorem isNew_identifier (span : Span) (name : String) : (identifier span name).IsNew :=
  isNew_ofTree (by simp)

end Value

theorem Token.isNew_literal {raw : String} {value : Value} (span : Span)
    (h : IsNumber raw value ∨ IsString raw value ∨ IsKeyword raw value) :
    (Value.literal span raw value).IsNew := by
  refine Value.isNew_ofTree (List.forall_mem_singleton.mpr ?_)
  rcases h with ⟨_, n, _, rfl⟩ | ⟨_, rfl⟩ | h
  · exact Value.isNew_ofNumber n
  · exact Value.isNew_text _
  · cases h <;> simp

/-- A tree that shows an expression is new. -/
theorem Depicts.isNew {role : Role} {v : Value} {e : Expr} (h : Depicts role v e) : v.IsNew := by
  have hlist : ∀ {items : List Value} {es : List Expr}, items.length = es.length →
      (∀ v e, (v, e) ∈ items.zip es → v.IsNew) → (Value.ofList items).IsNew := by
    intro items es hl hall
    refine Value.isNew_ofList fun item hm => ?_
    rw [← List.map_fst_zip (Nat.le_of_eq hl), List.mem_map] at hm
    obtain ⟨⟨v, e⟩, hm, rfl⟩ := hm
    exact hall v e hm
  induction h with
  | literal h => exact Token.isNew_literal _ h
  | keyLiteral h => exact Token.isNew_literal _ (h.imp_right .inl)
  | name | keyName => exact Value.isNew_identifier _ _
  | hole => exact Value.isNew_null
  | element _ ih => exact ih
  | array hl _ ih | object hl _ ih =>
    exact Value.isNew_ofTree (List.forall_mem_singleton.mpr (hlist hl ih))
  | property _ _ ih ih' => exact Value.isNew_ofTree (by simp [ih, ih'])
  | member _ _ ih => exact Value.isNew_ofTree (by simp [ih])
  | index _ _ ih ih' => exact Value.isNew_ofTree (by simp [ih, ih'])
  | call _ hl _ ih ihs => exact Value.isNew_ofTree (by simp [ih, hlist hl ihs])
  | unary _ _ ih => exact Value.isNew_ofTree (by simp [ih])
  | binary _ _ _ ih ih' => exact Value.isNew_ofTree (by simp [ih, ih'])
  | choice _ _ _ iht ihc iha => exact Value.isNew_ofTree (by simp [iht, ihc, iha])

end GatedExpr
