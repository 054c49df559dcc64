import GatedExpr.Proofs.Computation
import GatedExpr.Proofs.Expr.Text
import GatedExpr.Proofs.Node

/-! # Printed trees

A tree of the expression grammar is printed as the text of the expression that it shows.
-/

namespace GatedExpr

namespace Value

/-- The tree is printed as the text of the expression. -/
def Prints (v : Value) (e : Expr) : Prop :=
  v.printTree = .ok (.text (String.ofList e.text))

theorem bind_of_ok {α β : Type} {r : Except Fault α} {f : α → Except Fault β} {a : α}
    {s : Except Fault β} (h : r = .ok a) (hf : f a = s) : (r >>= f) = s := by
  rw [h]
  exact hf

/-- Reading a part of a tree that has it, and going on with it. -/
theorem bind_part {α : Type} {id : Identity} {node : Node} {name : String} {held : Value}
    {f : { part : Value // sizeOf part < sizeOf (Value.node id node) } → Except Fault α}
    {r : Except Fault α} (h : node.field? name = some held)
    (hf : ∀ smaller, f ⟨held, smaller⟩ = r) : ((Value.node id node).part name >>= f) = r := by
  refine bind_of_ok (a := ⟨held, Nat.lt_trans (Node.sizeOf_lt_of_field? h)
    (sizeOf_lt_node _ _)⟩) ?_ (hf _)
  unfold part
  simp only [Node.get_of_field? h]
  rfl

/-! ## Lists of texts -/

theorem mapM_map_ok {α β : Type} {f : α → Except Fault β} {g : β → α} (h : ∀ b, f (g b) = .ok b)
    (bs : List β) : (bs.map g).mapM f = .ok bs := by
  induction bs with
  | nil => rfl
  | cons b bs ih =>
    rw [List.map_cons, List.mapM_cons, ih, h]
    rfl

theorem joinTexts_texts (texts : List String) :
    joinTexts (texts.map .text) = .ok (", ".intercalate texts) := by
  unfold joinTexts
  refine bind_of_ok (mapM_map_ok (fun s => ?_) texts) rfl
  rfl

/-- The texts of expressions, one by one. -/
def textsOf (es : List Expr) : List String :=
  es.map fun e => String.ofList e.text

theorem intercalate_textsOf (es : List Expr) :
    ", ".intercalate (textsOf es) = String.ofList (Expr.listText es) := by
  rw [← String.toList_inj, String.toList_intercalate, String.toList_ofList, Expr.listText_eq,
    textsOf, List.map_map]
  simp [Function.comp_def]

variable {items : List Value} {es : List Expr}

theorem printTrees_eq (h : List.Forall₂ Prints items es) :
    printTrees items = .ok ((textsOf es).map .text) := by
  induction h with
  | nil => rw [printTrees]; rfl
  | cons hv _ ih =>
    rw [printTrees, hv, ih]
    rfl

theorem joinTexts_printTrees (h : List.Forall₂ Prints items es) :
    (printParts (.ofList items) >>= joinTexts) =
      .ok (String.ofList (Expr.listText es)) := by
  rw [ofList, printParts, printTrees_eq h, ← intercalate_textsOf]
  exact joinTexts_texts _

/-- An element is printed as its text, and a hole as none. -/
def PrintsOrHole (v : Value) (e : Expr) : Prop :=
  v = .null ∧ e = .hole ∨ v.isNull = false ∧ e.isHole = false ∧ v.Prints e

theorem printHoles_eq (h : List.Forall₂ PrintsOrHole items es) :
    printHoles items =
      .ok ((textsOf es ++ if es.getLast?.any Expr.isHole then [""] else []).map .text) := by
  induction h with
  | nil => rw [printHoles]; rfl
  | @cons v e items es hv hs ih =>
    rw [printHoles, ih]
    have hempty : items.isEmpty = es.isEmpty := by cases hs <;> rfl
    have hlast (hne : es ≠ []) : (e :: es).getLast? = es.getLast? := by
      cases es with
      | nil => exact absurd rfl hne
      | cons f es => rw [List.getLast?_cons_cons]
    rcases hv with ⟨rfl, rfl⟩ | ⟨hnull, hhole, hv⟩
    · cases es with
      | nil =>
        cases hs
        rfl
      | cons f es =>
        cases hs
        rw [hlast (by simp)]
        rfl
    · have hrest : (e :: es).getLast?.any Expr.isHole = es.getLast?.any Expr.isHole := by
        cases es with
        | nil => simpa using hhole
        | cons f es => rw [hlast (by simp)]
      rw [hrest, hnull, hv]
      rfl

theorem joinTexts_printHoles (h : List.Forall₂ PrintsOrHole items es) :
    (printElements (.ofList items) >>= joinTexts) =
      .ok (String.ofList (Expr.listText es ++ Expr.trailing es)) := by
  rw [ofList, printElements, printHoles_eq h, String.ofList_append, ← intercalate_textsOf]
  refine (joinTexts_texts _).trans (congrArg Except.ok ?_)
  rw [Expr.trailing]
  split
  · next hl =>
    have hne : textsOf es ≠ [] := by
      rintro hnil
      rw [List.map_eq_nil_iff.mp hnil] at hl
      cases hl
    rw [String.intercalate_append_of_ne_nil hne (by simp), String.intercalate_singleton,
      String.append_empty]
  · simp

/-! ## Kinds of nodes -/

theorem level_eq {v : Value} {e : Expr} (h : Depicts .value v e) :
    Precedence.ofTree v = .ok e.level := by
  cases h <;> rfl

theorem printOperand_eq {v : Value} {e : Expr} (h : Depicts .value v e) (hp : v.Prints e)
    (minimum : Nat) :
    v.printOperand minimum = .ok (.text (String.ofList (e.operandText minimum))) := by
  rw [printOperand, hp, level_eq h]
  change Except.ok (if e.level < minimum then _ else _) = _
  rw [Expr.operandText, Expr.enclosed]
  split
  · simp [displayPlain, ← String.toList_inj]
  · rfl

/-- Texts put together are the text of what they are put together from. -/
theorem text_eq {s : String} {t : List Char} (h : s.toList = t) :
    (Except.ok (.text s) : Except Fault Value) = .ok (.text (String.ofList t)) := by
  rw [← h, String.ofList_toList]

section Kinds

variable {span : Span} {v w u : Value} {e f g : Expr} {symbol s : String}

theorem prints_literal {raw : String} {value : Value} :
    (Value.literal span raw value).Prints (.literal raw) := by
  rw [Prints, printTree]
  refine bind_of_ok rfl <| bind_of_ok rfl ?_
  exact text_eq rfl

theorem prints_name : (Value.identifier span s).Prints (.name s) := by
  rw [Prints, printTree]
  refine bind_of_ok rfl <| bind_of_ok rfl ?_
  exact text_eq rfl

theorem prints_choice (hv : Depicts .value v e) (pv : v.Prints e) (pw : w.Prints f)
    (pu : u.Prints g) :
    (Value.branch "ConditionalExpression" span
      [("test", v), ("consequent", w), ("alternate", u)]).Prints (.choice e f g) := by
  rw [Prints, printTree]
  refine bind_of_ok rfl <| bind_of_ok rfl ?_
  refine bind_part rfl fun _ => bind_of_ok (printOperand_eq hv pv _) ?_
  refine bind_part rfl fun _ => bind_of_ok pw ?_
  refine bind_part rfl fun _ => bind_of_ok pu (text_eq ?_)
  simp [displayPlain, Expr.text, Expr.operandText]

theorem prints_binary (hv : Depicts .value v e) (hw : Depicts .value w f) (pv : v.Prints e)
    (pw : w.Prints f) :
    (Value.branch "BinaryExpression" span
      [("operator", .text symbol), ("left", v), ("right", w)]).Prints (.binary symbol e f) := by
  rw [Prints, printTree]
  refine bind_of_ok rfl <| bind_of_ok rfl ?_
  refine bind_part rfl fun _ => bind_of_ok (a := Expr.levelOf symbol) rfl ?_
  refine bind_part rfl fun _ => bind_of_ok (printOperand_eq hv pv _) ?_
  refine bind_part rfl fun _ => bind_of_ok (printOperand_eq hw pw _) (text_eq ?_)
  simp [displayPlain, Expr.text, Expr.operandText]

theorem isOfKind_unary (h : Depicts .value v e) :
    v.isOfKind "UnaryExpression" = .ok e.isUnary := by
  cases h <;> rfl

theorem prints_unary (hv : Depicts .value v e) (pv : v.Prints e) :
    (Value.branch "UnaryExpression" span
      [("operator", .text symbol), ("argument", v)]).Prints (.unary symbol e) := by
  rw [Prints, printTree]
  refine bind_of_ok rfl <| bind_of_ok rfl ?_
  refine bind_part rfl fun _ => bind_of_ok (printOperand_eq hv pv _) ?_
  refine bind_of_ok (isOfKind_unary hv) <| bind_part rfl fun _ => ?_
  cases hunary : e.isUnary with
  | true =>
    refine bind_of_ok rfl (text_eq ?_)
    simp only [displayPlain, Expr.text, Expr.gap, hunary, Expr.operandText, Bool.true_and,
      String.toList_append, String.toList_ofList]
    split <;> simp
  | false =>
    refine bind_of_ok rfl (text_eq ?_)
    simp [displayPlain, Expr.text, Expr.gap, hunary, Expr.operandText]

theorem prints_property (pv : v.Prints e) (pw : w.Prints f) :
    (Value.branch "Property" span [("key", v), ("value", w)]).Prints (.property e f) := by
  rw [Prints, printTree]
  refine bind_of_ok rfl <| bind_of_ok rfl ?_
  refine bind_part rfl fun _ => bind_of_ok pv ?_
  refine bind_part rfl fun _ => bind_of_ok pw (text_eq ?_)
  simp [displayPlain, Expr.text]

theorem prints_member {inner : Span} (hv : Depicts .value v e) (pv : v.Prints e) :
    (Value.branch "MemberExpression" span
      [("object", v), ("property", .identifier inner s), ("computed", .bool false)]).Prints
      (.member e s) := by
  rw [Prints, printTree]
  refine bind_of_ok rfl <| bind_of_ok rfl ?_
  refine bind_part rfl fun _ => bind_of_ok (printOperand_eq hv pv _) ?_
  refine bind_part rfl fun _ => bind_part rfl fun _ => ?_
  refine bind_of_ok rfl (text_eq ?_)
  simp [displayPlain, Expr.text, Expr.operandText]

theorem prints_index (hv : Depicts .value v e) (pv : v.Prints e) (pw : w.Prints f) :
    (Value.branch "MemberExpression" span
      [("object", v), ("property", w), ("computed", .bool true)]).Prints (.index e f) := by
  rw [Prints, printTree]
  refine bind_of_ok rfl <| bind_of_ok rfl ?_
  refine bind_part rfl fun _ => bind_of_ok (printOperand_eq hv pv _) ?_
  refine bind_part rfl fun _ => bind_part rfl fun _ => ?_
  refine bind_of_ok pw (text_eq ?_)
  simp [displayPlain, Expr.text, Expr.operandText]

theorem prints_call (hv : Depicts .value v e) (pv : v.Prints e)
    (h : List.Forall₂ Prints items es) :
    (Value.branch "CallExpression" span
      [("callee", v), ("arguments", .ofList items)]).Prints (.call e es) := by
  obtain ⟨texts, htexts, hjoin⟩ :=
    Computation.except_bind_eq_ok.mp (joinTexts_printTrees h)
  rw [Prints, printTree]
  refine bind_of_ok rfl <| bind_of_ok rfl ?_
  refine bind_part rfl fun _ => bind_of_ok (printOperand_eq hv pv _) ?_
  refine bind_part rfl fun _ => bind_of_ok htexts <| bind_of_ok hjoin (text_eq ?_)
  simp [displayPlain, Expr.text, Expr.operandText]

theorem prints_array (h : List.Forall₂ PrintsOrHole items es) :
    (Value.branch "ArrayExpression" span [("elements", .ofList items)]).Prints (.array es) := by
  obtain ⟨texts, htexts, hjoin⟩ :=
    Computation.except_bind_eq_ok.mp (joinTexts_printHoles h)
  rw [Prints, printTree]
  refine bind_of_ok rfl <| bind_of_ok rfl ?_
  refine bind_part rfl fun _ => bind_of_ok htexts <| bind_of_ok hjoin (text_eq ?_)
  simp [Expr.text]

theorem prints_object (h : List.Forall₂ Prints items es) :
    (Value.branch "ObjectExpression" span [("properties", .ofList items)]).Prints
      (.object es) := by
  obtain ⟨texts, htexts, hjoin⟩ :=
    Computation.except_bind_eq_ok.mp (joinTexts_printTrees h)
  rw [Prints, printTree]
  refine bind_of_ok rfl <| bind_of_ok rfl ?_
  refine bind_part rfl fun _ => ?_
  cases h with
  | nil => exact text_eq rfl
  | cons =>
    refine bind_of_ok htexts <| bind_of_ok hjoin (text_eq ?_)
    simp [Expr.text]

end Kinds

end Value

namespace Depicts

open Value

theorem isHole_eq {role : Role} {v : Value} {e : Expr} (h : Depicts role v e)
    (hr : role ≠ .element) : e.isHole = false := by
  cases h with
  | hole | element => exact absurd rfl hr
  | _ => rfl

theorem printsOrHole {role : Role} {v : Value} {e : Expr} (h : Depicts role v e) :
    PrintsOrHole v e := by
  have prints {role : Role} {v : Value} {e : Expr} (h : Depicts role v e)
      (hr : role ≠ .element) (hp : PrintsOrHole v e) : v.Prints e := by
    rcases hp with ⟨rfl, rfl⟩ | ⟨_, _, hp⟩
    · cases h.isHole_eq hr
    · exact hp
  have each {role : Role} {items : List Value} {es : List Expr}
      (h : DepictsEach role items es) (hr : role ≠ .element)
      (hp : ∀ v e, (v, e) ∈ items.zip es → PrintsOrHole v e) : List.Forall₂ Prints items es :=
    List.forall₂_iff_zip.mpr ⟨h.1, fun hm => prints (h.2 _ _ hm) hr (hp _ _ hm)⟩
  induction h with
  | literal | keyLiteral => exact .inr ⟨rfl, rfl, prints_literal⟩
  | name | keyName => exact .inr ⟨rfl, rfl, prints_name⟩
  | hole => exact .inl ⟨rfl, rfl⟩
  | element _ ih => exact ih
  | array hl hall ih =>
    exact .inr ⟨rfl, rfl, prints_array (List.forall₂_iff_zip.mpr ⟨hl, fun hm => ih _ _ hm⟩)⟩
  | property hk hv ihk ihv =>
    exact .inr ⟨rfl, rfl, prints_property (prints hk nofun ihk) (prints hv nofun ihv)⟩
  | object hl hall ih => exact .inr ⟨rfl, rfl, prints_object (each ⟨hl, hall⟩ nofun ih)⟩
  | member hv hn ih => exact .inr ⟨rfl, rfl, prints_member hv (prints hv nofun ih)⟩
  | index hv hw ihv ihw =>
    exact .inr ⟨rfl, rfl, prints_index hv (prints hv nofun ihv) (prints hw nofun ihw)⟩
  | call hv hl hall ihv ih =>
    exact .inr ⟨rfl, rfl, prints_call hv (prints hv nofun ihv) (each ⟨hl, hall⟩ nofun ih)⟩
  | unary hs hv ih => exact .inr ⟨rfl, rfl, prints_unary hv (prints hv nofun ih)⟩
  | binary hs hv hw ihv ihw =>
    exact .inr ⟨rfl, rfl, prints_binary hv hw (prints hv nofun ihv) (prints hw nofun ihw)⟩
  | choice ht hc ha iht ihc iha =>
    exact .inr ⟨rfl, rfl, prints_choice ht (prints ht nofun iht) (prints hc nofun ihc)
      (prints ha nofun iha)⟩

/-- A tree is printed as the text of what it shows. -/
theorem printAny_eq {v : Value} {e : Expr} (h : Depicts .value v e) :
    v.printAny = .ok (.text (String.ofList e.text)) := by
  have hany : v.printAny = v.printTree := by cases h <;> rfl
  rw [hany]
  rcases h.printsOrHole with ⟨rfl, rfl⟩ | ⟨_, _, hp⟩
  · cases h
  · exact hp

end Depicts

end GatedExpr
