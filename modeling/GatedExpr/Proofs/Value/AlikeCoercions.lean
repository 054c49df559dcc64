import GatedExpr.Operator
import GatedExpr.Proofs.Computation
import GatedExpr.Proofs.Value.Alike
import GatedExpr.Value.Equality

/-! # Alike values under operators

Coercions, comparisons and operators see nothing of a value but what alike values share.
-/

namespace GatedExpr

open GatedExpr.Computation

namespace Value

theorem itemTexts_cons (item : Value) (items : List Value) :
    itemTexts (item :: items) = (if item.isNull then "" else item.toText) :: itemTexts items := by
  cases item <;> rfl

theorem looseEquals_eq (left right : Value) :
    left.looseEquals right =
      if left.isNull || right.isNull then left.isNull && right.isNull
      else
        match left.unboxBool.isContainer, right.unboxBool.isContainer with
        | true, false => equalsAcross (.text left.unboxBool.toText) right.unboxBool
        | false, true => equalsAcross left.unboxBool (.text right.unboxBool.toText)
        | _, _ => equalsAcross left.unboxBool right.unboxBool := by
  unfold looseEquals
  split
  · rfl
  · next hne => cases right <;> simp_all [isNull]
  · next hne => cases left <;> simp_all [isNull]
  · next hleft hright =>
    have hl : left.isNull = false := by cases left <;> simp_all [isNull]
    have hr : right.isNull = false := by cases right <;> simp_all [isNull]
    rw [hl, hr]
    rfl

theorem isText_iff {value : Value} : value.isText = true ↔ value = .text value.toText := by
  cases value <;> simp [isText, toText]

theorem compare?_eq (left right : Value) :
    compare? left right =
      if left.primitive.isText && right.primitive.isText then
        let s := left.primitive.toText
        let t := right.primitive.toText
        some (if s < t then .lt else if t < s then .gt else .eq)
      else left.primitive.toNumber.compare? right.primitive.toNumber := by
  unfold compare?
  split
  · next hs ht =>
    rw [hs, ht]
    rfl
  · next hne =>
    rw [if_neg]
    rintro h
    obtain ⟨hl, hr⟩ := Bool.and_eq_true_iff.mp h
    exact hne _ _ (isText_iff.mp hl) (isText_iff.mp hr)

end Value

namespace Correspondence

variable {c : Correspondence} {v w v' w' : Value}

/-! ## Texts -/

mutual

theorem Alike.display {v w : Value} : c.Alike v w → v.display = w.display
  | .null | .bool | .text | .absent | .number _ | .tuple _ .nil => rfl
  | .list _ h => by rw [Value.display, Value.display, h.displayEach]
  | .tuple _ (.cons h .nil) => by rw [Value.display, Value.display, h.display]
  | .tuple _ (.cons h (.cons h' hs)) => by
    simp only [Value.display, Value.displayEach, h.display, h'.display, hs.displayEach]
  | .map _ h => by rw [Value.display, Value.display, h.displayEntries]
  | .object .. | .function _ | .method .. | .span _ => rfl
  | .node _ h => by rw [Value.display, Value.display, h.display]

theorem AlikeEach.displayEach {items others : List Value} :
    c.AlikeEach items others → Value.displayEach items = Value.displayEach others
  | .nil => rfl
  | .cons h hs => by rw [Value.displayEach, Value.displayEach, h.display, hs.displayEach]

theorem AlikeEntries.displayEntries {entries others : List (String × Value)} :
    c.AlikeEntries nothing entries others →
      Value.displayEntries entries = Value.displayEntries others
  | .nil => rfl
  | .cons h hs => by
    rw [Value.displayEntries, Value.displayEntries, h.display, hs.displayEntries]
  | .leftOut hout _ => hout.elim

theorem AlikeNodes.display {tree other : Node} :
    c.AlikeNodes tree other → tree.display = other.display
  | .mk .none hs => by
    simp only [Node.display, Value.displayChildren, hs.displayFields]
  | .mk (.some h) hs => by
    simp only [Node.display, Value.displayChildren, h.displayEach, hs.displayFields]

theorem AlikeEntries.displayFields {entries others : List (String × Value)} :
    c.AlikeEntries nothing entries others →
      Value.displayFields entries = Value.displayFields others
  | .nil => rfl
  | .cons h hs => by
    rw [Value.displayFields, Value.displayFields, h.display, hs.displayFields]
  | .leftOut hout _ => hout.elim

end

theorem Alike.displayPlain (h : c.Alike v w) : v.displayPlain = w.displayPlain := by
  have hd := h.display
  cases h with
  | text => rfl
  | _ => exact hd

/-! ## Shapes -/

theorem Alike.isNull (h : c.Alike v w) : v.isNull = w.isNull := by
  cases h <;> rfl

theorem Alike.isText (h : c.Alike v w) : v.isText = w.isText := by
  cases h <;> rfl

theorem Alike.isContainer (h : c.Alike v w) : v.isContainer = w.isContainer := by
  cases h <;> rfl

/-! ## Coercions -/

mutual

theorem Alike.toText {v w : Value} : c.Alike v w → v.toText = w.toText
  | .null | .bool | .text | .absent | .number _ | .map .. => rfl
  | .list _ h => by rw [Value.toText, Value.toText, h.itemTexts]
  | .tuple hi h => (Alike.tuple hi h).display
  | .object hi h => (Alike.object hi h).display
  | .function hi => (Alike.function hi).display
  | .method hi h => (Alike.method hi h).display
  | .node hi h => (Alike.node hi h).display
  | .span hi => (Alike.span hi).display

theorem AlikeEach.itemTexts {items others : List Value} :
    c.AlikeEach items others → Value.itemTexts items = Value.itemTexts others
  | .nil => rfl
  | .cons h hs => by
    rw [Value.itemTexts_cons, Value.itemTexts_cons, h.isNull, h.toText, hs.itemTexts]

end

theorem Alike.toNumber {v w : Value} : c.Alike v w → v.toNumber = w.toNumber
  | .list _ (.cons h .nil) => by rw [Value.toNumber, Value.toNumber, h.toNumber]
  | .null | .bool | .text | .absent | .list _ .nil | .list _ (.cons _ (.cons _ _)) | .number _
  | .tuple .. | .map .. | .object .. | .function _ | .method .. | .node .. | .span _ => rfl

theorem alike_ofNumber (n : Number) : c.Alike (.ofNumber n) (.ofNumber n) :=
  .number same_zero

theorem alike_ofResult (n : Number) : c.Alike (.ofResult n) (.ofResult n) := by
  unfold Value.ofResult
  split
  · exact .number (c.builtIn (by decide))
  · exact alike_ofNumber n

theorem Alike.asNumber {v w : Value} : c.Alike v w → c.Alike v.asNumber w.asNumber
  | .number hi => .number hi
  | .list _ (.cons h .nil) => by
    rw [Value.asNumber, Value.asNumber]
    exact h.asNumber
  | .null | .bool | .text | .absent | .list _ .nil | .list _ (.cons _ (.cons _ _)) | .tuple ..
  | .map .. | .object .. | .function _ | .method .. | .node .. | .span _ => alike_ofResult _

theorem Alike.primitive (h : c.Alike v w) : c.Alike v.primitive w.primitive := by
  unfold Value.primitive
  rw [h.isContainer, h.toText]
  split
  · exact .text
  · exact h

theorem Alike.isTruthy (h : c.Alike v w) : v.isTruthy = w.isTruthy := by
  cases h <;> rfl

theorem Alike.toInt32 (h : c.Alike v w) : v.toInt32 = w.toInt32 := by
  unfold Value.toInt32
  rw [h.toNumber]

/-! ## Comparisons -/

theorem beq_of_same {i j i' j' : Identity} (h : c.same i i') (h' : c.same j j') :
    (i == j) = (i' == j') := by
  rw [Bool.eq_iff_iff, beq_iff_eq, beq_iff_eq]
  exact c.unique h h'

theorem AlikeEach.isEmpty {items others : List Value} (h : c.AlikeEach items others) :
    items.isEmpty = others.isEmpty := by
  cases h <;> rfl

theorem AlikeEntries.isEmpty {out : String → Prop} {entries others : List (String × Value)}
    (h : c.AlikeEntries out entries others) : entries.isEmpty = others.isEmpty := by
  cases h <;> rfl

theorem Alike.isSame (h : c.Alike v w) (h' : c.Alike v' w') : v.isSame v' = w.isSame w' := by
  cases h <;> cases h' <;> try rfl
  case number.number hi _ _ _ hj =>
    simp only [Value.isSame, Value.isSameNumber, beq_of_same hi hj]
  case tuple.tuple hi h _ _ _ _ hj h' =>
    simp only [Value.isSame, beq_of_same hi hj, h.isEmpty, h'.isEmpty]
  -- everything else is the same object if its identity is the same
  all_goals exact beq_of_same (by assumption) (by assumption)

theorem Alike.strictEquals (h : c.Alike v w) (h' : c.Alike v' w') :
    v.strictEquals v' = w.strictEquals w' := by
  have hs := h.isSame h'
  cases h with
  | number hi =>
    cases h' with
    | number hj => simp only [Value.strictEquals]
    | _ => exact hs
  | _ => exact hs

theorem Alike.unboxBool (h : c.Alike v w) : c.Alike v.unboxBool w.unboxBool := by
  have hv := h
  cases h with
  | bool => exact alike_ofNumber _
  | _ => exact hv

theorem Alike.equalsAcross (h : c.Alike v w) (h' : c.Alike v' w') :
    v.equalsAcross v' = w.equalsAcross w' := by
  have hs := h.strictEquals h'
  cases h with
  | number hi =>
    cases h' with
    | text => simp only [Value.equalsAcross]
    | _ => exact hs
  | text =>
    cases h' with
    | number => simp only [Value.equalsAcross]
    | _ => exact hs
  | _ => exact hs

theorem Alike.looseEquals (h : c.Alike v w) (h' : c.Alike v' w') :
    v.looseEquals v' = w.looseEquals w' := by
  have hu := h.unboxBool
  have hu' := h'.unboxBool
  rw [Value.looseEquals_eq, Value.looseEquals_eq, h.isNull, h'.isNull, hu.isContainer,
    hu'.isContainer, hu.toText, hu'.toText, hu.equalsAcross hu', Alike.text.equalsAcross hu',
    hu.equalsAcross Alike.text]

theorem Alike.compare? (h : c.Alike v w) (h' : c.Alike v' w') :
    Value.compare? v v' = Value.compare? w w' := by
  have hp := h.primitive
  have hp' := h'.primitive
  rw [Value.compare?_eq, Value.compare?_eq, hp.isText, hp'.isText, hp.toText, hp'.toText,
    hp.toNumber, hp'.toNumber]

/-! ## Operators -/

theorem agree_ofNumber (r : Except NumberFault Number) :
    Agree Eq c.Alike (Value.ofNumber <$> r) (Value.ofNumber <$> r) :=
  .map (.self fun _ _ => rfl) fun n _ he => he ▸ alike_ofNumber n

theorem agree_ofNumber_or_ofResult (b : Bool) (r : Except NumberFault Number) :
    Agree Eq c.Alike ((if b then Value.ofResult else Value.ofNumber) <$> r)
      ((if b then Value.ofResult else Value.ofNumber) <$> r) := by
  cases b with
  | true => exact .map (.self fun _ _ => rfl) fun n _ he => he ▸ alike_ofResult n
  | false => exact agree_ofNumber r

theorem Alike.add (h : c.Alike v w) (h' : c.Alike v' w') :
    Agree Eq c.Alike (v.add v') (w.add w') := by
  simp only [Value.add, h.primitive.isText, h'.primitive.isText, h.primitive.toText,
    h'.primitive.toText, h.primitive.toNumber, h'.primitive.toNumber]
  split
  · exact .ok .text
  · exact agree_ofNumber _

/-- Operators agree on alike operands. -/
theorem Alike.binary (operator : BinaryOperator) (h : c.Alike v w) (h' : c.Alike v' w') :
    Agree Eq c.Alike (operator.apply v v') (operator.apply w w') := by
  cases operator with
  | add => exact h.add h'
  | subtract =>
    simp only [BinaryOperator.apply, Value.subtract, h.toNumber, h'.toNumber]
    exact agree_ofNumber _
  | multiply =>
    simp only [BinaryOperator.apply, Value.multiply, h.toNumber, h'.toNumber]
    exact agree_ofNumber _
  | divide =>
    simp only [BinaryOperator.apply, Value.divide, h.toNumber, h'.toNumber]
    exact agree_ofNumber_or_ofResult _ _
  | remainder =>
    simp only [BinaryOperator.apply, Value.remainder, h.toNumber, h'.toNumber]
    exact agree_ofNumber_or_ofResult _ _
  | greater | less | greaterOrEqual | lessOrEqual =>
    simp only [BinaryOperator.apply, Value.greater, Value.less, Value.greaterOrEqual,
      Value.lessOrEqual, h.compare? h']
    exact .ok .bool
  | looseEqual | looseUnequal =>
    simp only [BinaryOperator.apply, h.looseEquals h']
    exact .ok .bool
  | strictEqual | strictUnequal =>
    simp only [BinaryOperator.apply, h.strictEquals h']
    exact .ok .bool

theorem Alike.unary (operator : UnaryOperator) (h : c.Alike v w) :
    Agree Eq c.Alike (operator.apply v) (operator.apply w) := by
  cases operator with
  | plus => exact .ok h.asNumber
  | minus =>
    simp only [UnaryOperator.apply, h.toNumber]
    exact .ok (alike_ofNumber _)
  | not =>
    simp only [UnaryOperator.apply, h.isTruthy]
    exact .bind (.self fun _ _ => rfl) fun b _ he => he ▸ .ok .bool
  | complement =>
    simp only [UnaryOperator.apply, h.toInt32]
    exact .ok (alike_ofNumber _)

/-! ## Contents -/

theorem Alike.isSameNumber (h : c.Alike v w) (h' : c.Alike v' w') :
    v.isSameNumber v' = w.isSameNumber w' := by
  cases h with
  | number hi =>
    cases h' with
    | number hj => rw [Value.isSameNumber, Value.isSameNumber, beq_of_same hi hj]
    | _ => rfl
  | _ => rfl

theorem Alike.number? (h : c.Alike v w) : v.number? = w.number? := by
  cases h <;> rfl

theorem AlikeEntries.length_eq {out : String → Prop} {entries others : List (String × Value)}
    (h : c.AlikeEntries out entries others) : entries.length = others.length := by
  rw [← List.length_map (·.1), h.names_eq, List.length_map]

mutual

theorem Alike.hasContentOf {v w v' w' : Value} :
    c.Alike v w → c.Alike v' w' → v.hasContentOf v' = w.hasContentOf w'
  | .bool, h' => by rw [Value.hasContentOf, Value.hasContentOf, h'.number?]
  | .number _, h' => by rw [Value.hasContentOf, Value.hasContentOf, h'.number?]
  | .list _ h, h' => by
    cases h' with
    | list _ hs => rw [Value.hasContentOf, Value.hasContentOf, h.haveContentsOf hs]
    | _ => simp [Value.hasContentOf]
  | .tuple _ h, h' => by
    cases h' with
    | tuple _ hs => rw [Value.hasContentOf, Value.hasContentOf, h.haveContentsOf hs]
    | _ => simp [Value.hasContentOf]
  | .map _ h, h' => by
    cases h' with
    | map _ hs => simp [Value.hasContentOf, h.entriesHaveContentsOf hs, h.length_eq, hs.length_eq]
    | _ => simp [Value.hasContentOf]
  | .object hi _, h' => by
    cases h' with
    | object hj _ => rw [Value.hasContentOf, Value.hasContentOf, beq_of_same hi hj]
    | _ => simp [Value.hasContentOf]
  | .function hi, h' => by
    cases h' with
    | function hj => rw [Value.hasContentOf, Value.hasContentOf, beq_of_same hi hj]
    | _ => simp [Value.hasContentOf]
  | .method _ h, h' => by
    cases h' with
    | method _ hs => rw [Value.hasContentOf, Value.hasContentOf, h.isSame hs]
    | _ => simp [Value.hasContentOf]
  | .node _ h, h' => by
    cases h' with
    | node _ hs => rw [Value.hasContentOf, Value.hasContentOf, h.equals hs]
    | _ => simp [Value.hasContentOf]
  | .null, h' | .text, h' | .span _, h' | .absent, h' => by
    cases h' <;> simp [Value.hasContentOf]

theorem AlikeEach.haveContentsOf {items others items' others' : List Value} :
    c.AlikeEach items others → c.AlikeEach items' others' →
      Value.haveContentsOf items items' = Value.haveContentsOf others others'
  | .nil, h' => by cases h' <;> simp [Value.haveContentsOf]
  | .cons h hs, h' => by
    cases h' with
    | nil => simp [Value.haveContentsOf]
    | cons h₁ hs₁ =>
      rw [Value.haveContentsOf, Value.haveContentsOf, h.isSameNumber h₁, h.hasContentOf h₁,
        hs.haveContentsOf hs₁]

theorem AlikeEntries.entriesHaveContentsOf
    {entries others entries' others' : List (String × Value)} :
    c.AlikeEntries nothing entries others → c.AlikeEntries nothing entries' others' →
      Value.entriesHaveContentsOf entries entries' = Value.entriesHaveContentsOf others others'
  | .nil, _ => by rw [Value.entriesHaveContentsOf, Value.entriesHaveContentsOf]
  | .leftOut hout _, _ => hout.elim
  | @AlikeEntries.cons _ _ name _ _ _ _ h hs, h' => by
    rw [Value.entriesHaveContentsOf, Value.entriesHaveContentsOf, hs.entriesHaveContentsOf h']
    have hfound : c.AlikeIfAny (entries'.lookup name) (others'.lookup name) := h'.lookup id
    revert hfound
    generalize entries'.lookup name = v?, others'.lookup name = w?
    rintro (_ | hv)
    · rfl
    · simp only [Option.any_some, h.isSameNumber hv, h.hasContentOf hv]

theorem AlikeChildren.childrenHaveContentsOf {items others items' others' : Option (List Value)} :
    c.AlikeChildren items others → c.AlikeChildren items' others' →
      Value.childrenHaveContentsOf items items' = Value.childrenHaveContentsOf others others'
  | .none, h' => by cases h' <;> simp [Value.childrenHaveContentsOf]
  | .some h, h' => by
    cases h' with
    | none => simp [Value.childrenHaveContentsOf]
    | some hs =>
      rw [Value.childrenHaveContentsOf, Value.childrenHaveContentsOf, h.haveContentsOf hs]

theorem AlikeNodes.equals {tree other tree' other' : Node} :
    c.AlikeNodes tree other → c.AlikeNodes tree' other' → tree.equals tree' = other.equals other'
  | .mk h hs, .mk h' hs' => by
    rw [Node.equals, Node.equals, h.childrenHaveContentsOf h', hs.entriesHaveContentsOf hs',
      hs.length_eq, hs'.length_eq]

end

end Correspondence

end GatedExpr
