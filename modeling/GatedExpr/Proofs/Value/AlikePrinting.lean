import GatedExpr.Node.Printer
import GatedExpr.Proofs.Node
import GatedExpr.Proofs.Value.AlikeIdentities

/-! # Alike trees are printed alike

Printing reads of a tree what alike values share: kinds, fields and matched texts, and no
identities. What two alike trees are printed as, or why they cannot be printed, is alike.
-/

namespace GatedExpr

theorem Node.get_of_missing {node : Node} {name : String} (h : node.field? name = none) :
    node.get name = .error (.missingField node.kind name) := by
  unfold get
  split
  · next hf => cases h.symm.trans hf
  · rfl

namespace Value

variable {id : Identity} {attributes : List (String × Value)} {name : String} {held : Value}

theorem part_of_missing (h : attributes.lookup name = none) :
    (object id attributes).part name = .error (.noAttribute name) := by
  simp only [part]
  split
  · next hl => cases h.symm.trans hl
  · rfl

theorem part_of_lookup (h : attributes.lookup name = some held) :
    (object id attributes).part name = .ok ⟨held,
      Nat.lt_trans (sizeOf_lt_of_lookup h) (sizeOf_lt_object id attributes)⟩ := by
  simp only [part]
  split
  · next hl =>
    cases h.symm.trans hl
    rfl
  · next hl => cases h.symm.trans hl

end Value

namespace Correspondence

open GatedExpr.Computation

variable {c : Correspondence} {v w : Value} {name : String}

/-! ## Reads -/

theorem Alike.readAttribute (h : c.Alike v w) (hname : name.toList.head? ≠ some '_') :
    Agree Eq c.Alike (v.readAttribute name) (w.readAttribute name) := by
  have hattribute := h.attribute? fun hidden => hname (c.hidden_private hidden)
  unfold Value.readAttribute
  revert hattribute
  generalize v.attribute? name = v?, w.attribute? name = w?
  rintro (_ | hvalue)
  · cases h with
    | node _ ht =>
      cases ht
      exact .error rfl
    | _ => exact .error rfl
  · exact .ok hvalue

theorem AlikeIfAny.both {v? w? : Option Value} (h : c.AlikeIfAny v? w?) :
    v? = Option.none ∧ w? = Option.none ∨
      ∃ v w, v? = Option.some v ∧ w? = Option.some w ∧ c.Alike v w := by
  cases h with
  | none => exact .inl ⟨rfl, rfl⟩
  | some h => exact .inr ⟨_, _, rfl, rfl, h⟩

theorem AlikeNodes.get {tree other : Node} (h : c.AlikeNodes tree other) (name : String) :
    Agree Eq (fun part part' => c.Alike part.1 part'.1) (tree.get name) (other.get name) := by
  have hfield : c.AlikeIfAny (tree.field? name) (other.field? name) := by
    cases h with
    | mk _ hf => exact hf.lookup id
  have hkind : tree.kind = other.kind := by
    cases h
    rfl
  rcases hfield.both with ⟨hv, hw⟩ | ⟨part, part', hv, hw, hpart⟩
  · rw [Node.get_of_missing hv, Node.get_of_missing hw, hkind]
    exact .error rfl
  · rw [Node.get_of_field? hv, Node.get_of_field? hw]
    exact .ok hpart

theorem Alike.part (h : c.Alike v w) (hname : name.toList.head? ≠ some '_') :
    Agree Eq (fun part part' => c.Alike part.1 part'.1) (v.part name) (w.part name) := by
  cases h with
  | node _ ht =>
    simp only [Value.part]
    exact (ht.get name).bind fun part part' hpart => .ok hpart
  | @object i j attributes others _ h =>
    have hlookup : c.AlikeIfAny (attributes.lookup name) (others.lookup name) :=
      h.lookup fun hidden => hname (c.hidden_private hidden.2)
    rcases hlookup.both with ⟨hv, hw⟩ | ⟨part, part', hv, hw, hpart⟩
    · rw [Value.part_of_missing hv, Value.part_of_missing hw]
      exact .error rfl
    · rw [Value.part_of_lookup hv, Value.part_of_lookup hw]
      exact .ok hpart
  | _ => exact .error rfl

/-- Alike values are read on to alike results if their parts are. -/
theorem Alike.bindPart {α β : Type} {R : α → β → Prop} (h : c.Alike v w)
    (hname : name.toList.head? ≠ some '_') {f : { part // sizeOf part < sizeOf v } → Except Fault α}
    {g : { part // sizeOf part < sizeOf w } → Except Fault β}
    (hf : ∀ part part' smaller smaller', c.Alike part part' →
      Agree Eq R (f ⟨part, smaller⟩) (g ⟨part', smaller'⟩)) :
    Agree Eq R (v.part name >>= f) (w.part name >>= g) :=
  (h.part hname).bind fun ⟨part, smaller⟩ ⟨part', smaller'⟩ halike =>
    hf part part' smaller smaller' halike

mutual

theorem Alike.isKey {v w : Value} : c.Alike v w → v.isKey = w.isKey
  | .tuple _ h => by rw [Value.isKey, Value.isKey, h.areKeys]
  | .null | .bool | .text | .absent | .number _ | .list .. | .map .. | .object .. | .function _
  | .method .. | .node .. | .span _ => rfl

theorem AlikeEach.areKeys {items others : List Value} :
    c.AlikeEach items others → Value.areKeys items = Value.areKeys others
  | .nil => rfl
  | .cons h hs => by rw [Value.areKeys, Value.areKeys, h.isKey, hs.areKeys]

end

theorem Alike.isTextOf (h : c.Alike v w) (s : String) : v.isTextOf s = w.isTextOf s := by
  cases h <;> rfl

theorem Alike.isOfKind (h : c.Alike v w) (kind : String) :
    Agree Eq Eq (v.isOfKind kind) (w.isOfKind kind) :=
  (h.readAttribute (by decide)).bind fun _ _ hkind => .ok (hkind.isTextOf kind)

theorem Alike.isSet (h : c.Alike v w) : v.isSet = w.isSet := by
  cases h with
  | list _ h | tuple _ h => simp only [Value.isSet, h.isEmpty]
  | map _ h => simp only [Value.isSet, h.isEmpty]
  | _ => rfl

theorem Alike.kindName (h : c.Alike v w) : Agree Eq Eq (kindName v) (kindName w) := by
  have hkey := h.isKey
  cases h with
  | text => exact .ok rfl
  | _ =>
    simp only [GatedExpr.kindName, hkey]
    exact .self fun _ _ => rfl

theorem Alike.ofOperator (h : c.Alike v w) :
    Agree Eq Eq (Precedence.ofOperator v) (Precedence.ofOperator w) := by
  have hkey := h.isKey
  cases h with
  | text => exact .ok rfl
  | _ =>
    simp only [Precedence.ofOperator, hkey]
    exact .self fun _ _ => rfl

theorem Alike.precedence (h : c.Alike v w) :
    Agree Eq Eq (Precedence.ofTree v) (Precedence.ofTree w) := by
  unfold Precedence.ofTree
  refine (h.readAttribute (by decide)).bind fun kind kind' hkind => ?_
  simp only [hkind.isTextOf]
  split
  · exact .ok rfl
  split
  · exact (h.readAttribute (by decide)).bind fun _ _ hoperator => hoperator.ofOperator
  split
  · exact .ok rfl
  · exact .ok rfl

theorem Alike.isSign (h : c.Alike v w) : Agree Eq Eq (isSign v) (isSign w) := by
  cases h with
  | text => exact .ok rfl
  | _ => exact .error rfl

/-! ## Printed texts -/

theorem AlikeEach.joinTexts {items others : List Value} (h : c.AlikeEach items others) :
    Agree Eq Eq (joinTexts items) (joinTexts others) := by
  refine Agree.bind (R := Eq) ?_ fun texts _ htexts => .ok (htexts ▸ rfl)
  induction items generalizing others with
  | nil =>
    cases h
    exact .ok rfl
  | cons item items ih =>
    cases h with
    | cons hitem hitems =>
      simp only [List.mapM_cons]
      refine Agree.bind (R := Eq) ?_ fun text _ htext => ?_
      · cases hitem with
        | text => exact .ok rfl
        | _ => exact .error rfl
      · exact (ih hitems).bind fun texts _ htexts => .ok (htext ▸ htexts ▸ rfl)

theorem Alike.rawOrDisplay (h : c.Alike v w) :
    Agree Eq c.Alike v.rawOrDisplay w.rawOrDisplay := by
  unfold Value.rawOrDisplay
  refine (h.readAttribute (by decide)).bind fun raw raw' hraw => ?_
  rw [h.display]
  have halike := hraw
  cases hraw with
  | null => exact .ok .text
  | _ => exact .ok halike

theorem Alike.printLiteral (h : c.Alike v w) :
    Agree Eq c.Alike v.printLiteral w.printLiteral := by
  unfold Value.printLiteral
  refine (h.readAttribute (by decide)).bind fun raw raw' hraw => ?_
  have halike := hraw
  cases hraw with
  | null =>
    refine (h.readAttribute (by decide)).bind fun value value' hvalue => ?_
    rw [hvalue.print]
    exact .ok .text
  | _ => exact .ok halike

/-- Whatever the tree is alike to is printed alike. -/
def PrintsAlike (c : Correspondence) (v : Value) : Prop :=
  ∀ w, c.Alike v w → Agree Eq c.Alike v.printTree w.printTree

theorem PrintsAlike.operand (hp : c.PrintsAlike v) (h : c.Alike v w) (minimum : Nat) :
    Agree Eq c.Alike (v.printOperand minimum) (w.printOperand minimum) := by
  rw [Value.printOperand, Value.printOperand]
  refine (hp w h).bind fun text text' htext => h.precedence.bind fun level _ hlevel => ?_
  subst hlevel
  rw [htext.displayPlain]
  split
  · exact .ok .text
  · exact .ok htext

theorem printTrees_alike {items others : List Value} (hp : ∀ item ∈ items, c.PrintsAlike item)
    (h : c.AlikeEach items others) :
    Agree Eq c.AlikeEach (Value.printTrees items) (Value.printTrees others) := by
  induction items generalizing others with
  | nil =>
    cases h
    rw [Value.printTrees]
    exact .ok .nil
  | cons item items ih =>
    cases h with
    | cons hitem hitems =>
      obtain ⟨hfirst, hrest⟩ := List.forall_mem_cons.mp hp
      rw [Value.printTrees, Value.printTrees]
      refine (hfirst _ hitem).bind fun _ _ htext => ?_
      exact (ih hrest hitems).bind fun _ _ htexts => .ok (.cons htext htexts)

theorem printHoles_alike {items others : List Value} (hp : ∀ item ∈ items, c.PrintsAlike item)
    (h : c.AlikeEach items others) :
    Agree Eq c.AlikeEach (Value.printHoles items) (Value.printHoles others) := by
  induction items generalizing others with
  | nil =>
    cases h
    rw [Value.printHoles]
    exact .ok .nil
  | cons item items ih =>
    cases h with
    | @cons _ other _ others hitem hitems =>
      obtain ⟨hfirst, hrest⟩ := List.forall_mem_cons.mp hp
      have hafter (text text' : Value) (htext : c.Alike text text') : Agree Eq c.AlikeEach
          (do
            let texts ← Value.printHoles items
            return text :: (if item.isNull && items.isEmpty then [.text ""] else texts))
          (do
            let texts ← Value.printHoles others
            return text' :: (if other.isNull && others.isEmpty then [.text ""] else texts)) := by
        refine (ih hrest hitems).bind fun _ _ htexts => ?_
        rw [hitem.isNull, hitems.isEmpty]
        split
        · exact .ok (.cons htext (.cons .text .nil))
        · exact .ok (.cons htext htexts)
      rw [Value.printHoles, Value.printHoles]
      simp only [hitem.isNull] at hafter ⊢
      split
      · exact hafter _ _ .text
      · exact (hfirst _ hitem).bind hafter

theorem PrintsAlike.items {items : List Value} (hs : sizeOf items < sizeOf v)
    (hp : ∀ part, sizeOf part < sizeOf v → c.PrintsAlike part) :
    ∀ item ∈ items, c.PrintsAlike item :=
  fun item hm => hp item (Nat.lt_trans (List.sizeOf_lt_of_mem hm) hs)

/-- What holds no parts in a list is printed if there is nothing in it. -/
theorem Alike.noParts (h : c.Alike v w) :
    Agree Eq c.AlikeEach
      (do if (← v.iterate).isEmpty then return [] else throw (Fault.noAttribute "kind"))
      (do if (← w.iterate).isEmpty then return [] else throw (Fault.noAttribute "kind")) := by
  have hiterate : Agree Eq c.AlikeEach v.iterate w.iterate := by
    have hitems := h.iterate
    revert hitems
    cases h with
    | list | tuple | text | map => exact fun (.ok hitems) => .ok hitems
    | _ => exact fun _ => .error rfl
  refine hiterate.bind fun items others hitems => ?_
  rw [hitems.isEmpty]
  split
  · exact .ok .nil
  · exact .error rfl

theorem PrintsAlike.parts (hp : ∀ part, sizeOf part < sizeOf v → c.PrintsAlike part)
    (h : c.Alike v w) : Agree Eq c.AlikeEach v.printParts w.printParts := by
  have halike := h
  cases h with
  | list _ h =>
    simp only [Value.printParts]
    exact printTrees_alike (.items (by simp only [Value.list.sizeOf_spec]; omega) hp) h
  | tuple _ h =>
    simp only [Value.printParts]
    exact printTrees_alike (.items (by simp only [Value.tuple.sizeOf_spec]; omega) hp) h
  | _ =>
    simp only [Value.printParts]
    exact halike.noParts

theorem PrintsAlike.elements (hp : ∀ part, sizeOf part < sizeOf v → c.PrintsAlike part)
    (h : c.Alike v w) : Agree Eq c.AlikeEach v.printElements w.printElements := by
  have halike := h
  cases h with
  | list _ h =>
    simp only [Value.printElements]
    exact printHoles_alike (.items (by simp only [Value.list.sizeOf_spec]; omega) hp) h
  | tuple _ h =>
    simp only [Value.printElements]
    exact printHoles_alike (.items (by simp only [Value.tuple.sizeOf_spec]; omega) hp) h
  | _ =>
    simp only [Value.printElements]
    exact halike.noParts

theorem printsAlike (v : Value) : c.PrintsAlike v := by
  intro w h
  have below (part : Value) (hs : sizeOf part < sizeOf v) : c.PrintsAlike part := printsAlike part
  rw [Value.printTree, Value.printTree]
  refine (h.readAttribute (by decide)).bind fun kind kind' hkind => ?_
  refine hkind.kindName.bind fun s _ hs => ?_
  subst hs
  -- one case for each kind of node, which follows the reads of its parts
  split
  · refine h.bindPart (by decide) fun test _ ht _ htest => ?_
    refine ((below test ht).operand htest _).bind fun _ _ htext => ?_
    refine h.bindPart (by decide) fun consequent _ hc _ hconsequent => ?_
    refine (below consequent hc _ hconsequent).bind fun _ _ htext' => ?_
    refine h.bindPart (by decide) fun alternate _ ha _ halternate => ?_
    refine (below alternate ha _ halternate).bind fun _ _ htext'' => ?_
    rw [htext.displayPlain, htext'.displayPlain, htext''.displayPlain]
    exact .ok .text
  · refine h.bindPart (by decide) fun operator _ _ _ hoperator => ?_
    refine hoperator.ofOperator.bind fun level _ hlevel => ?_
    subst hlevel
    refine h.bindPart (by decide) fun left _ hl _ hleft => ?_
    refine ((below left hl).operand hleft _).bind fun _ _ htext => ?_
    refine h.bindPart (by decide) fun right _ hr _ hright => ?_
    refine ((below right hr).operand hright _).bind fun _ _ htext' => ?_
    rw [htext.displayPlain, htext'.displayPlain, hoperator.displayPlain]
    exact .ok .text
  · refine h.bindPart (by decide) fun argument _ ha _ hargument => ?_
    refine ((below argument ha).operand hargument _).bind fun _ _ htext => ?_
    refine (hargument.isOfKind _).bind fun nested _ hnested => ?_
    subst hnested
    refine h.bindPart (by decide) fun operator operator' _ _ hoperator => ?_
    dsimp only
    rw [htext.displayPlain, hoperator.displayPlain]
    split
    · exact hoperator.isSign.bind fun apart _ hapart => .ok (hapart ▸ .text)
    · exact .ok .text
  · refine h.bindPart (by decide) fun elements _ he _ helements => ?_
    refine (PrintsAlike.elements (fun part hs => below part (Nat.lt_trans hs he)) helements).bind
      fun texts texts' htexts => ?_
    refine htexts.joinTexts.bind fun _ _ htext => ?_
    exact .ok (htext ▸ .text)
  · refine h.bindPart (by decide) fun properties _ hs _ hproperties => ?_
    dsimp only
    rw [hproperties.isSet]
    split
    · exact .ok .text
    · refine (PrintsAlike.parts (fun part hp => below part (Nat.lt_trans hp hs))
        hproperties).bind fun texts texts' htexts => ?_
      refine htexts.joinTexts.bind fun _ _ htext => ?_
      exact .ok (htext ▸ .text)
  · refine h.bindPart (by decide) fun key _ hk _ hkey => ?_
    refine (below key hk _ hkey).bind fun _ _ htext => ?_
    refine h.bindPart (by decide) fun value _ hv _ hvalue => ?_
    refine (below value hv _ hvalue).bind fun _ _ htext' => ?_
    rw [htext.displayPlain, htext'.displayPlain]
    exact .ok .text
  · exact h.readAttribute (by decide)
  · exact h.printLiteral
  · refine h.bindPart (by decide) fun owner _ ho _ howner => ?_
    refine ((below owner ho).operand howner _).bind fun _ _ htext => ?_
    refine h.bindPart (by decide) fun computed _ _ _ hcomputed => ?_
    refine h.bindPart (by decide) fun property _ hp _ hproperty => ?_
    dsimp only
    rw [hcomputed.isSet]
    split
    · refine (below property hp _ hproperty).bind fun _ _ htext' => ?_
      rw [htext.displayPlain, htext'.displayPlain]
      exact .ok .text
    · refine (hproperty.readAttribute (by decide)).bind fun _ _ hname => ?_
      rw [htext.displayPlain, hname.displayPlain]
      exact .ok .text
  · refine h.bindPart (by decide) fun callee _ hc _ hcallee => ?_
    refine ((below callee hc).operand hcallee _).bind fun _ _ htext => ?_
    refine h.bindPart (by decide) fun arguments _ ha _ harguments => ?_
    refine (PrintsAlike.parts (fun part hs => below part (Nat.lt_trans hs ha)) harguments).bind
      fun texts texts' htexts => ?_
    refine htexts.joinTexts.bind fun _ _ htext' => ?_
    rw [htext.displayPlain]
    exact .ok (htext' ▸ .text)
  · exact h.rawOrDisplay
termination_by sizeOf v

/-- Of alike values, both are printed, and alike, or neither can be. -/
theorem Alike.printAny (h : c.Alike v w) : Agree Eq c.Alike v.printAny w.printAny := by
  have halike := h
  cases h with
  | node =>
    simp only [Value.printAny]
    exact printsAlike _ _ halike
  | _ =>
    simp only [Value.printAny, halike.print]
    exact .ok .text

end Correspondence

end GatedExpr
