import GatedExpr.Proofs.Value.AlikeCoercions
import GatedExpr.Value.Member

/-! # Members of alike values

What is read off alike values is alike. New values get their identities in the same order, so
they stay alike once they have them.
-/

namespace GatedExpr

namespace Value

mutual

/-- Identities are handed out in order. -/
theorem le_adopt : (v : Value) → (n : Identity) → n ≤ (v.adopt.run n).2
  | .null, _ | .bool _, _ | .text _, _ | .absent, _ => Nat.le_refl _
  | .number 0 _, n | .function 0 _, n | .method 0 _ _, n | .span 0 _, n => Nat.le_succ n
  | .list 0 items, n | .tuple 0 items, n => Nat.le_succ_of_le (le_adoptEach items n)
  | .map 0 entries, n | .object 0 entries, n => Nat.le_succ_of_le (le_adoptEntries entries n)
  | .node 0 tree, n => Nat.le_succ_of_le (le_adoptNode tree n)
  | .number (_ + 1) _, _ | .function (_ + 1) _, _ | .method (_ + 1) _ _, _ | .span (_ + 1) _, _
  | .list (_ + 1) _, _ | .tuple (_ + 1) _, _ | .map (_ + 1) _, _ | .object (_ + 1) _, _
  | .node (_ + 1) _, _ => Nat.le_refl _

theorem le_adoptEach : (items : List Value) → (n : Identity) → n ≤ ((adoptEach items).run n).2
  | [], _ => Nat.le_refl _
  | item :: items, n => Nat.le_trans (le_adopt item n) (le_adoptEach items _)

theorem le_adoptEntries : (entries : List (String × Value)) → (n : Identity) →
    n ≤ ((adoptEntries entries).run n).2
  | [], _ => Nat.le_refl _
  | (_, value) :: entries, n => Nat.le_trans (le_adopt value n) (le_adoptEntries entries _)

theorem le_adoptNode : (tree : Node) → (n : Identity) → n ≤ ((adoptNode tree).run n).2
  | ⟨_, _, _, children, fields⟩, n =>
    Nat.le_trans (le_adoptChildren children n) (le_adoptEntries fields _)

theorem le_adoptChildren : (children : Option (List Value)) → (n : Identity) →
    n ≤ ((adoptChildren children).run n).2
  | none, _ => Nat.le_refl _
  | some items, n => le_adoptEach items n

end

end Value

namespace Correspondence

open GatedExpr.Computation

variable {c : Correspondence} {v w v' w' : Value}

/-! ## Faults -/

/-- The faults are the same up to what they hold that was made by a function. -/
inductive AlikeFault (c : Correspondence) : Fault → Fault → Prop where
  | same {fault : Fault} : AlikeFault c fault fault
  | host {cls : FaultClass} {arguments others : List Value} : c.AlikeEach arguments others →
      AlikeFault c (.host cls arguments) (.host cls others)

/-- The faults are alike and about the same node. -/
structure AlikeFailure (c : Correspondence) (failure other : Failure) : Prop where
  fault : c.AlikeFault failure.fault other.fault
  node : failure.node = other.node

theorem AlikeFailure.bare {fault other : Fault} (h : c.AlikeFault fault other) :
    c.AlikeFailure (.bare fault) (.bare other) :=
  ⟨h, rfl⟩

theorem AlikeFailure.locate {failure other : Failure} (h : c.AlikeFailure failure other)
    (node : Node) : c.AlikeFailure (failure.locate node) (other.locate node) :=
  ⟨h.fault, by simp only [Failure.locate, h.node]⟩

/-! ## Attributes -/

theorem alikeEach_texts (texts : List String) :
    c.AlikeEach (texts.map .text) (texts.map .text) := by
  induction texts with
  | nil => exact .nil
  | cons s texts ih => exact .cons .text ih

theorem alikeEach_characters (s : String) :
    c.AlikeEach (s.toList.map fun d => .text (String.singleton d))
      (s.toList.map fun d => .text (String.singleton d)) := by
  have h := alikeEach_texts (c := c) (s.toList.map String.singleton)
  rw [List.map_map] at h
  exact h

theorem AlikeEach.filter_nodes {items others : List Value} (h : c.AlikeEach items others) :
    c.AlikeEach (items.filter (·.node?.isSome)) (others.filter (·.node?.isSome)) := by
  induction items generalizing others with
  | nil => cases h; exact .nil
  | cons v items ih =>
    cases h with
    | cons hv h =>
      have hrest := ih h
      cases hv with
      | node hi ht => exact .cons (.node hi ht) hrest
      | _ => exact hrest

theorem Alike.directNodes (h : c.Alike v w) :
    c.AlikeEach (Node.directNodes v) (Node.directNodes w) := by
  cases h with
  | node hi ht => exact .cons (.node hi ht) .nil
  | list _ h => exact h.filter_nodes
  | _ => exact .nil

theorem AlikeEntries.flatMap_directNodes {fields values : List (String × Value)}
    (h : c.AlikeEntries nothing fields values) :
    c.AlikeEach (fields.flatMap fun field => Node.directNodes field.2)
      (values.flatMap fun field => Node.directNodes field.2) := by
  induction fields generalizing values with
  | nil => cases h; exact .nil
  | cons field fields ih =>
    cases h with
    | cons hv h => exact hv.directNodes.append (ih h)
    | leftOut hout _ => exact hout.elim

theorem alike_ofText? (text : Option String) : c.Alike (.ofText? text) (.ofText? text) := by
  cases text with
  | none => exact .null
  | some s => exact .text

theorem AlikeNodes.attribute? {i j : Identity} {tree other : Node} (hi : c.same i j)
    (h : c.AlikeNodes tree other) (name : String) :
    c.AlikeIfAny (tree.attribute? i name) (other.attribute? j name) := by
  cases h with
  | @mk kind span raw children others fields values hc hf =>
    unfold Node.attribute?
    split
    · exact .some (alike_ofText? kind)
    · cases span with
      | none => exact .some .null
      | some range => exact .some (.span hi)
    · exact .some (alike_ofText? raw)
    · cases hc with
      | some h => exact .some (.list hi h)
      | none =>
        simp only [Node.parts?, hf.isEmpty]
        split
        · exact .some .null
        · exact .some (.list same_zero hf.flatMap_directNodes)
    · exact .some (.map hi hf)
    · exact hf.lookup id

theorem alike_real (n : Number) : c.Alike v w →
    c.Alike (match v with | .number .. => v | _ => .ofNumber n)
      (match w with | .number .. => w | _ => .ofNumber n) := by
  intro h
  cases h with
  | number hi => exact .number hi
  | _ => exact alike_ofNumber n

theorem Alike.numberAttribute? (h : c.Alike v w) (n : Number) (name : String) :
    c.AlikeIfAny (v.numberAttribute? n name) (w.numberAttribute? n name) := by
  unfold Value.numberAttribute?
  dsimp only
  split
  · exact .some (alike_real n h)
  · exact .some (alike_ofNumber _)
  · exact .some (alike_ofNumber _)
  · exact .some (alike_real _ h)
  · exact .some (alike_ofNumber _)
  · exact .some (.method same_zero h)
  · exact .some (.method same_zero h)
  · exact .none

/-- An attribute that is not hidden is there on both or on neither, and alike. -/
theorem Alike.attribute? (h : c.Alike v w) {name : String} (hname : ¬ c.hidden name) :
    c.AlikeIfAny (v.attribute? name) (w.attribute? name) := by
  have hv := h
  cases h with
  | object _ h => exact h.lookup fun hout => hname hout.2
  | node hi h => exact h.attribute? hi name
  | span _ =>
    simp only [Value.attribute?]
    split
    · exact .some (alike_ofNumber _)
    · split
      · exact .some (alike_ofNumber _)
      · exact .none
  | bool => exact hv.numberAttribute? _ name
  | number _ => exact hv.numberAttribute? _ name
  | _ => exact .none

theorem Alike.publicAttribute (h : c.Alike v w) (name : String) :
    c.Alike (v.publicAttribute name) (w.publicAttribute name) := by
  unfold Value.publicAttribute
  split
  · exact .null
  · next hname => exact (h.attribute? fun hidden => hname (c.hidden_private hidden)).getD

/-! ## Members -/

theorem Alike.index? (h : c.Alike v w) (length : Nat) : v.index? length = w.index? length := by
  have hn : v.indexNumber? = w.indexNumber? := by
    have ht := h.toText
    cases h with
    | number _ => rfl
    | _ => simp only [Value.indexNumber?, ht]
  unfold Value.index?
  rw [hn]

theorem Alike.isLengthKey (h : c.Alike v w) : v.isLengthKey = w.isLengthKey := by
  cases h <;> rfl

/-- Alike keys read alike members off alike targets. -/
theorem Alike.getMember (h : c.Alike v w) (h' : c.Alike v' w') :
    Agree c.AlikeFault c.Alike (v.getMember v') (w.getMember w') := by
  -- Tuples and texts are read like the lists of their items.
  have hread {items others : List Value} (hitems : c.AlikeEach items others) :
      Agree c.AlikeFault c.Alike ((Value.ofList items).getMember v')
        ((Value.ofList others).getMember w') := by
    simp only [Value.ofList, Value.getMember, h'.isLengthKey, hitems.length_eq, h'.index?]
    split
    · exact .ok (alike_ofNumber _)
    · split
      · exact .ok (hitems.getD _)
      · exact .error .same
  have hv := h
  cases h with
  | null =>
    simp only [Value.getMember, h'.toText]
    exact .error .same
  | map _ h =>
    simp only [Value.getMember, h'.toText]
    exact .ok (h.lookup id).getD
  | list _ hitems | tuple _ hitems => exact hread hitems
  | text => exact hread (alikeEach_characters _)
  | _ =>
    simp only [Value.getMember, h'.toText]
    exact .ok (hv.publicAttribute _)

theorem Alike.iterate (h : c.Alike v w) : Agree c.AlikeFault c.AlikeEach v.iterate w.iterate := by
  cases h with
  | list _ h => exact .ok h
  | tuple _ h => exact .ok h
  | text => exact .ok (alikeEach_characters _)
  | @map _ _ entries others _ h =>
    have hleft : entries.map (fun entry => Value.text entry.1) = (entries.map (·.1)).map .text := by
      rw [List.map_map]
      rfl
    have hright : others.map (fun entry => Value.text entry.1) = (entries.map (·.1)).map .text := by
      rw [h.names_eq, List.map_map]
      rfl
    simp only [Value.iterate, hleft, hright]
    exact .ok (alikeEach_texts _)
  | _ => exact .error .same

theorem Alike.asPair (h : c.Alike v w) :
    Agree c.AlikeFault (fun p q => c.Alike p.1 q.1 ∧ c.Alike p.2 q.2) v.asPair w.asPair := by
  refine h.iterate.bind fun items others h => ?_
  cases h with
  | nil => exact .error .same
  | cons h hs =>
    cases hs with
    | nil => exact .error .same
    | cons h' hs =>
      cases hs with
      | nil => exact .ok ⟨h, h'⟩
      | cons => exact .error .same

/-! ## New identities -/

/-- The next identities correspond, and so do all after them. -/
def Fresh (c : Correspondence) (n n' : Identity) : Prop :=
  ∀ k, c.same (n + k) (n' + k)

theorem Fresh.next {n n' : Identity} (h : c.Fresh n n') : c.Fresh (n + 1) (n' + 1) := by
  intro k
  rw [Nat.add_assoc, Nat.add_assoc]
  exact h (1 + k)

/-- Both values are new, or neither is. -/
theorem same_cases {i j : Identity} (h : c.same i j) :
    i = 0 ∧ j = 0 ∨ ∃ i' j', i = i' + 1 ∧ j = j' + 1 := by
  have hzero := c.unique h same_zero
  cases i with
  | zero => exact .inl ⟨rfl, hzero.mp rfl⟩
  | succ i =>
    cases j with
    | zero => exact absurd (hzero.mpr rfl) (Nat.succ_ne_zero i)
    | succ j => exact .inr ⟨i, j, rfl, rfl⟩

theorem AlikeEntries.mono {out out' : String → Prop} {entries others : List (String × Value)}
    (h : c.AlikeEntries out entries others) (hout : ∀ name, out name → out' name) :
    c.AlikeEntries out' entries others := by
  induction entries generalizing others with
  | nil => cases h; exact .nil
  | cons entry entries ih =>
    cases h with
    | cons hv h => exact .cons hv (ih h)
    | leftOut hn h => exact .leftOut (hout _ hn) (ih h)

mutual

/-- Alike values stay alike when they get their identities. -/
theorem Alike.adopt {v w : Value} : c.Alike v w → ∀ {n n'}, c.Fresh n n' →
    c.Alike (v.adopt.run n).1 (w.adopt.run n').1 ∧
      c.Fresh (v.adopt.run n).2 (w.adopt.run n').2
  | .null, _, _, hn => ⟨.null, hn⟩
  | .bool, _, _, hn => ⟨.bool, hn⟩
  | .text, _, _, hn => ⟨.text, hn⟩
  | .absent, _, _, hn => ⟨.absent, hn⟩
  | .number hi, _, _, hn => by
    rcases same_cases hi with ⟨rfl, rfl⟩ | ⟨i, j, rfl, rfl⟩
    · exact ⟨.number (hn 0), hn.next⟩
    · exact ⟨.number hi, hn⟩
  | .list hi h, _, _, hn => by
    rcases same_cases hi with ⟨rfl, rfl⟩ | ⟨i, j, rfl, rfl⟩
    · obtain ⟨hitems, hnext⟩ := h.adoptEach hn
      exact ⟨.list (hnext 0) hitems, hnext.next⟩
    · exact ⟨.list hi h, hn⟩
  | .tuple hi h, _, _, hn => by
    rcases same_cases hi with ⟨rfl, rfl⟩ | ⟨i, j, rfl, rfl⟩
    · obtain ⟨hitems, hnext⟩ := h.adoptEach hn
      exact ⟨.tuple (hnext 0) hitems, hnext.next⟩
    · exact ⟨.tuple hi h, hn⟩
  | .map hi h, _, _, hn => by
    rcases same_cases hi with ⟨rfl, rfl⟩ | ⟨i, j, rfl, rfl⟩
    · obtain ⟨hentries, hnext⟩ := h.adoptEntries (fun _ => id) hn
      exact ⟨.map (hnext 0) hentries, hnext.next⟩
    · exact ⟨.map hi h, hn⟩
  | .object hi h, _, _, hn => by
    rcases same_cases hi with ⟨rfl, rfl⟩ | ⟨i, j, rfl, rfl⟩
    · obtain ⟨hentries, hnext⟩ := h.adoptEntries (fun _ hout => hout.1 rfl) hn
      exact ⟨.object (hnext 0) (hentries.mono fun _ hout => absurd rfl hout.1), hnext.next⟩
    · exact ⟨.object hi h, hn⟩
  | .function hi, _, _, hn => by
    rcases same_cases hi with ⟨rfl, rfl⟩ | ⟨i, j, rfl, rfl⟩
    · exact ⟨.function (hn 0), hn.next⟩
    · exact ⟨.function hi, hn⟩
  | .method hi h, _, _, hn => by
    rcases same_cases hi with ⟨rfl, rfl⟩ | ⟨i, j, rfl, rfl⟩
    · exact ⟨.method (hn 0) h, hn.next⟩
    · exact ⟨.method hi h, hn⟩
  | .node hi h, _, _, hn => by
    rcases same_cases hi with ⟨rfl, rfl⟩ | ⟨i, j, rfl, rfl⟩
    · obtain ⟨htree, hnext⟩ := h.adoptNode hn
      exact ⟨.node (hnext 0) htree, hnext.next⟩
    · exact ⟨.node hi h, hn⟩
  | .span hi, _, _, hn => by
    rcases same_cases hi with ⟨rfl, rfl⟩ | ⟨i, j, rfl, rfl⟩
    · exact ⟨.span (hn 0), hn.next⟩
    · exact ⟨.span hi, hn⟩

theorem AlikeEach.adoptEach {items others : List Value} : c.AlikeEach items others →
    ∀ {n n'}, c.Fresh n n' →
      c.AlikeEach ((Value.adoptEach items).run n).1 ((Value.adoptEach others).run n').1 ∧
        c.Fresh ((Value.adoptEach items).run n).2 ((Value.adoptEach others).run n').2
  | .nil, _, _, hn => ⟨.nil, hn⟩
  | .cons h hs, _, _, hn => by
    obtain ⟨hv, hnext⟩ := h.adopt hn
    obtain ⟨hvs, hlast⟩ := hs.adoptEach hnext
    exact ⟨.cons hv hvs, hlast⟩

theorem AlikeEntries.adoptEntries {out : String → Prop} {entries others : List (String × Value)} :
    c.AlikeEntries out entries others → (∀ name, ¬ out name) → ∀ {n n'}, c.Fresh n n' →
      c.AlikeEntries out ((Value.adoptEntries entries).run n).1
          ((Value.adoptEntries others).run n').1 ∧
        c.Fresh ((Value.adoptEntries entries).run n).2 ((Value.adoptEntries others).run n').2
  | .nil, _, _, _, hn => ⟨.nil, hn⟩
  | .cons h hs, hout, _, _, hn => by
    obtain ⟨hv, hnext⟩ := h.adopt hn
    obtain ⟨hvs, hlast⟩ := hs.adoptEntries hout hnext
    exact ⟨.cons hv hvs, hlast⟩
  | .leftOut hname _, hout, _, _, _ => absurd hname (hout _)

theorem AlikeNodes.adoptNode {tree other : Node} : c.AlikeNodes tree other →
    ∀ {n n'}, c.Fresh n n' →
      c.AlikeNodes ((Value.adoptNode tree).run n).1 ((Value.adoptNode other).run n').1 ∧
        c.Fresh ((Value.adoptNode tree).run n).2 ((Value.adoptNode other).run n').2
  | .mk hc hf, _, _, hn => by
    obtain ⟨hchildren, hnext⟩ := hc.adoptChildren hn
    obtain ⟨hfields, hlast⟩ := hf.adoptEntries (fun _ => id) hnext
    exact ⟨.mk hchildren hfields, hlast⟩

theorem AlikeChildren.adoptChildren {children others : Option (List Value)} :
    c.AlikeChildren children others → ∀ {n n'}, c.Fresh n n' →
      c.AlikeChildren ((Value.adoptChildren children).run n).1
          ((Value.adoptChildren others).run n').1 ∧
        c.Fresh ((Value.adoptChildren children).run n).2 ((Value.adoptChildren others).run n').2
  | .none, _, _, hn => ⟨.none, hn⟩
  | .some h, _, _, hn => by
    obtain ⟨hitems, hnext⟩ := h.adoptEach hn
    exact ⟨.some hitems, hnext⟩

end

end Correspondence

end GatedExpr
