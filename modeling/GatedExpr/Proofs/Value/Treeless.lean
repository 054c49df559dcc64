import GatedExpr.Operator
import GatedExpr.Proofs.Computation
import GatedExpr.Value.Member

/-! # Values without trees

Syntax trees are values, but none is in what expressions compute. A value is treeless if no tree
is in it, however deep. Whatever operators and member reads make of treeless values is treeless.
-/

namespace GatedExpr

open GatedExpr.Computation

namespace Value

mutual

/-- No tree is in the value. -/
def Treeless : Value → Prop
  | .null | .bool _ | .number .. | .text _ | .function .. | .span .. | .absent => True
  | .list _ items | .tuple _ items => EachTreeless items
  | .map _ entries | .object _ entries => EntriesTreeless entries
  | .method _ receiver _ => receiver.Treeless
  | .node .. => False

def EachTreeless : List Value → Prop
  | [] => True
  | item :: items => item.Treeless ∧ EachTreeless items

def EntriesTreeless : List (String × Value) → Prop
  | [] => True
  | (_, value) :: entries => value.Treeless ∧ EntriesTreeless entries

end

variable {v w result : Value} {items : List Value} {entries : List (String × Value)}

theorem eachTreeless_iff : EachTreeless items ↔ ∀ item ∈ items, item.Treeless := by
  induction items with
  | nil => exact ⟨fun _ => nofun, fun _ => trivial⟩
  | cons item items ih => rw [EachTreeless, ih, List.forall_mem_cons]

theorem entriesTreeless_iff : EntriesTreeless entries ↔ ∀ entry ∈ entries, entry.2.Treeless := by
  induction entries with
  | nil => exact ⟨fun _ => nofun, fun _ => trivial⟩
  | cons entry entries ih => rw [EntriesTreeless, ih, List.forall_mem_cons]

theorem EntriesTreeless.lookup (h : EntriesTreeless entries) {name : String}
    (hl : entries.lookup name = some v) : v.Treeless :=
  entriesTreeless_iff.mp h _ (Table.mem_of_lookup hl)

theorem EntriesTreeless.set (h : EntriesTreeless entries) (hv : v.Treeless) (name : String) :
    EntriesTreeless (Table.set name v entries) := by
  induction entries with
  | nil => exact ⟨hv, trivial⟩
  | cons entry entries ih =>
    unfold Table.set
    split
    · exact ⟨hv, h.2⟩
    · exact ⟨h.1, ih h.2⟩

/-! ## Coercions and operators -/

theorem treeless_ofNumber (n : Number) : (ofNumber n).Treeless :=
  trivial

theorem treeless_ofResult (n : Number) : (ofResult n).Treeless := by
  unfold ofResult
  split <;> trivial

theorem treeless_asNumber (value : Value) : value.asNumber.Treeless := by
  fun_induction asNumber value with
  | case1 => trivial
  | case2 _ _ ih => exact ih
  | case3 => exact treeless_ofResult _

theorem treeless_of_map {ε : Type} {f : Number → Value} (hf : ∀ n, (f n).Treeless)
    {r : Except ε Number} (h : f <$> r = .ok result) : result.Treeless := by
  cases r with
  | ok n =>
    cases h
    exact hf n
  | error cause => cases h

theorem treeless_ofNumber_or_ofResult (b : Bool) (n : Number) :
    ((if b then ofResult else ofNumber) n).Treeless := by
  cases b
  · trivial
  · exact treeless_ofResult n

theorem treeless_add (h : v.add w = .ok result) : result.Treeless := by
  unfold add at h
  dsimp only at h
  split at h
  · cases h
    trivial
  · exact treeless_of_map treeless_ofNumber h

theorem treeless_binary {operator : BinaryOperator} (h : operator.apply v w = .ok result) :
    result.Treeless := by
  cases operator with
  | add => exact treeless_add h
  | subtract | multiply => exact treeless_of_map treeless_ofNumber h
  | divide | remainder => exact treeless_of_map (treeless_ofNumber_or_ofResult _) h
  | _ =>
    cases h
    trivial

theorem treeless_unary {operator : UnaryOperator} (h : operator.apply v = .ok result) :
    result.Treeless := by
  cases operator with
  | plus =>
    cases h
    exact treeless_asNumber v
  | not =>
    obtain ⟨b, -, h⟩ := except_bind_eq_ok.mp h
    cases h
    trivial
  | minus | complement =>
    cases h
    trivial

/-! ## Reads -/

theorem Treeless.iterate (hv : v.Treeless) (h : v.iterate = .ok items) : EachTreeless items := by
  cases v with
  | list id held | tuple id held =>
    cases h
    exact hv
  | text | map =>
    cases h
    refine eachTreeless_iff.mpr fun item hm => ?_
    obtain ⟨_, -, rfl⟩ := List.mem_map.mp hm
    trivial
  | _ => cases h

theorem Treeless.asPair (hv : v.Treeless) {pair : Value × Value} (h : v.asPair = .ok pair) :
    pair.2.Treeless := by
  obtain ⟨items, hitems, h⟩ := except_bind_eq_ok.mp h
  split at h
  · cases h
    exact (hv.iterate hitems).2.1
  · cases h

theorem Treeless.numberAttribute? (hv : v.Treeless) {n : Number} {name : String}
    (h : v.numberAttribute? n name = some result) : result.Treeless := by
  unfold Value.numberAttribute? at h
  dsimp only at h
  split at h <;> cases h
  all_goals try trivial
  all_goals split
  all_goals first | exact hv | trivial

theorem Treeless.attribute? (hv : v.Treeless) {name : String}
    (h : v.attribute? name = some result) : result.Treeless := by
  cases v with
  | object id attributes => exact hv.lookup h
  | bool | number => exact hv.numberAttribute? h
  | span id range =>
    simp only [Value.attribute?] at h
    split at h
    · cases h
      trivial
    · split at h <;> cases h
      trivial
  | node => exact hv.elim
  | _ => cases h

theorem Treeless.publicAttribute (hv : v.Treeless) (name : String) :
    (v.publicAttribute name).Treeless := by
  unfold Value.publicAttribute
  split
  · trivial
  · cases h : v.attribute? name with
    | some result => exact hv.attribute? h
    | none => trivial

theorem EachTreeless.itemAt (h : EachTreeless items) (position : Option Nat) :
    ((position.bind (items[·]?)).getD .null).Treeless := by
  cases hread : position.bind (items[·]?) with
  | none => trivial
  | some item =>
    obtain ⟨i, -, hi⟩ := Option.bind_eq_some_iff.mp hread
    exact eachTreeless_iff.mp h item (List.mem_of_getElem? hi)

theorem EntriesTreeless.entryAt (h : EntriesTreeless entries) (name : String) :
    ((entries.lookup name).getD .null).Treeless := by
  cases hl : entries.lookup name with
  | none => trivial
  | some held => exact h.lookup hl

theorem EachTreeless.getMember (hitems : EachTreeless items)
    (h : (ofList items).getMember w = .ok result) : result.Treeless := by
  simp only [Value.ofList, Value.getMember] at h
  split at h
  · cases h
    trivial
  · split at h <;> cases h
    exact hitems.itemAt _

theorem Treeless.getMember (hv : v.Treeless) (h : v.getMember w = .ok result) :
    result.Treeless := by
  cases v with
  | null => cases h
  | map id entries =>
    cases h
    exact EntriesTreeless.entryAt hv w.toText
  | list id held | tuple id held => exact EachTreeless.getMember hv h
  | text s =>
    refine EachTreeless.getMember (eachTreeless_iff.mpr fun item hm => ?_) h
    obtain ⟨_, -, rfl⟩ := List.mem_map.mp hm
    trivial
  | node => exact hv.elim
  | _ =>
    cases h
    exact hv.publicAttribute _

/-! ## New values -/

mutual

theorem Treeless.adopt : (v : Value) → v.Treeless → (n : Identity) → (v.adopt.run n).1.Treeless
  | .null, _, _ | .bool _, _, _ | .text _, _, _ | .absent, _, _ => trivial
  | .number 0 _, _, _ | .function 0 _, _, _ | .span 0 _, _, _ => trivial
  | .method 0 _ _, h, _ => h
  | .list 0 items, h, n | .tuple 0 items, h, n => EachTreeless.adopt items h n
  | .map 0 entries, h, n | .object 0 entries, h, n => EntriesTreeless.adopt entries h n
  | .number (_ + 1) _, _, _ | .function (_ + 1) _, _, _ | .span (_ + 1) _, _, _ => trivial
  | .method (_ + 1) _ _, h, _ | .list (_ + 1) _, h, _ | .tuple (_ + 1) _, h, _
  | .map (_ + 1) _, h, _ | .object (_ + 1) _, h, _ => h

theorem EachTreeless.adopt : (items : List Value) → EachTreeless items → (n : Identity) →
    EachTreeless ((adoptEach items).run n).1
  | [], _, _ => trivial
  | item :: items, h, n => ⟨h.1.adopt item n, h.2.adopt items _⟩

theorem EntriesTreeless.adopt : (entries : List (String × Value)) → EntriesTreeless entries →
    (n : Identity) → EntriesTreeless ((adoptEntries entries).run n).1
  | [], _, _ => trivial
  | (_, value) :: entries, h, n => ⟨h.1.adopt value n, h.2.adopt entries _⟩

end

end Value

end GatedExpr
