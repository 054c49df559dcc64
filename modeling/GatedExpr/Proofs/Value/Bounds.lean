import GatedExpr.Proofs.Value.AlikeIdentities

/-! # Bounds of identities

A value is below a bound if all its identities are. Whatever is made of values below a bound is
below it too, and a new value is below the bound that handing out its identities leaves.
-/

namespace GatedExpr

open GatedExpr.Computation

namespace Value

/-- All identities in the value have been handed out when `n` is the next one. -/
def Below (n : Identity) (v : Value) : Prop :=
  ∀ i ∈ v.ids, i < n

def EachBelow (n : Identity) (items : List Value) : Prop :=
  ∀ i ∈ idsEach items, i < n

def EntriesBelow (n : Identity) (entries : List (String × Value)) : Prop :=
  ∀ i ∈ idsEntries entries, i < n

variable {n m : Identity} {v w result : Value}

theorem Below.mono (h : v.Below n) (hle : n ≤ m) : v.Below m :=
  fun i hm => Nat.lt_of_lt_of_le (h i hm) hle

theorem EntriesBelow.mono {entries : List (String × Value)} (h : EntriesBelow n entries)
    (hle : n ≤ m) : EntriesBelow m entries :=
  fun i hm => Nat.lt_of_lt_of_le (h i hm) hle

theorem eachBelow_nil : EachBelow n [] :=
  List.forall_mem_nil _

theorem entriesBelow_nil : EntriesBelow n [] :=
  List.forall_mem_nil _

theorem eachBelow_cons {items : List Value} :
    EachBelow n (v :: items) ↔ v.Below n ∧ EachBelow n items :=
  List.forall_mem_append

theorem EntriesBelow.set {entries : List (String × Value)} (h : EntriesBelow n entries)
    (hv : v.Below n) (name : String) : EntriesBelow n (Table.set name v entries) := by
  induction entries with
  | nil => exact List.forall_mem_append.mpr ⟨hv, entriesBelow_nil⟩
  | cons entry entries ih =>
    obtain ⟨hentry, hrest⟩ := List.forall_mem_append.mp h
    unfold Table.set
    split
    · exact List.forall_mem_append.mpr ⟨hv, hrest⟩
    · exact List.forall_mem_append.mpr ⟨hentry, ih hrest⟩

/-! ## What is made of values -/

/-- Values below a bound are those that are alike themselves up to it. -/
theorem alike_below_iff (hn : World.firstFreeId ≤ n) :
    (Correspondence.below n hn).Alike v v ↔ v.Below n :=
  Correspondence.alike_below_iff

section

variable (hn : World.firstFreeId ≤ n)

include hn

theorem unassigned_lt : Identity.unassigned < n :=
  Nat.lt_of_lt_of_le (by decide) hn

theorem Below.list {items : List Value} (h : EachBelow n items) :
    (Value.list .unassigned items).Below n :=
  List.forall_mem_cons.mpr ⟨unassigned_lt hn, h⟩

theorem Below.tuple {items : List Value} (h : EachBelow n items) :
    (Value.tuple .unassigned items).Below n :=
  List.forall_mem_cons.mpr ⟨unassigned_lt hn, h⟩

theorem Below.map {entries : List (String × Value)} (h : EntriesBelow n entries) :
    (Value.map .unassigned entries).Below n :=
  List.forall_mem_cons.mpr ⟨unassigned_lt hn, h⟩

theorem Below.binary {operator : BinaryOperator} (hv : v.Below n) (hw : w.Below n)
    (h : operator.apply v w = .ok result) : result.Below n := by
  have hagree := ((alike_below_iff hn).mpr hv).binary operator ((alike_below_iff hn).mpr hw)
  rw [h] at hagree
  cases hagree with
  | ok hresult => exact (alike_below_iff hn).mp hresult

theorem Below.unary {operator : UnaryOperator} (hv : v.Below n)
    (h : operator.apply v = .ok result) : result.Below n := by
  have hagree := ((alike_below_iff hn).mpr hv).unary operator
  rw [h] at hagree
  cases hagree with
  | ok hresult => exact (alike_below_iff hn).mp hresult

theorem Below.getMember (hv : v.Below n) (hw : w.Below n) (h : v.getMember w = .ok result) :
    result.Below n := by
  have hagree := ((alike_below_iff hn).mpr hv).getMember ((alike_below_iff hn).mpr hw)
  rw [h] at hagree
  cases hagree with
  | ok hresult => exact (alike_below_iff hn).mp hresult

theorem Below.asPair {pair : Value × Value} (hv : v.Below n) (h : v.asPair = .ok pair) :
    pair.1.Below n ∧ pair.2.Below n := by
  have hagree := ((alike_below_iff hn).mpr hv).asPair
  rw [h] at hagree
  cases hagree with
  | ok hpair => exact hpair.imp (alike_below_iff hn).mp (alike_below_iff hn).mp

end

/-! ## New values -/

mutual

/-- A value that gets its identities is below the next one then. -/
theorem below_adopt : (v : Value) → (n : Identity) → v.Below n →
    (v.adopt.run n).1.Below (v.adopt.run n).2
  | .null, _, _ | .bool _, _, _ | .text _, _, _ | .absent, _, _ => nofun
  | .number 0 _, n, _ | .function 0 _, n, _ | .span 0 _, n, _ =>
    List.forall_mem_singleton.mpr (Nat.lt_succ_self n)
  | .method 0 _ _, n, h =>
    List.forall_mem_cons.mpr ⟨Nat.lt_succ_self n, fun i hm => Nat.lt_succ_of_lt (h i (.tail _ hm))⟩
  | .list 0 items, n, h | .tuple 0 items, n, h =>
    List.forall_mem_cons.mpr ⟨Nat.lt_succ_self _, fun i hm =>
      Nat.lt_succ_of_lt (below_adoptEach items n (fun i hm => h i (.tail _ hm)) i hm)⟩
  | .map 0 entries, n, h | .object 0 entries, n, h =>
    List.forall_mem_cons.mpr ⟨Nat.lt_succ_self _, fun i hm =>
      Nat.lt_succ_of_lt (below_adoptEntries entries n (fun i hm => h i (.tail _ hm)) i hm)⟩
  | .node 0 tree, n, h =>
    List.forall_mem_cons.mpr ⟨Nat.lt_succ_self _, fun i hm =>
      Nat.lt_succ_of_lt (below_adoptNode tree n (fun i hm => h i (.tail _ hm)) i hm)⟩
  | .number (_ + 1) _, _, h | .function (_ + 1) _, _, h | .method (_ + 1) _ _, _, h
  | .span (_ + 1) _, _, h | .list (_ + 1) _, _, h | .tuple (_ + 1) _, _, h
  | .map (_ + 1) _, _, h | .object (_ + 1) _, _, h | .node (_ + 1) _, _, h => h

theorem below_adoptEach : (items : List Value) → (n : Identity) → EachBelow n items →
    EachBelow ((adoptEach items).run n).2 ((adoptEach items).run n).1
  | [], _, _ => nofun
  | item :: items, n, h =>
    have hitem := below_adopt item n fun i hm => h i (List.mem_append_left _ hm)
    have hrest := below_adoptEach items (item.adopt.run n).2 fun i hm =>
      Nat.lt_of_lt_of_le (h i (List.mem_append_right _ hm)) (le_adopt item n)
    List.forall_mem_append.mpr ⟨hitem.mono (le_adoptEach items _), hrest⟩

theorem below_adoptEntries : (entries : List (String × Value)) → (n : Identity) →
    EntriesBelow n entries →
      EntriesBelow ((adoptEntries entries).run n).2 ((adoptEntries entries).run n).1
  | [], _, _ => nofun
  | (_, value) :: entries, n, h =>
    have hvalue := below_adopt value n fun i hm => h i (List.mem_append_left _ hm)
    have hrest := below_adoptEntries entries (value.adopt.run n).2 fun i hm =>
      Nat.lt_of_lt_of_le (h i (List.mem_append_right _ hm)) (le_adopt value n)
    List.forall_mem_append.mpr ⟨hvalue.mono (le_adoptEntries entries _), hrest⟩

theorem below_adoptNode : (tree : Node) → (n : Identity) → (∀ i ∈ idsNode tree, i < n) →
    ∀ i ∈ idsNode ((adoptNode tree).run n).1, i < ((adoptNode tree).run n).2
  | ⟨_, _, _, children, fields⟩, n, h =>
    have hchildren := below_adoptChildren children n fun i hm => h i (List.mem_append_left _ hm)
    have hfields := below_adoptEntries fields ((adoptChildren children).run n).2 fun i hm =>
      Nat.lt_of_lt_of_le (h i (List.mem_append_right _ hm)) (le_adoptChildren children n)
    List.forall_mem_append.mpr ⟨fun i hm =>
      Nat.lt_of_lt_of_le (hchildren i hm) (le_adoptEntries fields _), hfields⟩

theorem below_adoptChildren : (children : Option (List Value)) → (n : Identity) →
    (∀ i ∈ idsChildren children, i < n) →
      ∀ i ∈ idsChildren ((adoptChildren children).run n).1, i < ((adoptChildren children).run n).2
  | none, _, _ => nofun
  | some items, n, h => below_adoptEach items n h

end

end Value

end GatedExpr
