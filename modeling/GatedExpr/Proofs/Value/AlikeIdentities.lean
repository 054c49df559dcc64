import GatedExpr.Proofs.Value.AlikeMembers
import GatedExpr.Value.Printer

/-! # Identities of alike values

Alike values print alike. If nothing is left out, every identity in one of them corresponds to one
in the other, and values stay alike when correspondences change elsewhere. A value is alike itself
up to a bound exactly if all its identities are below.
-/

namespace GatedExpr

namespace Correspondence

variable {c c' : Correspondence}

/-! ## Printing -/

mutual

theorem Alike.print {v w : Value} : c.Alike v w → v.print = w.print
  | .null | .bool | .text | .number _ | .absent => rfl
  | .list _ h => by rw [Value.print, Value.print, h.printEach]
  | .tuple _ h => by rw [Value.print, Value.print, h.printEach]
  | .map _ h => by rw [Value.print, Value.print, h.printEntries]
  | .object hi h => (Alike.object hi h).display
  | .function hi => (Alike.function hi).display
  | .method hi h => (Alike.method hi h).display
  | .node hi h => (Alike.node hi h).display
  | .span hi => (Alike.span hi).display

theorem AlikeEach.printEach {items others : List Value} :
    c.AlikeEach items others → Value.printEach items = Value.printEach others
  | .nil => rfl
  | .cons h hs => by rw [Value.printEach, Value.printEach, h.print, hs.printEach]

theorem AlikeEntries.printEntries {entries others : List (String × Value)} :
    c.AlikeEntries nothing entries others →
      Value.printEntries entries = Value.printEntries others
  | .nil => rfl
  | .cons h hs => by rw [Value.printEntries, Value.printEntries, h.print, hs.printEntries]
  | .leftOut hout _ => hout.elim

end

/-! ## Changing the correspondence -/

mutual

/-- Values stay alike if their identities still correspond. -/
theorem Alike.transfer (hnone : ∀ name, ¬ c.hidden name) {v w : Value} : c.Alike v w →
    (∀ {i j}, c.same i j → i ∈ v.ids → j ∈ w.ids → c'.same i j) → c'.Alike v w
  | .null, _ => .null
  | .bool, _ => .bool
  | .text, _ => .text
  | .absent, _ => .absent
  | .number hi, hs => .number (hs hi List.mem_cons_self List.mem_cons_self)
  | .function hi, hs => .function (hs hi List.mem_cons_self List.mem_cons_self)
  | .span hi, hs => .span (hs hi List.mem_cons_self List.mem_cons_self)
  | .list hi h, hs =>
    .list (hs hi List.mem_cons_self List.mem_cons_self)
      (h.transfer hnone fun hij hm hm' => hs hij (.tail _ hm) (.tail _ hm'))
  | .tuple hi h, hs =>
    .tuple (hs hi List.mem_cons_self List.mem_cons_self)
      (h.transfer hnone fun hij hm hm' => hs hij (.tail _ hm) (.tail _ hm'))
  | .map hi h, hs =>
    .map (hs hi List.mem_cons_self List.mem_cons_self)
      (h.transfer hnone (fun _ hout => hout) fun hij hm hm' => hs hij (.tail _ hm) (.tail _ hm'))
  | .object hi h, hs =>
    .object (hs hi List.mem_cons_self List.mem_cons_self)
      (h.transfer hnone (fun name hout => hnone name hout.2) fun hij hm hm' =>
        hs hij (.tail _ hm) (.tail _ hm'))
  | .method hi h, hs =>
    .method (hs hi List.mem_cons_self List.mem_cons_self)
      (h.transfer hnone fun hij hm hm' => hs hij (.tail _ hm) (.tail _ hm'))
  | .node hi h, hs =>
    .node (hs hi List.mem_cons_self List.mem_cons_self)
      (h.transfer hnone fun hij hm hm' => hs hij (.tail _ hm) (.tail _ hm'))

theorem AlikeEach.transfer (hnone : ∀ name, ¬ c.hidden name) {items others : List Value} :
    c.AlikeEach items others →
    (∀ {i j}, c.same i j → i ∈ Value.idsEach items → j ∈ Value.idsEach others → c'.same i j) →
      c'.AlikeEach items others
  | .nil, _ => .nil
  | .cons h hrest, hs =>
    .cons (h.transfer hnone fun hij hm hm' =>
        hs hij (List.mem_append_left _ hm) (List.mem_append_left _ hm'))
      (hrest.transfer hnone fun hij hm hm' =>
        hs hij (List.mem_append_right _ hm) (List.mem_append_right _ hm'))

theorem AlikeEntries.transfer (hnone : ∀ name, ¬ c.hidden name) {out out' : String → Prop}
    {entries others : List (String × Value)} :
    c.AlikeEntries out entries others → (∀ name, ¬ out name) →
    (∀ {i j}, c.same i j → i ∈ Value.idsEntries entries → j ∈ Value.idsEntries others →
      c'.same i j) → c'.AlikeEntries out' entries others
  | .nil, _, _ => .nil
  | .cons h hrest, hout, hs =>
    .cons (h.transfer hnone fun hij hm hm' =>
        hs hij (List.mem_append_left _ hm) (List.mem_append_left _ hm'))
      (hrest.transfer hnone hout fun hij hm hm' =>
        hs hij (List.mem_append_right _ hm) (List.mem_append_right _ hm'))
  | .leftOut h _, hout, _ => absurd h (hout _)

theorem AlikeNodes.transfer (hnone : ∀ name, ¬ c.hidden name) {tree other : Node} :
    c.AlikeNodes tree other →
    (∀ {i j}, c.same i j → i ∈ Value.idsNode tree → j ∈ Value.idsNode other → c'.same i j) →
      c'.AlikeNodes tree other
  | .mk h h', hs =>
    .mk (h.transfer hnone fun hij hm hm' =>
        hs hij (List.mem_append_left _ hm) (List.mem_append_left _ hm'))
      (h'.transfer hnone (fun _ hout => hout) fun hij hm hm' =>
        hs hij (List.mem_append_right _ hm) (List.mem_append_right _ hm'))

theorem AlikeChildren.transfer (hnone : ∀ name, ¬ c.hidden name)
    {items others : Option (List Value)} : c.AlikeChildren items others →
    (∀ {i j}, c.same i j → i ∈ Value.idsChildren items → j ∈ Value.idsChildren others →
      c'.same i j) → c'.AlikeChildren items others
  | .none, _ => .none
  | .some h, hs => .some (h.transfer hnone hs)

end

/-! ## Identities that correspond -/

mutual

/-- Whatever identity is in a value has one that it corresponds to. -/
theorem Alike.exists_same (hnone : ∀ name, ¬ c.hidden name) {v w : Value} :
    c.Alike v w → ∀ i ∈ v.ids, ∃ j, c.same i j
  | .null | .bool | .text | .absent => nofun
  | .number hi | .function hi | .span hi => List.forall_mem_singleton.mpr ⟨_, hi⟩
  | .list hi h | .tuple hi h => List.forall_mem_cons.mpr ⟨⟨_, hi⟩, h.exists_same hnone⟩
  | .map hi h => List.forall_mem_cons.mpr ⟨⟨_, hi⟩, h.exists_same hnone fun _ hout => hout⟩
  | .object hi h =>
    List.forall_mem_cons.mpr ⟨⟨_, hi⟩, h.exists_same hnone fun name hout => hnone name hout.2⟩
  | .method hi h => List.forall_mem_cons.mpr ⟨⟨_, hi⟩, h.exists_same hnone⟩
  | .node hi h => List.forall_mem_cons.mpr ⟨⟨_, hi⟩, h.exists_same hnone⟩

theorem AlikeEach.exists_same (hnone : ∀ name, ¬ c.hidden name) {items others : List Value} :
    c.AlikeEach items others → ∀ i ∈ Value.idsEach items, ∃ j, c.same i j
  | .nil => nofun
  | .cons h hrest => List.forall_mem_append.mpr ⟨h.exists_same hnone, hrest.exists_same hnone⟩

theorem AlikeEntries.exists_same (hnone : ∀ name, ¬ c.hidden name) {out : String → Prop}
    {entries others : List (String × Value)} :
    c.AlikeEntries out entries others → (∀ name, ¬ out name) →
      ∀ i ∈ Value.idsEntries entries, ∃ j, c.same i j
  | .nil, _ => nofun
  | .cons h hrest, hout =>
    List.forall_mem_append.mpr ⟨h.exists_same hnone, hrest.exists_same hnone hout⟩
  | .leftOut h _, hout => absurd h (hout _)

theorem AlikeNodes.exists_same (hnone : ∀ name, ¬ c.hidden name) {tree other : Node} :
    c.AlikeNodes tree other → ∀ i ∈ Value.idsNode tree, ∃ j, c.same i j
  | .mk h h' =>
    List.forall_mem_append.mpr ⟨h.exists_same hnone, h'.exists_same hnone fun _ hout => hout⟩

theorem AlikeChildren.exists_same (hnone : ∀ name, ¬ c.hidden name)
    {items others : Option (List Value)} :
    c.AlikeChildren items others → ∀ i ∈ Value.idsChildren items, ∃ j, c.same i j
  | .none => nofun
  | .some h => h.exists_same hnone

end

/-! ## Bounds -/

/-- Every identity below a bound stands for itself, and no other stands for anything. -/
def below (n : Identity) (hn : World.firstFreeId ≤ n) : Correspondence where
  same i j := i = j ∧ i < n
  unique := by
    rintro i j _ _ ⟨rfl, _⟩ ⟨rfl, _⟩
    rfl
  builtIn h := ⟨rfl, Nat.lt_of_lt_of_le h hn⟩
  hidden := nothing
  hidden_private := nothing_private
  seeds _ _ := True
  calls := []
  otherCalls := []

variable {n : Identity} {hn : World.firstFreeId ≤ n}

theorem alike_below_iff {v : Value} : (below n hn).Alike v v ↔ ∀ i ∈ v.ids, i < n := by
  constructor
  · intro h i hm
    obtain ⟨_, _, hlt⟩ := h.exists_same (fun _ hout => hout) i hm
    exact hlt
  · exact fun h => alike_self v fun i hm => ⟨rfl, h i hm⟩

end Correspondence

end GatedExpr
