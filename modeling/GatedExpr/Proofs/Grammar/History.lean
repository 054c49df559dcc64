import Mathlib.Data.List.Nodup
import Mathlib.Logic.Relation
import GatedExpr.Proofs.Grammar.References

/-! # Histories of grammars

Grammars are made, derived from one another, changed by what is registered and kept in them, and
used for parsing. Whatever the history, grammars stand at their places, rules stand under their
own names, and references were made by grammars that there are.
-/

namespace GatedExpr

/-! ## Tables -/

namespace Table

variable {α : Type} {name : String} {value : α} {entries : List (String × α)}

theorem mem_set {entry : String × α} (h : entry ∈ set name value entries) :
    entry = (name, value) ∨ entry ∈ entries := by
  induction entries with
  | nil => exact .inl (List.mem_singleton.mp h)
  | cons first entries ih =>
    obtain ⟨other, old⟩ := first
    rw [set] at h
    split at h
    · rcases List.mem_cons.mp h with rfl | h
      · exact .inl rfl
      · exact .inr (List.mem_cons_of_mem _ h)
    · rcases List.mem_cons.mp h with rfl | h
      · exact .inr List.mem_cons_self
      · exact (ih h).imp_right (List.mem_cons_of_mem _)

theorem mem_names_set {other : String} (h : other ∈ (set name value entries).map (·.1)) :
    other = name ∨ other ∈ entries.map (·.1) := by
  obtain ⟨entry, he, rfl⟩ := List.mem_map.mp h
  rcases mem_set he with rfl | he
  · exact .inl rfl
  · exact .inr (List.mem_map_of_mem he)

theorem nodup_names_set (h : (entries.map (·.1)).Nodup) :
    ((set name value entries).map (·.1)).Nodup := by
  induction entries with
  | nil => exact List.nodup_singleton name
  | cons first entries ih =>
    obtain ⟨other, old⟩ := first
    obtain ⟨hnot, hrest⟩ := List.nodup_cons.mp h
    rw [set]
    split
    · next he => exact List.nodup_cons.mpr ⟨beq_iff_eq.mp he ▸ hnot, hrest⟩
    · next he =>
      refine List.nodup_cons.mpr ⟨fun hm => ?_, ih hrest⟩
      rcases mem_names_set hm with hname | hm
      · exact he (beq_iff_eq.mpr hname)
      · exact hnot hm

end Table

/-! ## Changes of one grammar -/

namespace Grammar

/-- What can be asked of a grammar that may change it. -/
inductive Edit where
  | register (descriptor : Descriptor)
  | reference (kind : String)
  | literal (text : String)
  | pattern (pattern : Pattern)

namespace Edit

def references : Edit → List (GrammarId × String)
  | .register descriptor => descriptor.references
  | _ => []

end Edit

def edit (grammar : Grammar) : Edit → Grammar
  | .register descriptor => grammar.register descriptor
  | .reference kind => (grammar.reference kind).2
  | .literal text => (grammar.literal text).2
  | .pattern pattern => (grammar.pattern pattern).2

/-- What holds of a grammar whatever happened to it, when there are `count` grammars. -/
structure Sound (count : Nat) (grammar : Grammar) : Prop where
  /-- Rules stand under their own names. -/
  named : ∀ entry ∈ grammar.rules, entry.2.kind = entry.1
  distinct : (grammar.rules.map (·.1)).Nodup
  owned : ∀ entry ∈ grammar.rules, ∀ reference ∈ entry.2.references, reference.1 < count
  kept : ∀ entry ∈ grammar.patterns, ∃ pattern, entry.2 = .pattern pattern

namespace Sound

variable {count more : Nat} {grammar : Grammar}

theorem empty (count : Nat) (id : GrammarId) : Sound count (Grammar.empty id) :=
  ⟨nofun, List.nodup_nil, nofun, nofun⟩

theorem mono (h : grammar.Sound count) (hle : count ≤ more) : grammar.Sound more :=
  { h with owned := fun entry he reference hr =>
      Nat.lt_of_lt_of_le (h.owned entry he reference hr) hle }

/-- Only the rules and the patterns of a grammar matter. -/
theorem of_eq {other : Grammar} (h : grammar.Sound count) (hrules : other.rules = grammar.rules)
    (hpatterns : other.patterns = grammar.patterns) : other.Sound count where
  named := hrules ▸ h.named
  distinct := hrules ▸ h.distinct
  owned := hrules ▸ h.owned
  kept := hpatterns ▸ h.kept

theorem register (h : grammar.Sound count) {descriptor : Descriptor}
    (hr : ∀ reference ∈ descriptor.references, reference.1 < count) :
    (grammar.register descriptor).Sound count where
  named entry he := by
    rcases Table.mem_set he with rfl | he
    · rfl
    · exact h.named entry he
  distinct := Table.nodup_names_set h.distinct
  owned entry he := by
    rcases Table.mem_set he with rfl | he
    · exact hr
    · exact h.owned entry he
  kept := h.kept

theorem keep_pattern {entries : List (String × Matcher)} (pattern : Pattern)
    (h : ∀ entry ∈ entries, ∃ pattern, entry.2 = .pattern pattern) :
    (∃ kept, (keep entries pattern.key (.pattern pattern)).1 = .pattern kept) ∧
      ∀ entry ∈ (keep entries pattern.key (.pattern pattern)).2,
        ∃ kept, entry.2 = .pattern kept := by
  rw [keep]
  split
  · next matcher hl =>
    exact ⟨h (pattern.key, matcher) (Table.mem_of_lookup hl), h⟩
  · refine ⟨⟨pattern, rfl⟩, fun entry he => ?_⟩
    rcases List.mem_append.mp he with he | he
    · exact h entry he
    · rw [List.mem_singleton.mp he]
      exact ⟨pattern, rfl⟩

/-- What is kept under the key of a pattern is a pattern. -/
theorem exists_pattern (h : grammar.Sound count) (pattern : Pattern) :
    ∃ kept, (grammar.pattern pattern).1 = .pattern kept :=
  (keep_pattern pattern h.kept).1

theorem pattern (h : grammar.Sound count) (pattern : Pattern) :
    (grammar.pattern pattern).2.Sound count :=
  { h with kept := (keep_pattern pattern h.kept).2 }

theorem edit (h : grammar.Sound count) {edit : Edit}
    (hr : ∀ reference ∈ edit.references, reference.1 < count) : (grammar.edit edit).Sound count :=
  match edit with
  | .register _ => h.register hr
  | .reference _ | .literal _ => h.of_eq rfl rfl
  | .pattern pattern => h.pattern pattern

end Sound

theorem id_edit (grammar : Grammar) (edit : Edit) : (grammar.edit edit).id = grammar.id := by
  cases edit <;> rfl

/-- A derived grammar begins with the rules and the patterns of its parent. -/
theorem derive_eq (id : GrammarId) (parent : Grammar) :
    (derive id parent).id = id ∧ (derive id parent).rules = parent.rules ∧
      (derive id parent).patterns = parent.patterns := by
  have hfold : ∀ (entries : List (String × Matcher)) (child : Grammar),
      let last := entries.foldl (fun grammar entry => (grammar.reference entry.1).2) child
      last.id = child.id ∧ last.rules = child.rules ∧ last.patterns = child.patterns := by
    intro entries
    induction entries with
    | nil => exact fun _ => ⟨rfl, rfl, rfl⟩
    | cons entry entries ih => exact fun child => ih (child.reference entry.1).2
  exact hfold _ _

end Grammar

/-! ## Families -/

namespace Family

/-- Changes the grammar at a place, if there is one. -/
def edit (family : Family) (id : GrammarId) (edit : Grammar.Edit) : Family :=
  match family.get? id with
  | some grammar => family.set (grammar.edit edit)
  | none => family

/-- Changes the grammar at a place again and again. -/
def editAll (family : Family) (id : GrammarId) (edits : List Grammar.Edit) : Family :=
  edits.foldl (fun family edit => family.edit id edit) family

/-- The family with one more grammar, which is derived from `parent`. -/
def derived (family : Family) (parent : Grammar) : Family :=
  (family.add (Grammar.derive · parent)).2

/-- What can happen to a family. A matcher can only be registered if the grammars that made the
references in it are there. -/
inductive Step (family : Family) : Family → Prop where

  | new : Step family (family.add Grammar.empty).2

  | derive {parent : GrammarId} {grammar : Grammar} :
      family.get? parent = some grammar → Step family (family.derived grammar)

  | edit {id : GrammarId} {edit : Grammar.Edit} :
      (∀ reference ∈ edit.references, reference.1 < family.grammars.length) →
      Step family (family.edit id edit)

  | parse {id : GrammarId} {source : List Char} {kind : String} :
      Step family (family.parseKeeping id source kind).2

/-- What has happened to a family since. -/
def Evolves : Family → Family → Prop :=
  Relation.ReflTransGen Step

/-- The family was made, step by step, from none. -/
def Arises (family : Family) : Prop :=
  Evolves { grammars := [] } family

/-- Grammars stand at the places that their ids say. -/
def Placed (family : Family) : Prop :=
  ∀ ⦃id grammar⦄, family.get? id = some grammar → grammar.id = id

/-- Grammars stand at their places and are sound. -/
def WellFormed (family : Family) : Prop :=
  ∀ ⦃id grammar⦄, family.get? id = some grammar →
    grammar.id = id ∧ grammar.Sound family.grammars.length

variable {family now : Family} {id other : GrammarId} {grammar : Grammar}

theorem lt_of_get? (h : family.get? id = some grammar) : id < family.grammars.length :=
  (List.getElem?_eq_some_iff.mp h).1

theorem get?_add (build : GrammarId → Grammar) (id : GrammarId) :
    (family.add build).2.get? id =
      if id = family.grammars.length then some (build id) else family.get? id := by
  simp only [get?, add]
  rcases Nat.lt_trichotomy id family.grammars.length with hlt | rfl | hgt
  · rw [List.getElem?_append_left hlt, if_neg (Nat.ne_of_lt hlt)]
  · rw [List.getElem?_concat_length, if_pos rfl]
  · rw [List.getElem?_eq_none (by simp; omega), if_neg (Nat.ne_of_gt hgt),
      List.getElem?_eq_none (Nat.le_of_lt hgt)]

theorem get?_set (hid : grammar.id < family.grammars.length) (other : GrammarId) :
    (family.set grammar).get? other =
      if other = grammar.id then some grammar else family.get? other := by
  simp only [get?, set, List.getElem?_set]
  by_cases h : other = grammar.id
  · rw [h, if_pos rfl, if_pos hid, if_pos rfl]
  · rw [if_neg (Ne.symm h), if_neg h]

namespace WellFormed

theorem add (h : family.WellFormed) {build : GrammarId → Grammar}
    (hb : (build family.grammars.length).id = family.grammars.length ∧
      (build family.grammars.length).Sound family.grammars.length) :
    (family.add build).2.WellFormed := by
  have hlength : (family.add build).2.grammars.length = family.grammars.length + 1 := by
    simp [Family.add]
  intro id grammar hg
  rw [get?_add] at hg
  rw [hlength]
  split at hg
  · next he =>
    subst he
    cases hg
    exact ⟨hb.1, hb.2.mono (Nat.le_succ _)⟩
  · obtain ⟨hid, hs⟩ := h hg
    exact ⟨hid, hs.mono (Nat.le_succ _)⟩

theorem set (h : family.WellFormed) (hid : grammar.id < family.grammars.length)
    (hs : grammar.Sound family.grammars.length) : (family.set grammar).WellFormed := by
  have hlength : (family.set grammar).grammars.length = family.grammars.length := by
    simp [Family.set]
  intro other found hg
  rw [get?_set hid] at hg
  rw [hlength]
  split at hg
  · next he =>
    subst he
    cases hg
    exact ⟨rfl, hs⟩
  · exact h hg

theorem edit (h : family.WellFormed) {edit : Grammar.Edit}
    (hr : ∀ reference ∈ edit.references, reference.1 < family.grammars.length) :
    (family.edit id edit).WellFormed := by
  rw [Family.edit]
  split
  · next grammar hg =>
    obtain ⟨hid, hs⟩ := h hg
    refine h.set ?_ (hs.edit hr)
    rw [Grammar.id_edit, hid]
    exact lt_of_get? hg
  · exact h

theorem parse (h : family.WellFormed) (source : List Char) (kind : String) :
    (family.parseKeeping id source kind).2.WellFormed := by
  rw [parseKeeping]
  split
  · exact h
  · next grammar hg =>
    split
    · exact h
    · split
      · exact h
      · exact h
      · exact h
      · obtain ⟨hid, hs⟩ := h hg
        exact h.set (hid ▸ lt_of_get? hg) (hs.pattern .blanks)

theorem step (h : family.WellFormed) (hstep : Step family now) : now.WellFormed := by
  cases hstep with
  | new => exact h.add ⟨rfl, .empty _ _⟩
  | derive hg =>
    obtain ⟨hid, hrules, hpatterns⟩ := Grammar.derive_eq family.grammars.length _
    exact h.add ⟨hid, (h hg).2.of_eq hrules hpatterns⟩
  | edit hr => exact h.edit hr
  | parse => exact h.parse _ _

theorem evolves (h : family.WellFormed) (hnow : family.Evolves now) : now.WellFormed := by
  induction hnow with
  | refl => exact h
  | tail _ hstep ih => exact ih.step hstep

end WellFormed

theorem Arises.wellFormed (h : family.Arises) : family.WellFormed :=
  WellFormed.evolves (fun _ _ hg => by simp [get?] at hg) h

/-! ## What a change leaves alone -/

theorem WellFormed.placed (h : family.WellFormed) : family.Placed :=
  fun _ _ hg => (h hg).1

theorem get?_edit (h : family.Placed) (edit : Grammar.Edit) (other : GrammarId) :
    (family.edit id edit).get? other =
      if other = id then (family.get? id).map (·.edit edit) else family.get? other := by
  rw [Family.edit]
  split
  · next grammar hg =>
    have hid : (grammar.edit edit).id = id := (Grammar.id_edit _ _).trans (h hg)
    rw [get?_set (hid ▸ lt_of_get? hg), hid, hg]
    rfl
  · next hg =>
    split
    · next he => rw [he, hg]; rfl
    · rfl

theorem Placed.edit (h : family.Placed) (edit : Grammar.Edit) : (family.edit id edit).Placed := by
  intro other found hg
  rw [get?_edit h] at hg
  split at hg
  · next he =>
    obtain ⟨grammar, hgrammar, rfl⟩ := Option.map_eq_some_iff.mp hg
    rw [Grammar.id_edit, h hgrammar, he]
  · exact h hg

/-- Changes of one grammar leave all others as they are. -/
theorem get?_editAll_of_ne (h : family.Placed) (edits : List Grammar.Edit) (hne : other ≠ id) :
    (family.editAll id edits).get? other = family.get? other := by
  induction edits generalizing family with
  | nil => rfl
  | cons edit edits ih =>
    exact (ih (h.edit edit)).trans ((get?_edit h edit other).trans (if_neg hne))

/-! ## A family of one grammar -/

/-- A rule for an atom, which is a fixed text. -/
def atom (text : String) : Descriptor :=
  { kind := "Atom", rule := some (.literal text), onMatch := none, fallback := none }

/-- A rule that refers to another one of the first grammar. -/
def synonym (kind target : String) : Descriptor :=
  { kind, rule := some (.reference 0 target), onMatch := none, fallback := none }

/-- A grammar of lists of the atom `a`. -/
def lists : Family :=
  ((({ grammars := [] } : Family).add Grammar.empty).2.edit 0 (.register (atom "a"))).edit 0
    (.register { synonym "List" "Atom" with rule := some (.repetition 1 (.reference 0 "Atom")) })

theorem arises_lists : lists.Arises := by
  have hnew : Arises (({ grammars := [] } : Family).add Grammar.empty).2 := .single .new
  refine (hnew.tail (.edit ?_)).tail (.edit ?_)
  · nofun
  · intro reference hr
    rw [List.mem_singleton.mp hr]
    exact Nat.zero_lt_one

end Family

end GatedExpr
