/-! # Tables

Named entries in the order in which their names were first set.
-/

namespace GatedExpr.Table

/-- Sets an entry, keeping the place of one that is there already. -/
def set {α : Type} (name : String) (value : α) : List (String × α) → List (String × α)
  | [] => [(name, value)]
  | (other, old) :: entries =>
    if other == name then (name, value) :: entries else (other, old) :: set name value entries

/-- The entries of both tables; the second one wins where both have a name. -/
def merge {α : Type} (left right : List (String × α)) : List (String × α) :=
  right.foldl (fun entries entry => set entry.1 entry.2 entries) left

theorem mem_of_lookup {α : Type} {name : String} {value : α} {entries : List (String × α)}
    (h : entries.lookup name = some value) : (name, value) ∈ entries := by
  obtain ⟨before, after, rfl, _⟩ := List.lookup_eq_some_iff.mp h
  exact List.mem_append_right before List.mem_cons_self

theorem lookup_set {α : Type} (name other : String) (value : α) (entries : List (String × α)) :
    (set name value entries).lookup other
      = if other = name then some value else entries.lookup other := by
  induction entries with
  | nil =>
    by_cases h : other = name
    · simp [set, h]
    · simp [set, List.lookup_cons, h, beq_false_of_ne h]
  | cons entry entries ih =>
    obtain ⟨first, old⟩ := entry
    by_cases hf : first = name
    · subst hf
      by_cases h : other = first
      · simp [set, h]
      · simp [set, List.lookup_cons, h, beq_false_of_ne h]
    · by_cases h : other = first
      · subst h
        simp [set, hf]
      · simp [set, hf, List.lookup_cons, beq_false_of_ne h, ih]

end GatedExpr.Table
