import Mathlib.Data.List.Dedup
import Mathlib.Data.List.DropRight
import GatedExpr.Runner.Cache
import GatedExpr.Table

/-! # Caches keep what was used last

A cache from which a name is taken if it is there, and in which it is stored otherwise, holds the
names that were used last, as many as it has room for.
-/

namespace GatedExpr.Cache

/-- The names that were used last, each of them once and the least recently used one first, as
many as there is room for. -/
def recent (capacity : Nat) (uses : List String) : List String :=
  uses.dedup.rtake capacity

/-- Takes an entry from the cache if it is there, and stores it otherwise. -/
def use {α : Type} (cache : Cache α) (capacity : Int) (name : String) (value : α) : Cache α :=
  match cache.find? name with
  | some _ => cache.touch name
  | none => cache.store capacity name value

/-! ## The names used last -/

variable {uses : List String} {name : String} {n : Nat}

theorem dedup_concat (uses : List String) (name : String) :
    (uses ++ [name]).dedup = uses.dedup.filter (· != name) ++ [name] := by
  induction uses with
  | nil => rfl
  | cons first rest ih =>
    rw [List.cons_append]
    by_cases hmem : first ∈ rest
    · rw [List.dedup_cons_of_mem hmem, List.dedup_cons_of_mem (List.mem_append_left _ hmem), ih]
    · rw [List.dedup_cons_of_notMem hmem]
      by_cases hname : first = name
      · subst hname
        rw [List.dedup_cons_of_mem (by simp), ih, List.filter_cons_of_neg (by simp)]
      · rw [List.dedup_cons_of_notMem (by simp [hmem, hname]), ih,
          List.filter_cons_of_pos (by simpa using hname), List.cons_append]

/-- Either nothing was dropped, or there is no room left. -/
theorem exists_dropped (n : Nat) (uses : List String) :
    ∃ dropped, uses.dedup = dropped ++ recent n uses ∧
      (recent n uses).length ≤ n ∧ (dropped = [] ∨ (recent n uses).length = n) := by
  refine ⟨uses.dedup.take (uses.dedup.length - n), (List.take_append_drop _ _).symm, ?_, ?_⟩
  · simp only [recent, List.rtake, List.length_drop]
    omega
  · rw [List.take_eq_nil_iff]
    simp only [recent, List.rtake, List.length_drop]
    omega

theorem rtake_of_length_le {kept : List String} (h : kept.length ≤ n) : kept.rtake n = kept := by
  unfold List.rtake
  rw [Nat.sub_eq_zero_of_le h, List.drop_zero]

/-- What comes first does not count if there is nothing of it, or no room. -/
theorem rtake_append {dropped kept : List String} (h : dropped = [] ∨ n ≤ kept.length) :
    (dropped ++ kept).rtake n = kept.rtake n := by
  rcases h with rfl | h
  · rfl
  · unfold List.rtake
    rw [List.length_append, Nat.add_sub_assoc h, List.drop_length_add_append]

/-- A name that is kept already becomes the most recent one. -/
theorem recent_concat_of_mem (h : name ∈ recent n uses) :
    recent n (uses ++ [name]) = (recent n uses).filter (· != name) ++ [name] := by
  obtain ⟨dropped, hd, hle, hfull⟩ := exists_dropped n uses
  have hnodup : (dropped ++ recent n uses).Nodup := hd ▸ List.nodup_dedup uses
  obtain ⟨-, hkept, hdisjoint⟩ := List.nodup_append.mp hnodup
  have hdropped : dropped.filter (· != name) = dropped :=
    List.filter_eq_self.mpr fun other hm => bne_iff_ne.mpr (hdisjoint other hm name h)
  have hlength :
      ((recent n uses).filter (· != name) ++ [name]).length = (recent n uses).length := by
    rw [← hkept.erase_eq_filter, List.length_append, List.length_erase_of_mem h,
      List.length_singleton, Nat.sub_add_cancel (List.length_pos_of_mem h)]
  rw [recent, dedup_concat, hd, List.filter_append, hdropped, List.append_assoc]
  rw [rtake_append (hfull.imp_right fun he => (hlength.trans he).ge),
    rtake_of_length_le (hlength.trans_le hle)]

/-- A new name comes last, and the first one makes room for it. -/
theorem recent_concat_of_not_mem (h : name ∉ recent n uses) :
    recent n (uses ++ [name]) = (recent n uses ++ [name]).rtake n := by
  obtain ⟨dropped, hd, hle, hfull⟩ := exists_dropped n uses
  have hkept : (recent n uses).filter (· != name) = recent n uses :=
    List.filter_eq_self.mpr fun other hm => bne_iff_ne.mpr fun he => h (he ▸ hm)
  conv_lhs => rw [recent, dedup_concat, hd, List.filter_append, hkept, List.append_assoc]
  refine rtake_append ?_
  rcases hfull with rfl | hfull
  · exact .inl rfl
  · refine .inr ?_
    rw [List.length_append, hfull]
    exact Nat.le_succ n

/-! ## Entries -/

variable {α : Type} {cache : Cache α} {capacity : Int} {value : α}

theorem find?_eq_none : cache.find? name = none ↔ name ∉ cache.names := by
  simp only [find?, names, List.lookup_eq_none_iff, List.mem_map, bne_iff_ne, ne_eq]
  constructor
  · rintro h ⟨entry, hm, rfl⟩
    exact h entry hm rfl
  · rintro h entry hm rfl
    exact h ⟨entry, hm, rfl⟩

theorem names_without : (cache.without name).map (·.1) = cache.names.filter (· != name) := by
  simp only [without, names, List.filter_map]
  rfl

theorem names_touch (h : name ∈ cache.names) :
    (cache.touch name).names = cache.names.filter (· != name) ++ [name] := by
  unfold touch
  split
  · simp only [names, List.map_append, names_without]
    rfl
  · next hnone => exact absurd h (find?_eq_none.mp hnone)

theorem names_trim (n : Nat) : (cache.trim n).names = cache.names.rtake n := by
  simp only [names, trim, List.rtake, List.map_drop, List.length_map]

theorem names_store (hpos : 0 < capacity) (h : name ∉ cache.names) :
    (cache.store capacity name value).names = (cache.names ++ [name]).rtake capacity.toNat := by
  have hsame : cache.names.filter (· != name) = cache.names :=
    List.filter_eq_self.mpr fun other hm => bne_iff_ne.mpr fun he => h (he ▸ hm)
  rw [store, if_neg (by omega), names_trim]
  conv_lhs => rw [names, List.map_append, names_without, hsame]
  rfl

/-- The cache keeps the names used last: a use makes its name the most recent one. -/
theorem names_use (h : cache.names = recent capacity.toNat uses) (name : String) (value : α) :
    (cache.use capacity name value).names = recent capacity.toNat (uses ++ [name]) := by
  unfold use
  by_cases hmem : name ∈ cache.names
  · rw [recent_concat_of_mem (h ▸ hmem), ← h, ← names_touch hmem]
    split
    · rfl
    · next hnone => exact absurd hmem (find?_eq_none.mp hnone)
  · rw [recent_concat_of_not_mem (h ▸ hmem), ← h, find?_eq_none.mpr hmem]
    by_cases hpos : 0 < capacity
    · exact names_store hpos hmem
    · have hzero : capacity.toNat = 0 := by omega
      rw [hzero, List.rtake_zero, store, if_pos (by omega), h, hzero]
      exact List.rtake_zero _

theorem mem_entries_of_find? (h : cache.find? name = some value) : (name, value) ∈ cache.entries :=
  Table.mem_of_lookup h

theorem mem_touch {entry : String × α} (h : entry ∈ (cache.touch name).entries) :
    entry ∈ cache.entries := by
  unfold touch at h
  split at h
  · next held hheld =>
    rcases List.mem_append.mp h with hm | hm
    · exact List.mem_of_mem_filter hm
    · exact List.mem_singleton.mp hm ▸ mem_entries_of_find? hheld
  · exact h

theorem mem_store {entry : String × α} (h : entry ∈ (cache.store capacity name value).entries) :
    entry ∈ cache.entries ∨ entry = (name, value) := by
  unfold store at h
  split at h
  · exact .inl h
  · rcases List.mem_append.mp (List.mem_of_mem_drop h) with hm | hm
    · exact .inl (List.mem_of_mem_filter hm)
    · exact .inr (List.mem_singleton.mp hm)

/-- A use adds nothing but its own entry. -/
theorem mem_use {entry : String × α} (h : entry ∈ (cache.use capacity name value).entries) :
    entry ∈ cache.entries ∨ entry = (name, value) := by
  unfold use at h
  split at h
  · exact .inl (mem_touch h)
  · exact mem_store h

end GatedExpr.Cache
