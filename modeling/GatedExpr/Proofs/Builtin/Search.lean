import Mathlib
import GatedExpr.Builtin.Sequence
import GatedExpr.Value.Arithmetic

/-! # Searching a list

Items are found by type and content, while strict equality compares numbers across their kinds
and everything that holds other values by identity. The two agree on all other values, and a
search agrees with strict equality unless it comes upon an item that they judge differently.
-/

namespace GatedExpr

namespace Value

/-- A value that holds others, or has been made of others. -/
def isCompound : Value → Bool
  | .list .. | .tuple .. | .map .. | .method .. | .node .. | .span .. => true
  | _ => false

/-- Whether a search takes a value for an item. -/
def isTakenFor (v item : Value) : Bool :=
  v.hasContentOf item && v.isSameType item

/-- Values that a search and strict equality judge differently. -/
inductive JudgedApart : Value → Value → Prop
  /-- An integer and a double of one size are strictly equal, and not of one type. -/
  | kinds {i j : Identity} {m n : Number} (h : m.equals n = true) (hkind : m.isInt ≠ n.isInt) :
      JudgedApart (.number i m) (.number j n)
  /-- A value of the type and content of another need not be the same object. -/
  | lookalike {v w : Value} (hv : v.isCompound = true) (h : v.isTakenFor w = true)
      (hsame : v.isSame w = false) : JudgedApart v w
  /-- One identity for two contents, which only values that were made by hand have. -/
  | changed {v w : Value} (hv : v.isCompound = true) (hsame : v.isSame w = true)
      (h : v.isTakenFor w = false) : JudgedApart v w

theorem not_isTakenFor {v item : Value} (h : v.typeName ≠ item.typeName) :
    v.isTakenFor item = false := by
  rw [isTakenFor, isSameType, beq_eq_false_iff_ne.mpr h, Bool.and_false]

theorem isTakenFor_bool (a b : Bool) : (bool a).isTakenFor (bool b) = (a == b) := by
  have hsize : (bool a).hasContentOf (bool b) = (a == b) := by
    rw [hasContentOf]
    cases a <;> cases b <;> rfl
  rw [isTakenFor, hsize, isSameType]
  exact Bool.and_true _

theorem isTakenFor_number (i j : Identity) (m n : Number) :
    (number i m).isTakenFor (number j n) = (m.equals n && m.isInt == n.isInt) := by
  have htype : (number i m).isSameType (number j n) = (m.isInt == n.isInt) := by
    cases m <;> cases n <;> rfl
  rw [isTakenFor, htype, hasContentOf]
  rfl

/-- Truth values, texts, null and opaque objects are taken for what they are the same as. -/
theorem isTakenFor_simple {v : Value} (hv : v.isCompound = false) (hnumber : ∀ i m, v ≠ number i m)
    (item : Value) : v.isTakenFor item = v.isSame item := by
  cases v with
  | list | tuple | map | method | node | span => cases hv
  | number i m => exact absurd rfl (hnumber i m)
  | bool a =>
    cases item with
    | bool b => exact isTakenFor_bool a b
    | number j n => cases n <;> exact not_isTakenFor (by simp [typeName])
    | _ => exact not_isTakenFor (by simp [typeName])
  | _ =>
    cases item with
    | number j n => cases n <;> exact not_isTakenFor (by simp [typeName])
    | _ => simp [isTakenFor, isSameType, typeName, isSame, hasContentOf]

theorem strictEquals_of_ne_number {v : Value} (hv : ∀ i m, v ≠ number i m) (item : Value) :
    v.strictEquals item = v.isSame item := by
  cases v with
  | number i m => exact absurd rfl (hv i m)
  | _ => rfl

/-- A number is judged differently only against a number. -/
theorem judgedApart_number (i : Identity) (m : Number) (item : Value) :
    JudgedApart (number i m) item ↔
      (number i m).isTakenFor item ≠ (number i m).strictEquals item := by
  by_cases hitem : ∃ j n, item = number j n
  · obtain ⟨j, n, rfl⟩ := hitem
    rw [isTakenFor_number, strictEquals]
    constructor
    · rintro (⟨h, hkind⟩ | hv | hv)
      · simp [h, hkind]
      · cases hv
      · cases hv
    · intro h
      cases hsize : m.equals n with
      | false => simp [hsize] at h
      | true => exact .kinds hsize (by simpa [hsize] using h)
  · have htaken : (number i m).isTakenFor item = false := by
      cases item with
      | number j n => exact absurd ⟨j, n, rfl⟩ hitem
      | _ => cases m <;> exact not_isTakenFor (by simp [typeName])
    have hequal : (number i m).strictEquals item = false := by
      cases item with
      | number j n => exact absurd ⟨j, n, rfl⟩ hitem
      | _ => rfl
    rw [htaken, hequal]
    refine iff_of_false ?_ fun h => h rfl
    rintro (⟨h, hkind⟩ | hv | hv)
    · exact hitem ⟨_, _, rfl⟩
    · cases hv
    · cases hv

/-- What a search and strict equality judge differently, and nothing else. -/
theorem judgedApart_iff (v item : Value) :
    JudgedApart v item ↔ v.isTakenFor item ≠ v.strictEquals item := by
  by_cases hnumber : ∃ i m, v = number i m
  · obtain ⟨i, m, rfl⟩ := hnumber
    exact judgedApart_number i m item
  · have hne : ∀ i m, v ≠ number i m := fun i m h => hnumber ⟨i, m, h⟩
    rw [strictEquals_of_ne_number hne]
    constructor
    · rintro (_ | ⟨-, h, hsame⟩ | ⟨-, hsame, h⟩)
      · exact absurd rfl (hne _ _)
      · simp [h, hsame]
      · simp [h, hsame]
    · intro h
      cases hv : v.isCompound with
      | false => exact absurd (isTakenFor_simple hv hne item) h
      | true =>
        cases hsame : v.isSame item with
        | false => exact .lookalike hv (by simpa [hsame] using h) hsame
        | true => exact .changed hv hsame (by simpa [hsame] using h)

end Value

/-! ## The place of an item -/

namespace Builtin

/-- The place of the first item that is strictly equal to another, or minus one. -/
inductive IsFirstEqual (items : List Value) (item : Value) : Int → Prop
  | found {i : Nat} {v : Value} (hi : items[i]? = some v) (hv : v.strictEquals item = true)
      (hfirst : ∀ (j : Nat) (w : Value), j < i → items[j]? = some w → w.strictEquals item = false) :
      IsFirstEqual items item i
  | missing (h : ∀ v ∈ items, v.strictEquals item = false) : IsFirstEqual items item (-1)

/-- Whether every item that is judged apart from `item` comes after one that is found. -/
def FindsFirst (items : List Value) (item : Value) : Prop :=
  ∀ (i : Nat) (v : Value), items[i]? = some v → v.JudgedApart item →
    ∃ (j : Nat) (w : Value), j < i ∧ items[j]? = some w ∧ w.strictEquals item = true ∧
      ¬ w.JudgedApart item

variable {items : List Value} {item v : Value}

theorem indexIn_cons :
    indexIn (v :: items) item =
      if v.isTakenFor item then some 0 else (indexIn items item).map (· + 1) := by
  rw [indexIn, List.findIdx?_cons]
  rfl

theorem findsFirst_cons :
    FindsFirst (v :: items) item ↔
      ¬ v.JudgedApart item ∧ (v.strictEquals item = true ∨ FindsFirst items item) := by
  constructor
  · intro h
    have hv : ¬ v.JudgedApart item := by
      intro hv
      obtain ⟨j, w, hj, -⟩ := h 0 v rfl hv
      omega
    refine ⟨hv, or_iff_not_imp_left.mpr fun hne i w hi hw => ?_⟩
    obtain ⟨j, u, hj, hu, heq, hapart⟩ := h (i + 1) w hi hw
    cases j with
    | zero =>
      cases hu
      exact absurd heq hne
    | succ j => exact ⟨j, u, by omega, hu, heq, hapart⟩
  · rintro ⟨hv, h⟩ i w hi hw
    cases i with
    | zero =>
      cases hi
      exact absurd hw hv
    | succ i =>
      rcases h with heq | h
      · exact ⟨0, v, by omega, rfl, heq, hv⟩
      · obtain ⟨j, u, hj, hu, heq, hapart⟩ := h i w hi hw
        exact ⟨j + 1, u, by omega, hu, heq, hapart⟩

/-- The place that is found is that of the first strictly equal item just if no item that is
judged apart comes first. -/
theorem indexIn_eq_iff :
    indexIn items item = items.findIdx? (·.strictEquals item) ↔ FindsFirst items item := by
  induction items with
  | nil => exact iff_of_true rfl nofun
  | cons v items ih =>
    rw [indexIn_cons, List.findIdx?_cons, findsFirst_cons, Value.judgedApart_iff, ← ih]
    cases v.isTakenFor item <;> cases v.strictEquals item <;>
      simp [(Option.map_injective (add_left_injective 1)).eq_iff]

/-- A place as the language gives it. -/
def placeOf : Option Nat → Int
  | some i => i
  | none => -1

theorem placeOf_injective : Function.Injective placeOf := by
  rintro (_ | i) (_ | j) h
  · rfl
  · simp only [placeOf] at h
    omega
  · simp only [placeOf] at h
    omega
  · simp only [placeOf] at h
    exact congrArg some (by omega)

theorem indexOf_list (id : Identity) (items : List Value) (item : Value) :
    indexOf (.list id items) item = placeOf (indexIn items item) := rfl

theorem isFirstEqual_iff {i : Int} :
    IsFirstEqual items item i ↔ i = placeOf (items.findIdx? (·.strictEquals item)) := by
  constructor
  · rintro (⟨hi, hv, hfirst⟩ | h)
    · obtain ⟨hlt, rfl⟩ := List.getElem?_eq_some_iff.mp hi
      rw [List.findIdx?_eq_some_iff_getElem.mpr ⟨hlt, hv, fun j hj => ?_⟩]
      · rfl
      · simp [hfirst j _ hj (List.getElem?_eq_getElem (by omega))]
    · rw [List.findIdx?_eq_none_iff.mpr h]
      rfl
  · rintro rfl
    cases h : items.findIdx? (·.strictEquals item) with
    | none => exact .missing (List.findIdx?_eq_none_iff.mp h)
    | some i =>
      obtain ⟨hlt, hv, hfirst⟩ := List.findIdx?_eq_some_iff_getElem.mp h
      refine .found (List.getElem?_eq_getElem hlt) hv fun j w hj hw => ?_
      obtain ⟨_, rfl⟩ := List.getElem?_eq_some_iff.mp hw
      exact Bool.eq_false_iff.mpr (hfirst j hj)

/-- Searching a list agrees with strict equality unless it comes upon an item that the two judge
differently. -/
theorem search_agrees_iff (id : Identity) (items : List Value) (item : Value) :
    (IsFirstEqual items item (indexOf (.list id items) item) ∧
      (includes (.list id items) item = true ↔ ∃ v ∈ items, v.strictEquals item = true)) ↔
      FindsFirst items item := by
  rw [isFirstEqual_iff, indexOf_list, placeOf_injective.eq_iff, indexIn_eq_iff,
    and_iff_left_iff_imp]
  intro h
  have hincludes : includes (.list id items) item = (indexIn items item).isSome := rfl
  rw [hincludes, indexIn_eq_iff.mpr h, List.findIdx?_isSome, List.any_eq_true]

example : ¬ FindsFirst [.int 2] (.float (Float.ofBits 0x4000000000000000)) := by
  rw [findsFirst_cons, not_and]
  exact fun h => absurd (.kinds (by decide +kernel) (by decide)) h

end Builtin

end GatedExpr
