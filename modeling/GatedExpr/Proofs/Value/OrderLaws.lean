import Mathlib
import GatedExpr.Proofs.Number.Exact
import GatedExpr.Value.Arithmetic

/-! # Laws of the order of values

Lists and maps count as their texts. Two texts are ordered by their code points and other values by
the numbers that they stand for, so that all four relations are read off one comparison; it has no
result just if a number is needed and not-a-number is found.
-/

namespace GatedExpr

/-- The code points of a text. Texts are ordered like these lists, lexicographically. -/
def Text.codePoints (s : String) : List Nat :=
  s.toList.map Char.toNat

theorem Text.lt_iff_codePoints {s t : String} : s < t ↔ codePoints s < codePoints t := by
  rw [String.lt_iff_toList_lt, codePoints, codePoints]
  generalize s.toList = cs, t.toList = ds
  induction cs generalizing ds with
  | nil => cases ds <;> simp
  | cons c cs ih =>
    cases ds with
    | nil => simp
    | cons d ds =>
      have hchar : c < d ↔ c.toNat < d.toNat := Iff.rfl
      rw [List.map_cons, List.map_cons, List.cons_lt_cons_iff, List.cons_lt_cons_iff, ih, hchar,
        Char.toNat_inj]

namespace Value

open Text (codePoints)

/-- A value that is a text once lists and maps have become texts. -/
def ReducesTo (v : Value) (s : String) : Prop :=
  v.primitive = .text s

def ReducesToText (v : Value) : Prop :=
  ∃ s, v.ReducesTo s

/-- A value that counts as not-a-number once lists and maps have become texts. -/
def ConvertsToNaN (v : Value) : Prop :=
  v.primitive.toNumber.isNaN = true

/-- Whether two values have an order: both are compared as texts, or both have a number. -/
def Ordered (a b : Value) : Prop :=
  a.ReducesToText ∧ b.ReducesToText ∨ ¬ a.ConvertsToNaN ∧ ¬ b.ConvertsToNaN

variable {a b c : Value}

theorem reducesToText_iff : a.ReducesToText ↔ (a.isText || a.isContainer) = true := by
  cases a with
  | text s => exact iff_of_true ⟨s, rfl⟩ rfl
  | list | map => exact iff_of_true ⟨_, rfl⟩ rfl
  | _ => exact iff_of_false (fun ⟨_, h⟩ => by cases h) Bool.false_ne_true

theorem compare?_texts {s t : String} (ha : a.ReducesTo s) (hb : b.ReducesTo t) :
    a.compare? b = some (cmp (codePoints s) (codePoints t)) := by
  rw [compare?, ha, hb]
  simp only [Text.lt_iff_codePoints, cmp, cmpUsing]

theorem compare?_numbers (h : ¬ (a.ReducesToText ∧ b.ReducesToText)) :
    a.compare? b = a.primitive.toNumber.compare? b.primitive.toNumber := by
  unfold compare?
  split
  · next s t ha hb => exact absurd ⟨⟨s, ha⟩, ⟨t, hb⟩⟩ h
  · rfl

theorem compare?_swap (a b : Value) : b.compare? a = (a.compare? b).map Ordering.swap := by
  by_cases h : a.ReducesToText ∧ b.ReducesToText
  · obtain ⟨⟨s, ha⟩, ⟨t, hb⟩⟩ := h
    rw [compare?_texts ha hb, compare?_texts hb ha, Option.map_some, cmp_swap]
  · rw [compare?_numbers h, compare?_numbers (mt And.symm h), Number.compare?_swap]

/-- Values without an order are the ones that a comparison has no result for. -/
theorem compare?_eq_none : a.compare? b = none ↔ ¬ Ordered a b := by
  by_cases h : a.ReducesToText ∧ b.ReducesToText
  · have hordered : Ordered a b := .inl h
    obtain ⟨⟨s, ha⟩, ⟨t, hb⟩⟩ := h
    simp [compare?_texts ha hb, hordered]
  · rw [compare?_numbers h, Number.compare?_eq_none, Ordered, or_iff_right h, not_and_or, not_not,
      not_not]
    rfl

/-! ## The relations -/

theorem less_eq_greater (a b : Value) : a.less b = b.greater a := by
  rw [less, greater, compare?_swap a b]
  rcases a.compare? b with _ | _ | _ | _ <;> rfl

theorem lessOrEqual_eq_greaterOrEqual (a b : Value) : a.lessOrEqual b = b.greaterOrEqual a := by
  rw [lessOrEqual, greaterOrEqual, compare?_swap a b]
  rcases a.compare? b with _ | _ | _ | _ <;> rfl

/-- Ordered values are less, greater or neither, and not two of these. -/
theorem count_relations (h : Ordered a b) :
    [a.less b, a.greater b, a.lessOrEqual b && a.greaterOrEqual b].count true = 1 ∧
      a.lessOrEqual b = !a.greater b := by
  obtain ⟨order, horder⟩ := Option.ne_none_iff_exists'.mp (mt compare?_eq_none.mp (not_not.mpr h))
  rw [less, greater, lessOrEqual, greaterOrEqual, horder]
  cases order <;> decide

theorem relations_of_not_ordered (h : ¬ Ordered a b) :
    a.less b = false ∧ a.greater b = false ∧ a.lessOrEqual b = false ∧
      a.greaterOrEqual b = false := by
  rw [less, greater, lessOrEqual, greaterOrEqual, compare?_eq_none.mpr h]
  decide

theorem less_texts {s t : String} (ha : a.ReducesTo s) (hb : b.ReducesTo t) :
    a.less b = true ↔ codePoints s < codePoints t := by
  rw [less, compare?_texts ha hb, beq_iff_eq, Option.some_inj, cmp, cmpUsing_eq_lt]

/-- Values that are all texts are ordered as such, and values none of which is one are ordered as
numbers. -/
theorem less_trans (hkinds : a.ReducesToText ∧ b.ReducesToText ∧ c.ReducesToText ∨
    ¬ a.ReducesToText ∧ ¬ b.ReducesToText ∧ ¬ c.ReducesToText) (hab : a.less b = true)
    (hbc : b.less c = true) : a.less c = true := by
  rcases hkinds with ⟨⟨r, ha⟩, ⟨s, hb⟩, ⟨t, hc⟩⟩ | ⟨ha, hb, hc⟩
  · rw [less_texts ha hb] at hab
    rw [less_texts hb hc] at hbc
    rw [less_texts ha hc]
    exact hab.trans hbc
  · rw [less, beq_iff_eq, compare?_numbers fun h => ha h.1] at hab ⊢
    rw [less, beq_iff_eq, compare?_numbers fun h => hb h.1] at hbc
    exact Number.compare?_lt_trans hab hbc

/-- Less and greater, and their weak forms, are each other's converses. Values with an order are
less, greater or both at most and at least the other; without one, all four relations are false.
Among texts less is the lexicographic order of code points, and it is transitive among texts and
among values that are no texts. -/
theorem order_laws (a b c : Value) :
    a.less b = b.greater a ∧ a.lessOrEqual b = b.greaterOrEqual a ∧
    (Ordered a b →
      [a.less b, a.greater b, a.lessOrEqual b && a.greaterOrEqual b].count true = 1 ∧
        a.lessOrEqual b = !a.greater b) ∧
    (¬ Ordered a b → a.less b = false ∧ a.greater b = false ∧ a.lessOrEqual b = false ∧
      a.greaterOrEqual b = false) ∧
    (∀ s t, a.ReducesTo s → b.ReducesTo t → (a.less b = true ↔ codePoints s < codePoints t)) ∧
    (a.ReducesToText ∧ b.ReducesToText ∧ c.ReducesToText ∨
        ¬ a.ReducesToText ∧ ¬ b.ReducesToText ∧ ¬ c.ReducesToText →
      a.less b = true → b.less c = true → a.less c = true) :=
  ⟨less_eq_greater a b, lessOrEqual_eq_greaterOrEqual a b, count_relations,
    relations_of_not_ordered, fun _ _ => less_texts, less_trans⟩

/-- A list, a text and a map are ordered as texts, and null, a double and a truth value as numbers.
A text that stands for no number has no order with null. -/
theorem order_laws_mixed :
    ([(ofList [int 1, int 5]).less (text "1,9"), (ofList [int 1, int 5]).greater (text "1,9"),
        (ofList [int 1, int 5]).lessOrEqual (text "1,9") &&
          (ofList [int 1, int 5]).greaterOrEqual (text "1,9")].count true = 1 ∧
      (ofList [int 1, int 5]).less (ofEntries []) = true) ∧
    null.less (bool true) = true ∧ null.lessOrEqual (text "x") = false := by
  have hlist : (ofList [int 1, int 5]).ReducesTo "1,5" := rfl
  have htext : (text "1,9").ReducesTo "1,9" := rfl
  have hmap : (ofEntries []).ReducesTo "[object Object]" := rfl
  have hnone {v : Value} (h : (v.isText || v.isContainer) = false) : ¬ v.ReducesToText :=
    mt reducesToText_iff.mp (by simp [h])
  obtain ⟨-, -, hordered, -, hless, htrans⟩ :=
    order_laws (ofList [int 1, int 5]) (text "1,9") (ofEntries [])
  obtain ⟨-, -, -, -, hless', -⟩ := order_laws (text "1,9") (ofEntries []) null
  obtain ⟨-, -, -, -, -, htrans'⟩ := order_laws null (float 0.5) (bool true)
  obtain ⟨-, -, -, hunordered, -⟩ := order_laws null (text "x") null
  refine ⟨⟨(hordered (.inl ⟨⟨_, hlist⟩, ⟨_, htext⟩⟩)).1, ?_⟩, ?_, ?_⟩
  · exact htrans (.inl ⟨⟨_, hlist⟩, ⟨_, htext⟩, ⟨_, hmap⟩⟩)
      ((hless _ _ hlist htext).mpr (by decide)) ((hless' _ _ htext hmap).mpr (by decide))
  · exact htrans' (.inr ⟨hnone rfl, hnone rfl, hnone rfl⟩) (by decide +kernel) (by decide +kernel)
  · refine (hunordered ?_).2.2.1
    rintro (⟨hnull, -⟩ | ⟨-, hnumber⟩)
    · exact hnone rfl hnull
    · exact hnumber (show (text "x").toNumber.isNaN = true by decide +kernel)

/-- A text beside a number is compared as a number, and beside a text it is not. -/
example : (text "10").less (text "9") = true ∧ (text "9").less (float 9.5) = true ∧
    (text "10").less (float 9.5) = false := by
  decide +kernel

end Value

end GatedExpr
