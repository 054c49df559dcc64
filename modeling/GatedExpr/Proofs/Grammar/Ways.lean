import GatedExpr.Grammar.Pattern

/-! # Ways to match

A way to match reads a start of its text and leaves exactly what follows. So no pattern ever
reaches beyond the end of its text.
-/

namespace GatedExpr.Regex

/-- The way reads a start of `text` and leaves the rest of it. -/
structure Way.Reads (way : Way) (text : List Char) : Prop where
  length_le : way.length ≤ text.length
  rest_eq : way.rest = text.drop way.length

namespace Way.Reads

theorem nothing (text : List Char) : Way.Reads ⟨0, text⟩ text :=
  ⟨Nat.zero_le _, rfl⟩

theorem append {way next : Way} {text : List Char} (h : way.Reads text)
    (hn : next.Reads way.rest) : Way.Reads ⟨way.length + next.length, next.rest⟩ text := by
  have hle := hn.length_le
  rw [h.rest_eq, List.length_drop] at hle
  constructor
  · have := h.length_le
    simp only
    omega
  · simp only
    rw [hn.rest_eq, h.rest_eq, List.drop_drop]

end Way.Reads

theorem reads_of_mem_repeatWays {step : List Char → List Way} {text : List Char}
    (hstep : ∀ t, ∀ way ∈ step t, way.Reads t) (rounds : List Char) :
    ∀ {way : Way} {others : List Way}, way.Reads text → (∀ w ∈ others, w.Reads text) →
      ∀ w ∈ repeatWays step rounds way others, w.Reads text := by
  induction rounds with
  | nil =>
    intro way others hway hothers w hw
    rcases List.mem_cons.mp hw with rfl | hw
    · exact hway
    · exact hothers w hw
  | cons c rounds ih =>
    intro way others hway hothers
    rw [repeatWays]
    have hall := hstep way.rest
    generalize step way.rest = nexts at hall
    induction nexts with
    | nil =>
      intro w hw
      rcases List.mem_cons.mp hw with rfl | hw
      · exact hway
      · exact hothers w hw
    | cons next nexts ihn =>
      have hrest := ihn fun w hw => hall w (List.mem_cons_of_mem _ hw)
      rw [List.foldr_cons]
      split
      · exact hrest
      · exact ih (hway.append (hall next List.mem_cons_self)) hrest

/-- Every way reads a start of the text. -/
theorem reads_of_mem_ways (ignoreCase : Bool) (regex : Regex) :
    ∀ text, ∀ way ∈ regex.ways ignoreCase text, way.Reads text := by
  induction regex with
  | empty =>
    intro text way hway
    rw [ways, List.mem_singleton] at hway
    exact hway ▸ .nothing text
  | oneOf negated classes =>
    intro text way hway
    cases text with
    | nil => simp [ways] at hway
    | cons c rest =>
      simp only [ways] at hway
      split at hway
      · rw [List.mem_singleton] at hway
        subst hway
        exact ⟨by simp, rfl⟩
      · simp at hway
  | seq first second ihf ihs =>
    intro text way hway
    rw [ways, List.mem_flatMap] at hway
    obtain ⟨w, hw, hway⟩ := hway
    obtain ⟨next, hnext, rfl⟩ := List.mem_map.mp hway
    exact (ihf text w hw).append (ihs w.rest next hnext)
  | alt first second ihf ihs =>
    intro text way hway
    rw [ways, List.mem_append] at hway
    rcases hway with hway | hway
    · exact ihf text way hway
    · exact ihs text way hway
  | star body ih =>
    intro text way hway
    rw [ways] at hway
    exact reads_of_mem_repeatWays ih text (.nothing text) (by simp) way hway
  | notAhead body =>
    intro text way hway
    rw [ways] at hway
    split at hway
    · rw [List.mem_singleton] at hway
      exact hway ▸ .nothing text
    · simp at hway

end GatedExpr.Regex

namespace GatedExpr.Pattern

theorem reads_of_match? {pattern : Pattern} {text : List Char} {way : Regex.Way}
    (h : pattern.match? text = some way) : way.Reads text :=
  Regex.reads_of_mem_ways _ _ text way (List.mem_of_mem_head? h)

end GatedExpr.Pattern
