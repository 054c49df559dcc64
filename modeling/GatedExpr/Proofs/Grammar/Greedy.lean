import Mathlib.Data.List.TakeWhile
import GatedExpr.Proofs.Grammar.Spelling

/-! # Greedy reading

The first way to read a regular expression is put together from the first ways to read its parts,
where a repetition takes as much as it can.
-/

namespace GatedExpr

namespace Regex

variable {first second body : Regex} {negated : Bool} {classes : List CharClass}
  {s t rest : List Char} {c : Char}

/-- The first way to read the regular expression takes the text and leaves the rest. -/
def ReadsFirst (regex : Regex) (text rest : List Char) : Prop :=
  (regex.ways false (text ++ rest)).head? = some ⟨text.length, rest⟩

/-- The regular expression does not read anything there, not even nothing. -/
def Refuses (regex : Regex) (text : List Char) : Prop :=
  regex.ways false text = []

namespace ReadsFirst

theorem oneOf (hc : (classes.any (·.contains c) != negated) = true) (rest : List Char) :
    (Regex.oneOf negated classes).ReadsFirst [c] rest := by
  have hone : (Regex.oneOf negated classes).ways false (c :: rest) = [⟨1, rest⟩] := if_pos hc
  rw [ReadsFirst, List.singleton_append, hone]
  rfl

theorem seq (hf : first.ReadsFirst s (t ++ rest)) (hs : second.ReadsFirst t rest) :
    (Regex.seq first second).ReadsFirst (s ++ t) rest := by
  have hseq := head?_ways_seq hf hs
  rw [ReadsFirst, List.append_assoc, hseq, List.length_append]
  rfl

theorem left (second : Regex) (h : first.ReadsFirst t rest) :
    (Regex.alt first second).ReadsFirst t rest :=
  head?_ways_left second h

theorem right (hf : first.Refuses (t ++ rest)) (hs : second.ReadsFirst t rest) :
    (Regex.alt first second).ReadsFirst t rest := by
  rw [ReadsFirst, ways, hf, List.nil_append]
  exact hs

theorem none (h : body.Refuses rest) : body.optional.ReadsFirst [] rest :=
  right h rfl

/-- A repetition takes all characters of its kind. -/
theorem star (ht : ∀ c ∈ t, (classes.any (·.contains c) != negated) = true)
    (hr : ∀ c, rest.head? = some c → (classes.any (·.contains c) != negated) = false) :
    (Regex.star (.oneOf negated classes)).ReadsFirst t rest := by
  rw [ReadsFirst, head?_ways_star, List.takeWhile_append_of_pos ht, List.dropWhile_append_of_pos ht]
  cases rest with
  | nil => simp
  | cons c rest =>
    have hc := hr c rfl
    rw [List.takeWhile_cons_of_neg (by simp [hc]), List.dropWhile_cons_of_neg (by simp [hc]),
      List.append_nil]

theorem plus (ht : ∀ c ∈ t, (classes.any (·.contains c) != negated) = true) (hne : t ≠ [])
    (hr : ∀ c, rest.head? = some c → (classes.any (·.contains c) != negated) = false) :
    (Regex.oneOf negated classes).plus.ReadsFirst t rest := by
  obtain ⟨c, t, rfl⟩ := List.exists_cons_of_ne_nil hne
  obtain ⟨hc, ht⟩ := List.forall_mem_cons.mp ht
  exact (oneOf hc _).seq (star ht hr)

end ReadsFirst

theorem refuses_oneOf
    (h : ∀ c, t.head? = some c → (classes.any (·.contains c) != negated) = false) :
    (Regex.oneOf negated classes).Refuses t := by
  cases t with
  | nil => rfl
  | cons c t => exact if_neg (by simp [classesContain, h c rfl])

theorem Refuses.seq (h : first.Refuses t) (second : Regex) :
    (Regex.seq first second).Refuses t := by
  rw [Refuses, ways, h, List.flatMap_nil]

end Regex

/-- A text is accepted when the first way to read the regular expression takes all of it. -/
theorem Pattern.accepts_of_readsFirst {pattern : Pattern} {text : List Char}
    (hf : pattern.flags = 0) (h : pattern.regex.ReadsFirst text []) : pattern.Accepts text := by
  rw [Accepts, match?_of_flags hf]
  rwa [Regex.ReadsFirst, List.append_nil] at h

end GatedExpr
