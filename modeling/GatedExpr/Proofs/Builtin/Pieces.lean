import Mathlib.Data.List.Infix
import GatedExpr.Builtin.Library
import GatedExpr.Proofs.Computation

/-! # Splitting and joining

Splitting a text at a separator cuts out the occurrences that a reader from the left comes upon one
after the other, so that one piece more than these is left and none of the pieces has the separator
in it. Joining the pieces puts the text together again, also where it was split into its characters.
Texts joined by a character that none of them has are what splitting at that character gives back.
-/

namespace GatedExpr

namespace Text

variable {part text before after : List Char}

/-- How many occurrences of `part` come one after the other once `passed` characters have been
passed over. An occurrence is passed over as a whole before the next one is looked for. -/
def countFrom (part : List Char) : Nat → List Char → Nat
  | _, [] => 0
  | passed + 1, _ :: rest => countFrom part passed rest
  | 0, c :: rest =>
    if part.isPrefixOf (c :: rest) then countFrom part (part.length - 1) rest + 1
    else countFrom part 0 rest

/-- How many occurrences of `part` that do not overlap there are, counted from the left. -/
def occurrences (part text : List Char) : Nat :=
  countFrom part 0 text

theorem countFrom_eq (part : List Char) (passed : Nat) (text : List Char) :
    countFrom part passed text = occurrences part (text.drop passed) := by
  induction text generalizing passed with
  | nil => rw [List.drop_nil, countFrom, occurrences, countFrom]
  | cons c rest ih =>
    cases passed with
    | zero => rfl
    | succ passed => rw [countFrom, ih, List.drop_succ_cons]

theorem occurrences_of_beginning {c : Char} {rest : List Char} (hpart : part ≠ [])
    (h : part <+: c :: rest) :
    occurrences part (c :: rest) = occurrences part ((c :: rest).drop part.length) + 1 := by
  obtain ⟨d, part, rfl⟩ := List.exists_cons_of_ne_nil hpart
  rw [occurrences, countFrom, if_pos (List.isPrefixOf_iff_prefix.mpr h), countFrom_eq]
  rfl

theorem occurrences_of_not_beginning {c : Char} {rest : List Char} (h : ¬ part <+: c :: rest) :
    occurrences part (c :: rest) = occurrences part rest := by
  rw [occurrences, countFrom, if_neg (mt List.isPrefixOf_iff_prefix.mp h)]
  rfl

/-! ## The first occurrence -/

theorem breakOn?_nil (hpart : part ≠ []) : breakOn? part [] = none :=
  if_neg (mt List.isEmpty_iff.mp hpart)

theorem breakOn?_cons_cases {c : Char} {rest : List Char}
    (h : breakOn? part (c :: rest) = some (before, after)) :
    (part <+: c :: rest ∧ before = [] ∧ after = (c :: rest).drop part.length) ∨
      (¬ part <+: c :: rest ∧
        ∃ more, breakOn? part rest = some (more, after) ∧ before = c :: more) := by
  rw [breakOn?] at h
  split at h
  · next hbegins =>
    cases h
    exact .inl ⟨List.isPrefixOf_iff_prefix.mp hbegins, rfl, rfl⟩
  · next hbegins =>
    obtain ⟨⟨more, after⟩, hrest, hcut⟩ := Option.map_eq_some_iff.mp h
    cases hcut
    exact .inr ⟨mt List.isPrefixOf_iff_prefix.mpr hbegins, more, hrest, rfl⟩

theorem breakOn?_cons_eq_none {c : Char} {rest : List Char}
    (h : breakOn? part (c :: rest) = none) :
    ¬ part <+: c :: rest ∧ breakOn? part rest = none := by
  rw [breakOn?] at h
  split at h
  · cases h
  · next hbegins =>
    exact ⟨mt List.isPrefixOf_iff_prefix.mpr hbegins, Option.map_eq_none_iff.mp h⟩

theorem eq_append_of_breakOn? (hpart : part ≠ [])
    (h : breakOn? part text = some (before, after)) : text = before ++ part ++ after := by
  induction text generalizing before with
  | nil =>
    rw [breakOn?_nil hpart] at h
    cases h
  | cons c rest ih =>
    obtain ⟨hbegins, rfl, rfl⟩ | ⟨-, more, hrest, rfl⟩ := breakOn?_cons_cases h
    · exact (List.prefix_iff_eq_append.mp hbegins).symm
    · rw [ih hrest, List.cons_append, List.cons_append]

/-- What is before the first occurrence has none in it. -/
theorem not_infix_of_breakOn? (hpart : part ≠ [])
    (h : breakOn? part text = some (before, after)) : ¬ part <:+: before := by
  induction text generalizing before with
  | nil =>
    rw [breakOn?_nil hpart] at h
    cases h
  | cons c rest ih =>
    have htext := eq_append_of_breakOn? hpart h
    obtain ⟨-, rfl, -⟩ | ⟨hbegins, more, hrest, rfl⟩ := breakOn?_cons_cases h
    · rwa [List.infix_nil]
    · rw [List.infix_cons_iff, not_or]
      refine ⟨fun hfirst => hbegins ?_, ih hrest⟩
      rw [htext, List.append_assoc]
      exact hfirst.trans (List.prefix_append _ _)

theorem not_infix_of_breakOn?_eq_none (hpart : part ≠ []) (h : breakOn? part text = none) :
    ¬ part <:+: text := by
  induction text with
  | nil => rwa [List.infix_nil]
  | cons c rest ih =>
    obtain ⟨hbegins, hrest⟩ := breakOn?_cons_eq_none h
    rw [List.infix_cons_iff, not_or]
    exact ⟨hbegins, ih hrest⟩

/-- Behind the first occurrence the counting begins anew. -/
theorem occurrences_of_breakOn? (hpart : part ≠ [])
    (h : breakOn? part text = some (before, after)) :
    occurrences part text = occurrences part after + 1 := by
  induction text generalizing before with
  | nil =>
    rw [breakOn?_nil hpart] at h
    cases h
  | cons c rest ih =>
    obtain ⟨hbegins, -, rfl⟩ | ⟨hbegins, more, hrest, -⟩ := breakOn?_cons_cases h
    · exact occurrences_of_beginning hpart hbegins
    · rw [occurrences_of_not_beginning hbegins, ih hrest]

theorem occurrences_of_breakOn?_eq_none (h : breakOn? part text = none) :
    occurrences part text = 0 := by
  induction text with
  | nil => rw [occurrences, countFrom]
  | cons c rest ih =>
    obtain ⟨hbegins, hrest⟩ := breakOn?_cons_eq_none h
    rw [occurrences_of_not_beginning hbegins, ih hrest]

/-! ## Pieces -/

theorem splitOn_ne_nil (hpart : part ≠ []) (text : List Char) : splitOn part hpart text ≠ [] := by
  rw [splitOn]
  split <;> exact List.cons_ne_nil _ _

theorem intercalate_splitOn (hpart : part ≠ []) (text : List Char) :
    part.intercalate (splitOn part hpart text) = text := by
  fun_induction splitOn part hpart text with
  | case1 text before after hbreak ih =>
    rw [List.intercalate_cons_of_ne_nil (splitOn_ne_nil hpart after), ih,
      ← eq_append_of_breakOn? hpart hbreak]
  | case2 text hbreak => exact List.intercalate_singleton

/-- Characters with nothing between them make up their text. -/
theorem intercalate_chars (text : List Char) : [].intercalate (text.map ([·])) = text := by
  induction text with
  | nil => rfl
  | cons c rest ih =>
    cases rest with
    | nil => rfl
    | cons d rest =>
      rw [List.map_cons, List.intercalate_cons_of_ne_nil (by simp), ih]
      rfl

theorem length_splitOn (hpart : part ≠ []) (text : List Char) :
    (splitOn part hpart text).length = occurrences part text + 1 := by
  fun_induction splitOn part hpart text with
  | case1 text before after hbreak ih =>
    rw [List.length_cons, ih, occurrences_of_breakOn? hpart hbreak]
  | case2 text hbreak => rw [occurrences_of_breakOn?_eq_none hbreak, List.length_singleton]

theorem not_infix_of_mem_splitOn (hpart : part ≠ []) (text : List Char) :
    ∀ piece ∈ splitOn part hpart text, ¬ part <:+: piece := by
  fun_induction splitOn part hpart text with
  | case1 text before after hbreak ih =>
    exact List.forall_mem_cons.mpr ⟨not_infix_of_breakOn? hpart hbreak, ih⟩
  | case2 text hbreak =>
    rw [List.forall_mem_singleton]
    exact not_infix_of_breakOn?_eq_none hpart hbreak

/-- Splitting at one character is what the library of lists does. -/
theorem splitOn_singleton (c : Char) (hc : [c] ≠ []) (text : List Char) :
    splitOn [c] hc text = text.splitOn c := by
  fun_induction splitOn [c] hc text with
  | case1 text before after hbreak ih =>
    have hbefore := not_infix_of_breakOn? hc hbreak
    rw [List.singleton_infix_iff] at hbefore
    rw [ih, eq_append_of_breakOn? hc hbreak, List.append_assoc, List.singleton_append,
      List.splitOn_append_cons_self_of_not_mem hbefore]
  | case2 text hbreak =>
    have hnone := not_infix_of_breakOn?_eq_none hc hbreak
    rw [List.singleton_infix_iff] at hnone
    rw [List.splitOn_eq_singleton hnone]

end Text

/-! ## Lists of texts -/

theorem Value.adoptEach_texts (texts : List String) (n : Identity) :
    (adoptEach (texts.map .text)).run n = (texts.map .text, n) := by
  induction texts with
  | nil => rfl
  | cons s texts ih =>
    have hcons : (adoptEach ((s :: texts).map .text)).run n =
        (.text s :: ((adoptEach (texts.map .text)).run n).1,
          ((adoptEach (texts.map .text)).run n).2) := rfl
    rw [hcons, ih, List.map_cons]

theorem Eval.run_newList_texts (texts : List String) (w : World) :
    (newList (texts.map .text)).run w =
      (.ok (.list w.nextId (texts.map .text)), { w with nextId := w.nextId + 1 }) := by
  have hnew : (newList (texts.map .text)).run w =
      (.ok (.list ((Value.adoptEach (texts.map .text)).run w.nextId).2
          ((Value.adoptEach (texts.map .text)).run w.nextId).1),
        { w with nextId := ((Value.adoptEach (texts.map .text)).run w.nextId).2 + 1 }) := rfl
  rw [hnew, Value.adoptEach_texts]

namespace Builtin

theorem itemText_texts (texts : List String) : (texts.map Value.text).map itemText = texts := by
  rw [List.map_map]
  exact List.map_id texts

/-- The pieces of a text: its characters if the separator is empty. -/
def pieces (s separator : String) : List String :=
  if h : separator.toList = [] then s.toList.map String.singleton
  else (Text.splitOn separator.toList h s.toList).map String.ofList

theorem split_text (s separator : String) :
    split (.text s) (.text separator) = .ok ((pieces s separator).map .text) := by
  have hchars (t : String) : chars (.text t) = t.toList := rfl
  rw [split, pieces]
  · simp only [hchars]
    split
    · have htext : (Value.text separator).isText = true := rfl
      rw [if_pos htext, List.map_map]
      rfl
    · rw [List.map_map]
      rfl
  · exact nofun

theorem intercalate_pieces (s separator : String) :
    separator.intercalate (pieces s separator) = s := by
  rw [← String.toList_inj, String.toList_intercalate, pieces]
  split
  · next h =>
    have hchars : (s.toList.map String.singleton).map String.toList = s.toList.map ([·]) := by simp
    rw [h, hchars, Text.intercalate_chars]
  · next h =>
    have hchars (parts : List (List Char)) :
        (parts.map String.ofList).map String.toList = parts := by simp
    rw [hchars, Text.intercalate_splitOn]

theorem join_texts (id : Identity) (texts : List String) (separator : String) :
    join (.list id (texts.map .text)) (.text separator) = .ok (separator.intercalate texts) := by
  have hjoin : join (.list id (texts.map .text)) (.text separator) =
      .ok (separator.intercalate ((texts.map Value.text).map itemText)) := rfl
  rw [hjoin, itemText_texts]

/-- A text without the separator in it is what splitting at that character cuts out. -/
theorem pieces_intercalate {texts : List String} {c : Char} (hne : texts ≠ [])
    (hc : ∀ s ∈ texts, c ∉ s.toList) :
    pieces ((String.singleton c).intercalate texts) (.singleton c) = texts := by
  have hseparator : (String.singleton c).toList = [c] := by simp
  rw [pieces, dif_neg (by simp)]
  simp only [String.toList_intercalate, hseparator, Text.splitOn_singleton]
  rw [List.splitOn_intercalate c (by simpa using hc) (by simpa using hne)]
  simp

end Builtin

namespace Library

open Builtin (pieces)

theorem split_texts (s separator : String) :
    split.apply [.text s, .text separator] = Eval.newList ((pieces s separator).map .text) := by
  have hsplit : split.apply [.text s, .text separator] =
      Eval.ofExcept (Builtin.split (.text s) (.text separator)) >>= Eval.newList := rfl
  rw [hsplit, Builtin.split_text]
  rfl

theorem join_texts (id : Identity) (texts : List String) (separator : String) :
    join.apply [.list id (texts.map .text), .text separator] =
      pure (.text (separator.intercalate texts)) := by
  have hjoin : join.apply [.list id (texts.map .text), .text separator] =
      Eval.ofExcept (Builtin.join (.list id (texts.map .text)) (.text separator)) >>=
        fun joined => pure (.text joined) := rfl
  rw [hjoin, Builtin.join_texts]
  rfl

/-- Splitting and joining undo each other. Whatever the separator is, joining the pieces of a text
yields the text; unless it is empty, there is one piece more than it occurs, and it does not occur in
any of them. Splitting at a character yields the texts that were joined by it, provided that there is
one and that none of them has the character. -/
theorem split_join_inverse :
    (∀ s separator : String, ∃ parts : List String,
      split.apply [.text s, .text separator] = Eval.newList (parts.map .text) ∧
      (∀ w, ((split.apply [.text s, .text separator] >>= fun list =>
        join.apply [list, .text separator]).run w).1 = .ok (.text s)) ∧
      (separator ≠ "" →
        parts.length = Text.occurrences separator.toList s.toList + 1 ∧
          ∀ part ∈ parts, ¬ separator.toList <:+: part.toList)) ∧
    ∀ (id : Identity) (texts : List String) (c : Char), texts ≠ [] →
      (∀ s ∈ texts, c ∉ s.toList) →
        (join.apply [.list id (texts.map .text), .text (.singleton c)] >>= fun joined =>
          split.apply [joined, .text (.singleton c)]) = Eval.newList (texts.map .text) := by
  refine ⟨fun s separator => ⟨pieces s separator, split_texts s separator, fun w => ?_,
    fun hseparator => ?_⟩, fun id texts c hne hc => ?_⟩
  · rw [Computation.run_bind, split_texts, Eval.run_newList_texts]
    simp only [join_texts, Builtin.intercalate_pieces]
    rfl
  · have hpart : separator.toList ≠ [] := by simpa using hseparator
    rw [pieces, dif_neg hpart, List.length_map, Text.length_splitOn]
    refine ⟨rfl, List.forall_mem_map.mpr fun piece hpiece => ?_⟩
    rw [String.toList_ofList]
    exact Text.not_infix_of_mem_splitOn hpart _ piece hpiece
  · rw [join_texts, pure_bind, split_texts, Builtin.pieces_intercalate hne hc]

/-- Of two overlapping occurrences the first one counts. -/
theorem split_join_inverse_overlapping :
    ("aa" ≠ "" ∧ ["", "b"] ≠ [] ∧ ∀ s ∈ ["", "b"], ',' ∉ s.toList) ∧
      (∃ parts : List String,
        split.apply [.text "aaaba", .text "aa"] = Eval.newList (parts.map .text) ∧
          parts.length = 2) ∧
      (join.apply [.list 1 [.text "", .text "b"], .text (.singleton ',')] >>= fun joined =>
        split.apply [joined, .text (.singleton ',')]) = Eval.newList [.text "", .text "b"] := by
  have hseparator : "aa" ≠ "" := by decide
  have hc : ∀ s ∈ ["", "b"], ',' ∉ s.toList := by decide
  refine ⟨⟨hseparator, List.cons_ne_nil _ _, hc⟩, ?_, ?_⟩
  · obtain ⟨parts, hsplit, -, hparts⟩ := split_join_inverse.1 "aaaba" "aa"
    exact ⟨parts, hsplit, (hparts hseparator).1⟩
  · exact split_join_inverse.2 1 ["", "b"] ',' (List.cons_ne_nil _ _) hc

end Library

end GatedExpr
