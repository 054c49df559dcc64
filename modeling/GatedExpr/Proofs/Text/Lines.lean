import Mathlib
import GatedExpr.Text.Lines

/-! # The line of an offset

A location counts line feeds, while a shown text is split at every line break. A text up to a
line feed has as many lines as line feeds and stray breaks, so that the two counts agree exactly
if no break strays before the line of an offset.
-/

namespace GatedExpr.Text

/-! ## The text around an offset -/

/-- All of a text up to its last line feed. -/
def wholeLines (text : List Char) : List Char :=
  (text.reverse.dropWhile (· ≠ '\n')).reverse

/-- What precedes the line of an offset. -/
def linesBefore (source : List Char) (offset : Nat) : List Char :=
  wholeLines (source.take offset)

/-- The text between the line feeds around an offset. -/
def lineAround (source : List Char) (offset : Nat) : List Char :=
  lastLine (source.take offset) ++ (source.drop offset).takeWhile (· ≠ '\n')

theorem wholeLines_append_lastLine (text : List Char) :
    wholeLines text ++ lastLine text = text := by
  rw [wholeLines, lastLine, ← List.reverse_append, List.takeWhile_append_dropWhile,
    List.reverse_reverse]

theorem getLast?_wholeLines (text : List Char) :
    wholeLines text = [] ∨ (wholeLines text).getLast? = some '\n' := by
  rw [wholeLines, List.getLast?_reverse, List.reverse_eq_nil_iff]
  cases h : text.reverse.dropWhile (· ≠ '\n') with
  | nil => exact .inl rfl
  | cons c rest =>
    have hc := List.head?_dropWhile_not (· ≠ '\n') text.reverse
    rw [h] at hc
    exact .inr (by simpa using hc)

theorem not_mem_lastLine (text : List Char) : '\n' ∉ lastLine text := by
  intro h
  have := List.mem_takeWhile_imp (List.mem_reverse.mp h)
  simp at this

theorem count_wholeLines (text : List Char) : (wholeLines text).count '\n' = text.count '\n' := by
  conv_rhs => rw [← wholeLines_append_lastLine text]
  rw [List.count_append, List.count_eq_zero.mpr (not_mem_lastLine text), Nat.add_zero]

/-- A text is what precedes the line of an offset, that line and what follows from the line feed
at its end on. -/
theorem exists_after (source : List Char) (offset : Nat) :
    ∃ after, source = linesBefore source offset ++ (lineAround source offset ++ after) ∧
      (after = [] ∨ after.head? = some '\n') := by
  refine ⟨(source.drop offset).dropWhile (· ≠ '\n'), ?_, ?_⟩
  · rw [lineAround, linesBefore, List.append_assoc, List.takeWhile_append_dropWhile,
      ← List.append_assoc, wholeLines_append_lastLine, List.take_append_drop]
  · cases h : (source.drop offset).dropWhile (· ≠ '\n') with
    | nil => exact .inl rfl
    | cons c rest =>
      have hc := List.head?_dropWhile_not (· ≠ '\n') (source.drop offset)
      rw [h] at hc
      exact .inr (by simpa using hc)

/-! ## Lines and breaks -/

/-- How many breaks are not line feeds, a carriage return before a line feed being part of it. -/
def strayBreaks : List Char → Nat
  | [] => 0
  | c :: rest =>
    (if isLineBreak c && c != '\n' && !(c == '\r' && rest.head? == some '\n') then 1 else 0)
      + strayBreaks rest

theorem strayBreaks_crlf (rest : List Char) :
    strayBreaks ('\r' :: '\n' :: rest) = strayBreaks rest := by
  simp [strayBreaks]

theorem not_isLineBreak_of_mem_linesFrom {line text l : List Char} (hl : l ∈ linesFrom line text)
    (hline : ∀ c ∈ line, isLineBreak c = false) : ∀ c ∈ l, isLineBreak c = false := by
  fun_induction linesFrom line text with
  | case1 line h => cases hl
  | case2 line h =>
    obtain rfl := List.mem_singleton.mp hl
    simpa using hline
  | case3 line rest ih =>
    rcases List.mem_cons.mp hl with rfl | hl
    · simpa using hline
    · exact ih hl nofun
  | case4 line c rest hcrlf hc ih =>
    rcases List.mem_cons.mp hl with rfl | hl
    · simpa using hline
    · exact ih hl nofun
  | case5 line c rest hcrlf hc ih =>
    exact ih hl (List.forall_mem_cons.mpr ⟨Bool.eq_false_iff.mpr hc, hline⟩)

/-- Lines hold no line breaks. -/
theorem not_isLineBreak_of_mem_lines {text l : List Char} (hl : l ∈ lines text) :
    ∀ c ∈ l, isLineBreak c = false :=
  not_isLineBreak_of_mem_linesFrom hl nofun

theorem linesFrom_cons {c : Char} {rest : List Char}
    (h : ¬ (c = '\r' ∧ rest.head? = some '\n')) (line : List Char) :
    linesFrom line (c :: rest) =
      if isLineBreak c then line.reverse :: linesFrom [] rest else linesFrom (c :: line) rest := by
  rw [linesFrom]
  rintro rest' rfl rfl
  exact h ⟨rfl, rfl⟩

/-- Whether a carriage return and a line feed are torn apart between the texts. -/
def TearsCrlf (text rest : List Char) : Prop :=
  text.getLast? = some '\r' ∧ rest.head? = some '\n'

/-- Text that is appended makes no carriage return part of a longer break. -/
theorem not_crlf_append {c : Char} {text rest : List Char}
    (hcrlf : ∀ tail, c = '\r' → text = '\n' :: tail → False)
    (htears : ¬ TearsCrlf (c :: text) rest) :
    ¬ (c = '\r' ∧ (text ++ rest).head? = some '\n') := by
  rintro ⟨rfl, hhead⟩
  cases text with
  | nil => exact htears ⟨rfl, hhead⟩
  | cons d text =>
    cases hhead
    exact hcrlf text rfl rfl

theorem not_tearsCrlf_tail {c d : Char} {text rest : List Char}
    (h : ¬ TearsCrlf (c :: d :: text) rest) : ¬ TearsCrlf (d :: text) rest := by
  simpa [TearsCrlf] using h

/-- What follows a line break is split on its own. -/
theorem linesFrom_append {line text rest : List Char} {last : Char}
    (h : text.getLast? = some last) (hbreak : isLineBreak last = true)
    (htears : ¬ TearsCrlf text rest) :
    linesFrom line (text ++ rest) = linesFrom line text ++ lines rest := by
  fun_induction linesFrom line text with
  | case1 | case2 => cases h
  | case3 line text ih =>
    rw [List.cons_append, List.cons_append, linesFrom, List.cons_append]
    cases text with
    | nil => rfl
    | cons c text =>
      rw [ih (by simpa using h) (not_tearsCrlf_tail (not_tearsCrlf_tail htears))]
  | case4 line c text hcrlf hc ih =>
    rw [List.cons_append, linesFrom_cons (not_crlf_append hcrlf htears), if_pos hc,
      List.cons_append]
    cases text with
    | nil => rfl
    | cons d text => rw [ih (by simpa using h) (not_tearsCrlf_tail htears)]
  | case5 line c text hcrlf hc ih =>
    rw [List.cons_append, linesFrom_cons (not_crlf_append hcrlf htears), if_neg hc]
    cases text with
    | nil =>
      obtain rfl : c = last := by simpa using h
      exact absurd hbreak hc
    | cons d text => rw [ih (by simpa using h) (not_tearsCrlf_tail htears)]

/-- Up to a line feed there are as many lines as line feeds and stray breaks. -/
theorem length_linesFrom {line text : List Char} (h : text.getLast? = some '\n') :
    (linesFrom line text).length = text.count '\n' + strayBreaks text := by
  fun_induction linesFrom line text with
  | case1 | case2 => cases h
  | case3 line text ih =>
    have hcount : ('\r' :: '\n' :: text).count '\n' = text.count '\n' + 1 := by
      simp
    rw [strayBreaks_crlf, hcount, List.length_cons]
    cases text with
    | nil => rfl
    | cons c text =>
      rw [ih (by simpa using h)]
      omega
  | case4 line c text hcrlf hc ih =>
    have hstray : (c :: text).count '\n' + strayBreaks (c :: text) =
        text.count '\n' + strayBreaks text + 1 := by
      have hbreak : (c == '\r' && text.head? == some '\n') = false := by
        have htears : ¬ TearsCrlf (c :: text) [] := nofun
        have := not_crlf_append hcrlf htears
        rw [List.append_nil] at this
        simpa using this
      by_cases hfeed : c = '\n'
      · simp [strayBreaks, hfeed]
        omega
      · simp [strayBreaks, hfeed, hc, hbreak]
        omega
    rw [hstray, List.length_cons]
    cases text with
    | nil => rfl
    | cons d text => rw [ih (by simpa using h)]
  | case5 line c text hcrlf hc ih =>
    have hfeed : c ≠ '\n' := by
      rintro rfl
      exact hc (by decide)
    have hstray : (c :: text).count '\n' + strayBreaks (c :: text) =
        text.count '\n' + strayBreaks text := by
      simp [strayBreaks, hfeed, hc]
    rw [hstray]
    cases text with
    | nil => exact absurd (by simpa using h) hfeed
    | cons d text => exact ih (by simpa using h)

/-- The first line reaches up to the first break. -/
theorem head?_linesFrom (line text : List Char) :
    (linesFrom line text).head? =
      if line = [] ∧ text = [] then none
      else some (line.reverse ++ text.takeWhile fun c => !isLineBreak c) := by
  fun_induction linesFrom line text with
  | case1 line h => simp_all
  | case2 line h => simp_all
  | case3 line text ih =>
    have hbreak : isLineBreak '\r' = true := by decide
    simp [hbreak]
  | case4 line c text hcrlf hc ih => simp [hc]
  | case5 line c text hcrlf hc ih => simp [ih, hc]

theorem lines_append {before : List Char} (h : before = [] ∨ before.getLast? = some '\n')
    (rest : List Char) : lines (before ++ rest) = lines before ++ lines rest := by
  rcases h with rfl | h
  · rfl
  · exact linesFrom_append h (by decide) fun htears => by cases h.symm.trans htears.1

theorem length_lines {before : List Char} (h : before = [] ∨ before.getLast? = some '\n') :
    (lines before).length = before.count '\n' + strayBreaks before := by
  rcases h with rfl | h
  · rfl
  · exact length_linesFrom h

/-- A line is shown as what it is if no break is within it, and nothing is shown at the end of a
text. -/
theorem head?_lines_iff {line after : List Char}
    (hafter : after = [] ∨ after.head? = some '\n') :
    (lines (line ++ after)).head? = some line ↔
      (∀ c ∈ line, isLineBreak c = false) ∧ line ++ after ≠ [] := by
  have hnext : after.takeWhile (fun c => !isLineBreak c) = [] := by
    rcases hafter with rfl | hafter
    · rfl
    · obtain ⟨rest, rfl⟩ := List.head?_eq_some_iff.mp hafter
      exact List.takeWhile_cons_of_neg (by decide)
  rw [lines, head?_linesFrom]
  by_cases hempty : line ++ after = []
  · simp [hempty]
  · rw [if_neg (fun h => hempty h.2)]
    simp only [List.reverse_nil, List.nil_append, Option.some.injEq, ne_eq, hempty,
      not_false_eq_true, and_true]
    constructor
    · intro h c hc
      rw [← h] at hc
      simpa using List.mem_takeWhile_imp hc
    · intro h
      rw [List.takeWhile_append_of_pos (fun c hc => by simp [h c hc]), hnext, List.append_nil]

/-- The lines of a text as they are shown: of an empty text, one that is empty. -/
def shownLines (text : List Char) : List (List Char) :=
  match lines text with
  | [] => [[]]
  | lines => lines

/-- Whether the line of an offset is where line feeds alone say it is: no break strays before it
or within it, and it is not the empty rest after a line feed at the end. -/
structure OnOwnLine (source : List Char) (offset : Nat) : Prop where
  before : strayBreaks (linesBefore source offset) = 0
  within : ∀ c ∈ lineAround source offset, isLineBreak c = false
  shown : linesBefore source offset = source → source = []

/-- Whether stray breaks shift the lines so that the one in the place of the line of an offset is
another with the same text. -/
def OnTwinLine (source : List Char) (offset : Nat) : Prop :=
  0 < strayBreaks (linesBefore source offset) ∧
    (lines (linesBefore source offset))[(source.take offset).count '\n']? =
      some (lineAround source offset)

theorem shownLines_of_ne_nil {text : List Char} (h : text ≠ []) : shownLines text = lines text := by
  have hlines : lines text ≠ [] := by
    intro hnil
    have hhead := head?_linesFrom [] text
    rw [← lines, hnil, if_neg (fun hempty => h hempty.2)] at hhead
    cases hhead
  unfold shownLines
  split
  · next hnil => exact absurd hnil hlines
  · rfl

theorem onOwnLine_nil (offset : Nat) : OnOwnLine [] offset := by
  have hempty : List.take offset ([] : List Char) = [] := List.take_nil
  refine ⟨?_, ?_, fun _ => rfl⟩
  · rw [linesBefore, hempty]
    rfl
  · rw [lineAround, hempty, List.drop_nil]
    nofun

/-- The shown line with the number of an offset is the line around it. -/
theorem getElem?_shownLines_iff (source : List Char) (offset : Nat) :
    (shownLines source)[(source.take offset).count '\n']? = some (lineAround source offset) ↔
      OnOwnLine source offset ∨ OnTwinLine source offset := by
  rcases eq_or_ne source [] with rfl | hne
  · refine iff_of_true ?_ (.inl (onOwnLine_nil offset))
    rw [lineAround, List.take_nil, List.drop_nil]
    rfl
  obtain ⟨after, hsource, hafter⟩ := exists_after source offset
  have hbefore : linesBefore source offset = [] ∨
      (linesBefore source offset).getLast? = some '\n' :=
    getLast?_wholeLines _
  have hcount : (source.take offset).count '\n' = (linesBefore source offset).count '\n' :=
    (count_wholeLines _).symm
  have hshown : shownLines source = lines (linesBefore source offset) ++
      lines (lineAround source offset ++ after) := by
    rw [← lines_append hbefore, ← hsource, shownLines_of_ne_nil hne]
  have hrest : lineAround source offset ++ after ≠ [] ↔
      (linesBefore source offset = source → source = []) := by
    constructor
    · intro hrest hall
      rw [hall, List.self_eq_append_right] at hsource
      exact absurd hsource hrest
    · intro hshown hnil
      rw [hnil, List.append_nil] at hsource
      exact hne (hshown hsource.symm)
  have hlength := length_lines hbefore
  rw [hshown]
  rcases Nat.eq_zero_or_pos (strayBreaks (linesBefore source offset)) with hstray | hstray
  · -- The line is the first of those that are left.
    rw [List.getElem?_append_right (by omega), hlength, hcount, hstray, Nat.add_zero, Nat.sub_self,
      ← List.head?_eq_getElem?, head?_lines_iff hafter, hrest]
    constructor
    · exact fun ⟨hwithin, hshown⟩ => .inl ⟨hstray, hwithin, hshown⟩
    · rintro (⟨-, hwithin, hshown⟩ | ⟨htwin, -⟩)
      · exact ⟨hwithin, hshown⟩
      · omega
  · -- The line with this number lies before the line of the offset.
    rw [List.getElem?_append_left (by omega)]
    constructor
    · exact fun h => .inr ⟨hstray, h⟩
    · rintro (⟨hnone, -, -⟩ | ⟨-, h⟩)
      · omega
      · exact h

end GatedExpr.Text
