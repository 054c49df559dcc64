import Mathlib
import GatedExpr.Proofs.Grammar.Literals
import GatedExpr.Proofs.Text.Lines
import GatedExpr.Runner.Report

/-! # Excerpts

The excerpt of a source around an offset shows the line of the offset with a caret under it
exactly if that line is where the line feeds before the offset say it is.
-/

namespace GatedExpr.Excerpt

/-! ## Rows -/

variable {width line column first number : Nat} {content row : List Char}
  {contents others : List (List Char)}

/-- Whether a row is marked as the one in question. -/
def isMarked (row : List Char) : Bool :=
  row.head? == some '>'

theorem isMarked_numbered (width number : Nat) (marked : Bool) (content : List Char) :
    isMarked (numbered width marked number content) = marked := by
  cases marked <;> rfl

theorem isMarked_caret (width column : Nat) : isMarked (caret width column) = false := by
  rw [caret, List.replicate_succ']
  cases width <;> rfl

theorem rows_append :
    rows width line column first (contents ++ others) =
      rows width line column first contents ++
        rows width line column (first + contents.length) others := by
  induction contents generalizing first with
  | nil => rfl
  | cons content contents ih =>
    have hnext : first + 1 + contents.length = first + (contents.length + 1) := by omega
    rw [List.cons_append, rows, rows, ih, hnext, List.length_cons]
    split <;> rfl

/-- Lines with other numbers are not marked. -/
theorem not_isMarked_rows (h : line < first ∨ first + contents.length ≤ line)
    (hrow : row ∈ rows width line column first contents) : isMarked row = false := by
  induction contents generalizing first with
  | nil => cases hrow
  | cons content contents ih =>
    rw [List.length_cons] at h
    have hne : first ≠ line := by omega
    rw [rows] at hrow
    simp only [if_neg hne] at hrow
    rcases List.mem_cons.mp hrow with rfl | hrow
    · rw [isMarked_numbered]
      exact beq_eq_false_iff_ne.mpr hne
    · exact ih (by omega) hrow

theorem not_feed_of_mem_decimal (n : Nat) : '\n' ∉ Text.decimal n :=
  fun h => absurd (Token.isDigit_of_mem_decimal h) (by decide)

theorem not_feed_numbered {marked : Bool} (h : '\n' ∉ content) :
    '\n' ∉ numbered width marked number content := by
  cases marked <;> simp [numbered, padded, h, not_feed_of_mem_decimal]

theorem not_feed_caret : '\n' ∉ caret width column := by
  simp [caret]

theorem not_feed_rows (h : ∀ content ∈ contents, '\n' ∉ content)
    (hrow : row ∈ rows width line column first contents) : '\n' ∉ row := by
  induction contents generalizing first with
  | nil => cases hrow
  | cons content contents ih =>
    obtain ⟨hcontent, hcontents⟩ := List.forall_mem_cons.mp h
    rw [rows] at hrow
    split at hrow
    · rcases List.mem_cons.mp hrow with rfl | hrow
      · exact not_feed_numbered hcontent
      · rcases List.mem_cons.mp hrow with rfl | hrow
        · exact not_feed_caret
        · exact ih hcontents hrow
    · rcases List.mem_cons.mp hrow with rfl | hrow
      · exact not_feed_numbered hcontent
      · exact ih hcontents hrow

theorem rows_ne_nil (h : contents ≠ []) : rows width line column first contents ≠ [] := by
  obtain ⟨content, contents, rfl⟩ := List.exists_cons_of_ne_nil h
  rw [rows]
  split <;> exact List.cons_ne_nil _ _

/-- The rows around the one in question, which is marked and followed by the caret. -/
theorem exists_rows (width column : Nat) (h : contents[line - first]? = some content)
    (hfirst : first ≤ line) :
    ∃ before after : List (List Char),
      rows width line column first contents =
        before ++ numbered width true line content :: caret width column :: after ∧
      (∀ row ∈ before, isMarked row = false) ∧ ∀ row ∈ after, isMarked row = false := by
  obtain ⟨hlt, hcontent⟩ := List.getElem?_eq_some_iff.mp h
  have hsplit : contents = contents.take (line - first) ++
      content :: contents.drop (line - first + 1) := by
    rw [← hcontent, List.getElem_cons_drop, List.take_append_drop]
  have hlength : (contents.take (line - first)).length = line - first :=
    List.length_take_of_le (Nat.le_of_lt hlt)
  have hnumber : first + (line - first) = line := by omega
  refine ⟨rows width line column first (contents.take (line - first)),
    rows width line column (line + 1) (contents.drop (line - first + 1)), ?_, ?_, ?_⟩
  · conv_lhs => rw [hsplit]
    rw [rows_append, hlength, hnumber, rows]
    simp
  · exact fun row hrow => not_isMarked_rows (.inr (by omega)) hrow
  · exact fun row hrow => not_isMarked_rows (.inl (by omega)) hrow

/-! ## The place that is shown -/

/-- What stands before a marked line: the mark, and its number set off by a bar. -/
def IsLead (number : Nat) (lead : List Char) : Prop :=
  ∃ indent, lead = '>' :: ' ' :: List.replicate indent ' ' ++ Text.decimal number ++ [' ', '|', ' ']

/-- Whether the excerpt for an offset shows its place: exactly one line is marked, with the number
and the text of the line of the offset, and in the next line a caret stands under the offset. -/
def ShowsPlace (source : List Char) (offset : Nat) : Prop :=
  let location := Text.locate source offset
  let shown := (excerpt source location).splitOn '\n'
  ∃ lead margin marked, IsLead location.line lead ∧ margin.length = lead.length ∧ '^' ∉ margin ∧
    marked = lead ++ Text.lineAround source offset ∧ shown.filter isMarked = [marked] ∧
      [marked, margin ++ List.replicate (location.column - 1) ' ' ++ ['^']] <:+: shown

theorem length_decimal_le {m n : Nat} (h : m ≤ n) :
    (Text.decimal m).length ≤ (Text.decimal n).length := by
  have hpos : 0 < (Text.decimal n).length := List.length_pos_iff.mpr Nat.toDigits_ne_nil
  have hn : n < 10 ^ (Text.decimal n).length :=
    (Nat.length_toDigits_le_iff (by decide) hpos).mp (Nat.le_refl _)
  exact (Nat.length_toDigits_le_iff (by decide) hpos).mpr (by omega)

/-- The lead of the marked row is as wide as the margin of the caret. -/
theorem numbered_eq (width number : Nat) (content : List Char)
    (h : (Text.decimal number).length ≤ width) :
    ∃ lead, numbered width true number content = lead ++ content ∧ IsLead number lead ∧
      lead.length = width + 5 := by
  refine ⟨_, rfl, ⟨width - (Text.decimal number).length, ?_⟩, ?_⟩
  · simp [padded]
  · simp [padded]
    omega

/-- The number that a lead gives is read in one way only. -/
theorem IsLead.append_inj {lead lead' content content' : List Char} (h : IsLead number lead)
    (h' : IsLead number lead') (he : lead ++ content = lead' ++ content') : content = content' := by
  obtain ⟨indent, rfl⟩ := h
  obtain ⟨indent', rfl⟩ := h'
  obtain ⟨c, digits, hdigits⟩ : ∃ c digits, Text.decimal number = c :: digits :=
    List.exists_cons_of_ne_nil Nat.toDigits_ne_nil
  have hc : (c == ' ') = false := by
    have hdigit : c.isDigit = true :=
      Token.isDigit_of_mem_decimal (n := number) (hdigits ▸ List.mem_cons_self)
    exact Token.forall_digits (P := fun c => (c == ' ') = false) (by decide +kernel) hdigit
  have hdrop (indent : Nat) (rest : List Char) :
      (List.replicate indent ' ' ++ (Text.decimal number ++ rest)).dropWhile (· == ' ') =
        Text.decimal number ++ rest := by
    rw [List.dropWhile_append_of_pos (by simp), hdigits, List.cons_append,
      List.dropWhile_cons_of_neg (by simp [hc])]
  simp only [List.cons_append, List.append_assoc, List.cons.injEq, true_and] at he
  have := congrArg (List.dropWhile (· == ' ')) he
  rw [hdrop, hdrop] at this
  simpa using this

theorem excerpt_eq (source : List Char) (location : Text.Location) :
    excerpt source location =
      if location.line = 0 ∨ (Text.shownLines source).length < location.line then []
      else
        let last := min (Text.shownLines source).length (location.line + radius)
        let first := max 1 (location.line - radius)
        ['\n'].intercalate (rows (Text.decimal last).length location.line location.column first
          (((Text.shownLines source).take last).drop (first - 1))) := rfl

theorem not_feed_of_mem_shownLines {source content : List Char}
    (h : content ∈ Text.shownLines source) : '\n' ∉ content := by
  unfold Text.shownLines at h
  split at h
  · obtain rfl := List.mem_singleton.mp h
    exact List.not_mem_nil
  · exact fun hfeed => absurd (Text.not_isLineBreak_of_mem_lines h _ hfeed) (by decide)

/-- The lines of an excerpt are its rows. -/
theorem exists_shown {source content : List Char} (column : Nat)
    (h : (Text.shownLines source)[number]? = some content) :
    ∃ width before after, (Text.decimal (number + 1)).length ≤ width ∧
      (excerpt source ⟨number + 1, column⟩).splitOn '\n' =
        before ++ numbered width true (number + 1) content :: caret width column :: after ∧
      (∀ row ∈ before, isMarked row = false) ∧ ∀ row ∈ after, isMarked row = false := by
  obtain ⟨hlt, -⟩ := List.getElem?_eq_some_iff.mp h
  have hinside : ¬ (number + 1 = 0 ∨ (Text.shownLines source).length < number + 1) := by omega
  rw [excerpt_eq, if_neg hinside]
  simp only
  generalize hlast : min (Text.shownLines source).length (number + 1 + radius) = last
  generalize hfirst : max 1 (number + 1 - radius) = first
  generalize hcontents : ((Text.shownLines source).take last).drop (first - 1) = contents
  have hat : contents[number + 1 - first]? = some content := by
    have hplace : first - 1 + (number + 1 - first) = number := by omega
    rw [← hcontents, List.getElem?_drop, hplace, List.getElem?_take_of_lt (by omega), h]
  have hfeed : ∀ content ∈ contents, '\n' ∉ content := by
    intro content hmem
    rw [← hcontents] at hmem
    exact not_feed_of_mem_shownLines (List.mem_of_mem_take (List.mem_of_mem_drop hmem))
  have hne : contents ≠ [] := by
    rintro rfl
    cases hat
  obtain ⟨before, after, hrows, hbefore, hafter⟩ :=
    exists_rows (Text.decimal last).length column hat (by omega)
  refine ⟨(Text.decimal last).length, before, after, length_decimal_le (by omega), ?_, hbefore,
    hafter⟩
  rw [List.splitOn_intercalate _ (fun row hrow => not_feed_rows hfeed hrow) (rows_ne_nil hne),
    hrows]

theorem filter_isMarked {before after : List (List Char)} (width column number : Nat)
    (content : List Char) (hbefore : ∀ row ∈ before, isMarked row = false)
    (hafter : ∀ row ∈ after, isMarked row = false) :
    (before ++ numbered width true number content :: caret width column :: after).filter isMarked =
      [numbered width true number content] := by
  have hnone {others : List (List Char)} (h : ∀ row ∈ others, isMarked row = false) :
      others.filter isMarked = [] := List.filter_eq_nil_iff.mpr fun row hrow => by simp [h row hrow]
  rw [List.filter_append, hnone hbefore, List.nil_append,
    List.filter_cons_of_pos (isMarked_numbered ..),
    List.filter_cons_of_neg (by simp [isMarked_caret]), hnone hafter]

/-- The excerpt for an offset shows its place exactly if the shown line with its number is the
line around it. -/
theorem showsPlace_iff_getElem? (source : List Char) (offset : Nat) :
    ShowsPlace source offset ↔
      (Text.shownLines source)[(source.take offset).count '\n']? =
        some (Text.lineAround source offset) := by
  obtain ⟨column, hlocation⟩ : ∃ column, Text.locate source offset =
      ⟨(source.take offset).count '\n' + 1, column⟩ := ⟨_, rfl⟩
  rw [ShowsPlace, hlocation]
  simp only
  constructor
  · rintro ⟨lead, -, marked, hlead, -, -, rfl, hmarked, -⟩
    cases hcontent : (Text.shownLines source)[(source.take offset).count '\n']? with
    | none =>
      have hlength := List.getElem?_eq_none_iff.mp hcontent
      rw [excerpt_eq, if_pos (.inr (Nat.lt_succ_of_le hlength))] at hmarked
      cases hmarked
    | some content =>
      obtain ⟨width, before, after, hwidth, hshown, hbefore, hafter⟩ :=
        exists_shown column hcontent
      obtain ⟨lead', hnumbered, hlead', -⟩ := numbered_eq width _ content hwidth
      rw [hshown, filter_isMarked _ _ _ _ hbefore hafter, hnumbered] at hmarked
      rw [hlead'.append_inj hlead (List.singleton_injective hmarked)]
  · intro hcontent
    obtain ⟨width, before, after, hwidth, hshown, hbefore, hafter⟩ :=
      exists_shown column hcontent
    obtain ⟨lead, hnumbered, hlead, hlength⟩ :=
      numbered_eq width _ (Text.lineAround source offset) hwidth
    rw [hshown, filter_isMarked _ _ _ _ hbefore hafter, hnumbered]
    refine ⟨lead, List.replicate (width + 2) ' ' ++ [' ', '|', ' '], _, hlead, ?_, ?_, rfl, rfl,
      before, after, ?_⟩
    · rw [hlength]
      simp
    · simp
    · simp [caret]

/-- After a line feed at the end nothing is shown. -/
example : ¬ ShowsPlace ['1', ' ', '+', '\n'] 4 := by
  rw [showsPlace_iff_getElem?]
  decide

/-- The excerpt for an offset shows its place exactly if the line of the offset is where line feeds
say it is, or another with the same text is. -/
theorem showsPlace_iff (source : List Char) (offset : Nat) :
    ShowsPlace source offset ↔ Text.OnOwnLine source offset ∨ Text.OnTwinLine source offset := by
  rw [showsPlace_iff_getElem?, Text.getElem?_shownLines_iff]

end GatedExpr.Excerpt
