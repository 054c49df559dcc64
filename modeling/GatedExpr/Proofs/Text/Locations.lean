import Mathlib
import GatedExpr.Proofs.Text.Lines

/-! # Locations as positions of a text

The offsets of a text and its locations, a line between line feeds and a column of it, are the same
positions in the same order. Both are followed along the text: one more character in front of it
moves every offset by one, and the locations by a line or a column.
-/

namespace GatedExpr.Text

/-- The offset at which a line starts, the lines before it having one line feed each. -/
def lineStart (source : List Char) (line : Nat) : Nat :=
  (((source.splitOn '\n').take (line - 1)).map (·.length + 1)).sum

namespace Location

/-- The order of locations in a text. -/
def Before (location other : Location) : Prop :=
  location.line < other.line ∨ location.line = other.line ∧ location.column < other.column

theorem Before.asymm {a b : Location} (hab : a.Before b) (hba : b.Before a) : False := by
  unfold Before at hab hba
  omega

/-- The offset of a location. -/
def offset (source : List Char) (location : Location) : Nat :=
  lineStart source location.line + (location.column - 1)

/-- Whether a text has a location: one of the lines between its line feeds, and a column of it or
the one behind it. -/
structure IsWithin (source : List Char) (location : Location) : Prop where
  one_le_line : 1 ≤ location.line
  one_le_column : 1 ≤ location.column
  exists_line : ∃ text, (source.splitOn '\n')[location.line - 1]? = some text ∧
    location.column ≤ text.length + 1

/-- Where a location comes to be when a character is put in front of the text. -/
def behind (c : Char) (location : Location) : Location :=
  if c = '\n' then ⟨location.line + 1, location.column⟩
  else if location.line = 1 then ⟨1, location.column + 1⟩
  else location

end Location

open Location

variable {source : List Char} {location : Location} {c : Char} {p q line : Nat}

/-! ## Lines with one character more in front -/

theorem splitOn_cons_feed (source : List Char) :
    ('\n' :: source).splitOn '\n' = [] :: source.splitOn '\n' := by
  rw [List.splitOn_eq_splitOnP, List.splitOn_eq_splitOnP,
    List.splitOnP_cons_eq_if_modifyHead, if_pos (by decide)]

theorem exists_splitOn_cons (source : List Char) (hc : c ≠ '\n') : ∃ text texts,
    source.splitOn '\n' = text :: texts ∧ (c :: source).splitOn '\n' = (c :: text) :: texts := by
  obtain ⟨text, texts, hlines⟩ :=
    List.exists_cons_of_ne_nil (List.splitOn_ne_nil '\n' source)
  refine ⟨text, texts, hlines, ?_⟩
  rw [List.splitOn_eq_splitOnP] at hlines ⊢
  rw [List.splitOnP_cons_eq_if_modifyHead, if_neg (by simpa using hc), hlines]
  rfl

theorem lineStart_one (source : List Char) : lineStart source 1 = 0 :=
  rfl

theorem lineStart_cons_feed (source : List Char) (hline : 1 ≤ line) :
    lineStart ('\n' :: source) (line + 1) = lineStart source line + 1 := by
  obtain ⟨k, rfl⟩ := Nat.exists_eq_add_of_le' hline
  simp [lineStart, splitOn_cons_feed, Nat.add_comm]

theorem lineStart_cons (source : List Char) (hc : c ≠ '\n') (hline : 2 ≤ line) :
    lineStart (c :: source) line = lineStart source line + 1 := by
  obtain ⟨k, rfl⟩ := Nat.exists_eq_add_of_le' hline
  obtain ⟨text, texts, hlines, hmore⟩ := exists_splitOn_cons source hc
  simp [lineStart, hlines, hmore]
  omega

/-! ## Locations with one character more in front -/

namespace Location

theorem isWithin_start (source : List Char) : IsWithin source ⟨1, 1⟩ := by
  obtain ⟨text, texts, hlines⟩ :=
    List.exists_cons_of_ne_nil (List.splitOn_ne_nil '\n' source)
  exact ⟨le_rfl, le_rfl, text, by rw [hlines]; rfl, by simp⟩

theorem behind_feed (location : Location) :
    location.behind '\n' = ⟨location.line + 1, location.column⟩ :=
  if_pos rfl

theorem behind_first (hc : c ≠ '\n') (column : Nat) :
    (⟨1, column⟩ : Location).behind c = ⟨1, column + 1⟩ := by
  rw [behind, if_neg hc, if_pos rfl]

theorem behind_later (hc : c ≠ '\n') (h : location.line ≠ 1) : location.behind c = location := by
  rw [behind, if_neg hc, if_neg h]

theorem IsWithin.behind (h : IsWithin source location) (c : Char) :
    IsWithin (c :: source) (location.behind c) := by
  obtain ⟨line, column⟩ := location
  obtain ⟨hline, hcolumn, text, htext, hfits⟩ := h
  obtain ⟨k, rfl : line = k + 1⟩ := Nat.exists_eq_add_of_le' hline
  by_cases hc : c = '\n'
  · subst hc
    rw [behind_feed]
    exact ⟨by simp, hcolumn, text, by rwa [splitOn_cons_feed], hfits⟩
  · obtain ⟨first, texts, hlines, hmore⟩ := exists_splitOn_cons source hc
    rw [hlines] at htext
    cases k with
    | zero =>
      obtain rfl : first = text := by simpa using htext
      rw [behind_first hc]
      exact ⟨le_rfl, by simp, c :: first, by rw [hmore]; rfl, by simpa using hfits⟩
    | succ k =>
      rw [behind_later hc (by simp)]
      exact ⟨hline, hcolumn, text, by rw [hmore]; simpa using htext, hfits⟩

theorem IsWithin.offset_behind (h : IsWithin source location) (c : Char) :
    (location.behind c).offset (c :: source) = location.offset source + 1 := by
  obtain ⟨line, column⟩ := location
  obtain ⟨hline : 1 ≤ line, hcolumn : 1 ≤ column, -⟩ := h
  by_cases hc : c = '\n'
  · subst hc
    rw [behind_feed, offset, offset, lineStart_cons_feed source hline]
    dsimp only
    omega
  · rcases eq_or_ne line 1 with rfl | hfirst
    · rw [behind_first hc, offset, offset, lineStart_one, lineStart_one]
      dsimp only
      omega
    · have hstart := lineStart_cons source hc (show 2 ≤ line by omega)
      rw [behind_later hc hfirst, offset, offset, hstart]
      dsimp only
      omega

theorem IsWithin.eq_start (h : IsWithin [] location) : location = ⟨1, 1⟩ := by
  obtain ⟨line, column⟩ := location
  obtain ⟨hline, hcolumn, text, htext, hfits⟩ := h
  obtain ⟨k, rfl : line = k + 1⟩ := Nat.exists_eq_add_of_le' hline
  cases k with
  | zero =>
    obtain rfl : [] = text := by simpa using htext
    obtain rfl : column = 1 := Nat.le_antisymm hfits hcolumn
    rfl
  | succ k => simp at htext

/-- Besides its start, a text has the locations that come to be by its first character. -/
theorem IsWithin.eq_start_or_behind (h : IsWithin (c :: source) location) :
    location = ⟨1, 1⟩ ∨ ∃ earlier, IsWithin source earlier ∧ earlier.behind c = location := by
  obtain ⟨line, column⟩ := location
  obtain ⟨hline, hcolumn, text, htext, hfits⟩ := h
  obtain ⟨k, rfl : line = k + 1⟩ := Nat.exists_eq_add_of_le' hline
  obtain ⟨m, rfl : column = m + 1⟩ := Nat.exists_eq_add_of_le' hcolumn
  by_cases hc : c = '\n'
  · subst hc
    rw [splitOn_cons_feed] at htext
    cases k with
    | zero =>
      obtain rfl : [] = text := by simpa using htext
      obtain rfl : m = 0 := by simpa using hfits
      exact .inl rfl
    | succ k =>
      exact .inr ⟨⟨k + 1, m + 1⟩, ⟨by simp, hcolumn, text, by simpa using htext, hfits⟩,
        behind_feed _⟩
  · obtain ⟨first, texts, hlines, hmore⟩ := exists_splitOn_cons source hc
    rw [hmore] at htext
    cases k with
    | zero =>
      obtain rfl : c :: first = text := by simpa using htext
      cases m with
      | zero => exact .inl rfl
      | succ m =>
        exact .inr ⟨⟨1, m + 1⟩, ⟨le_rfl, by simp, first, by rw [hlines]; rfl,
          by simpa using hfits⟩, behind_first hc _⟩
    | succ k =>
      exact .inr ⟨⟨k + 1 + 1, m + 1⟩, ⟨hline, hcolumn, text, by rw [hlines]; simpa using htext,
        hfits⟩, behind_later hc (by simp)⟩

end Location

/-! ## The location of an offset -/

theorem lastLine_of_not_mem {text : List Char} (h : '\n' ∉ text) : lastLine text = text := by
  have hall : ∀ d ∈ text.reverse, decide (d ≠ '\n') = true := fun d hd => by
    have hd : d ∈ text := List.mem_reverse.mp hd
    simpa using ne_of_mem_of_not_mem hd h
  rw [lastLine, List.takeWhile_eq_self_iff.mpr hall, List.reverse_reverse]

theorem lastLine_append_feed (before after : List Char) :
    lastLine (before ++ '\n' :: after) = lastLine after := by
  have hreverse : (before ++ '\n' :: after).reverse = after.reverse ++ '\n' :: before.reverse := by
    simp
  have hfeed : ('\n' :: before.reverse).takeWhile (fun c => decide (c ≠ '\n')) = [] :=
    List.takeWhile_cons_of_neg (by decide)
  rw [lastLine, hreverse, List.takeWhile_append, hfeed, List.append_nil, lastLine]
  split_ifs with hlength
  · rw [(List.takeWhile_prefix _).eq_of_length hlength]
  · rfl

theorem locationAfter_cons (c : Char) (text : List Char) :
    locationAfter (c :: text) = (locationAfter text).behind c := by
  by_cases hmem : '\n' ∈ text
  · have hlast : lastLine (c :: text) = lastLine text := by
      obtain ⟨before, after, rfl⟩ := List.append_of_mem hmem
      rw [← List.cons_append, lastLine_append_feed, lastLine_append_feed]
    by_cases hc : c = '\n'
    · subst hc
      rw [behind_feed, locationAfter, locationAfter, hlast, List.count_cons_self]
    · have hcount : 0 < text.count '\n' := List.count_pos_iff.mpr hmem
      have hlater : (locationAfter text).line ≠ 1 := Nat.ne_of_gt (Nat.succ_lt_succ hcount)
      rw [behind_later hc hlater, locationAfter, locationAfter, hlast, List.count_cons_of_ne hc]
  · have hcount : text.count '\n' = 0 := List.count_eq_zero.mpr hmem
    by_cases hc : c = '\n'
    · subst hc
      have hlast := lastLine_append_feed [] text
      rw [behind_feed, locationAfter, locationAfter, List.count_cons_self, ← hlast,
        List.nil_append]
    · have hmore : '\n' ∉ c :: text := by simpa [Ne.symm hc] using hmem
      rw [locationAfter, locationAfter, lastLine_of_not_mem hmore, lastLine_of_not_mem hmem,
        List.count_cons_of_ne hc, hcount, behind_first hc, List.length_cons]

theorem locate_cons (c : Char) (source : List Char) (p : Nat) :
    locate (c :: source) (p + 1 : Nat) = (locate source p).behind c := by
  rw [locate, locate, Int.toNat_natCast, Int.toNat_natCast, List.take_succ_cons,
    locationAfter_cons]

theorem isWithin_locate (hp : p ≤ source.length) : IsWithin source (locate source p) := by
  induction source generalizing p with
  | nil =>
    obtain rfl : p = 0 := by simpa using hp
    exact isWithin_start []
  | cons c source ih =>
    cases p with
    | zero => exact isWithin_start (c :: source)
    | succ p =>
      rw [locate_cons]
      exact (ih (by simpa using hp)).behind c

theorem offset_locate (hp : p ≤ source.length) : (locate source p).offset source = p := by
  induction source generalizing p with
  | nil =>
    obtain rfl : p = 0 := by simpa using hp
    rfl
  | cons c source ih =>
    cases p with
    | zero => rfl
    | succ p =>
      have hp' : p ≤ source.length := by simpa using hp
      rw [locate_cons, (isWithin_locate hp').offset_behind, ih hp']

theorem exists_locate (h : IsWithin source location) :
    ∃ p : Nat, p ≤ source.length ∧ locate source p = location := by
  induction source generalizing location with
  | nil =>
    exact ⟨0, le_rfl, h.eq_start.symm⟩
  | cons c source ih =>
    rcases h.eq_start_or_behind with rfl | ⟨earlier, hearlier, rfl⟩
    · exact ⟨0, Nat.zero_le _, rfl⟩
    · obtain ⟨p, hp, rfl⟩ := ih hearlier
      exact ⟨p + 1, Nat.succ_le_succ hp, locate_cons c source p⟩

theorem line_locate_le (source : List Char) (h : p ≤ q) :
    (locate source p).line ≤ (locate source q).line := by
  have htake : source.take p <+: source.take q := List.take_prefix_take_left h
  exact Nat.succ_le_succ (htake.sublist.count_le '\n')

/-- Within a line the columns are in the order of the offsets. -/
theorem locate_before (hpq : p < q) (hq : q ≤ source.length) :
    (locate source p).Before (locate source q) := by
  rcases (line_locate_le source hpq.le).lt_or_eq with hline | hline
  · exact .inl hline
  · have hp' := offset_locate (Nat.le_trans hpq.le hq)
    have hq' := offset_locate hq
    rw [offset] at hp' hq'
    rw [hline] at hp'
    exact .inr ⟨hline, by omega⟩

theorem locate_nearest (source : List Char) (offset : Int) :
    locate source offset = locate source (max 0 (min offset source.length)) := by
  have htake : source.take offset.toNat =
      source.take (max 0 (min offset source.length)).toNat := by
    rcases Int.le_total offset source.length with h | h
    · congr 1
      omega
    · rw [List.take_of_length_le (by omega), List.take_of_length_le (by omega)]
  rw [locate, htake, locate]

/-- The offsets of a text are its locations, in order. A location has as many lines before it as
line feeds, and its column counts from the start of its line; an offset outside the text has the
location of the nearest one inside. -/
theorem locate_positions (source : List Char) :
    (∀ p : Nat, p ≤ source.length →
      (locate source p).line - 1 = (source.take p).count '\n' ∧ 1 ≤ (locate source p).column ∧
        p = lineStart source (locate source p).line + ((locate source p).column - 1)) ∧
      (∀ p q : Nat, p ≤ source.length → q ≤ source.length →
        (p < q ↔ (locate source p).Before (locate source q))) ∧
      (∀ location, IsWithin source location ↔ ∃ p : Nat, p ≤ source.length ∧
        locate source p = location) ∧
      (∀ p : Nat, p ≤ source.length → (locate source p).offset source = p) ∧
      ∀ offset : Int, locate source offset = locate source (max 0 (min offset source.length)) := by
  refine ⟨fun p hp => ⟨rfl, (isWithin_locate hp).one_le_column, (offset_locate hp).symm⟩,
    fun p q hp hq => ⟨fun hpq => locate_before hpq hq, fun hbefore => ?_⟩,
    fun location => ⟨exists_locate, ?_⟩, fun p => offset_locate, locate_nearest source⟩
  · by_contra hqp
    rcases (Nat.not_lt.mp hqp).lt_or_eq with hlt | rfl
    · exact hbefore.asymm (locate_before hlt hp)
    · exact hbefore.asymm hbefore
  · rintro ⟨p, hp, rfl⟩
    exact isWithin_locate hp

/-- The offsets at and behind the first of two adjacent line feeds. -/
theorem locate_positions_emptyLine :
    2 = lineStart "ab\n\nc".toList 1 + 2 ∧ 3 = lineStart "ab\n\nc".toList 2 ∧
      (locate "ab\n\nc".toList 2).Before (locate "ab\n\nc".toList 3) ∧
      locate "ab\n\nc".toList 9 = locate "ab\n\nc".toList 5 := by
  obtain ⟨hplaces, horder, -, -, hnearest⟩ := locate_positions "ab\n\nc".toList
  exact ⟨(hplaces 2 (by decide)).2.2, (hplaces 3 (by decide)).2.2,
    (horder 2 3 (by decide) (by decide)).mp (by decide), hnearest 9⟩

end GatedExpr.Text
