import GatedExpr.Builtin.Library

/-! # Slices

A slice of a list or text has the items between two places. Negative offsets count from the end,
and places beyond either end are cut to it, so that no place is outside and cutting at one place
leaves two slices that make up the whole. What lies between two offsets of a text, in whichever
order they come, is the slice between them where neither is negative.
-/

namespace GatedExpr

namespace Text

variable {α : Type}

/-- The place among `length` items that an offset stands for. -/
def place (length : Nat) (i : Int) : Int :=
  if i < 0 then max (length + i) 0 else min i length

/-- The items whose indices are `first` or more and less than `last`. -/
def itemsBetween (first last : Int) (items : List α) : List α :=
  (items.zipIdx.filter fun entry => first ≤ entry.2 ∧ entry.2 < last).map (·.1)

theorem place_inside (length : Nat) (i : Int) : 0 ≤ place length i ∧ place length i ≤ length := by
  rw [place]
  split <;> omega

/-- Taking and dropping leaves exactly the items with the indices in between, from whatever number
on the items are counted. -/
theorem filter_zipIdx (items : List α) (first last n : Nat) :
    ((items.zipIdx n).filter fun entry =>
        (first : Int) ≤ entry.2 ∧ (entry.2 : Int) < last).map (·.1) =
      (items.take (last - n)).drop (first - n) := by
  induction items generalizing n with
  | nil => simp
  | cons item items ih =>
    rw [List.zipIdx_cons, List.filter_cons]
    rcases Nat.lt_or_ge n last with hlast | hlast
    · rw [show last - n = last - (n + 1) + 1 by omega, List.take_succ_cons]
      rcases Nat.lt_or_ge n first with hfirst | hfirst
      · rw [if_neg (by simp; omega), ih, show first - n = first - (n + 1) + 1 by omega,
          List.drop_succ_cons]
      · rw [if_pos (by simp; omega), List.map_cons, ih, Nat.sub_eq_zero_of_le hfirst,
          Nat.sub_eq_zero_of_le (by omega : first ≤ n + 1)]
        rfl
    · rw [if_neg (by simp; omega), ih, Nat.sub_eq_zero_of_le hlast,
        Nat.sub_eq_zero_of_le (by omega : last ≤ n + 1)]
      simp

theorem itemsBetween_natCast (first last : Nat) (items : List α) :
    itemsBetween first last items = (items.take last).drop first :=
  filter_zipIdx items first last 0

theorem itemsBetween_eq_nil {first last : Int} (h : last ≤ first) (items : List α) :
    itemsBetween first last items = [] := by
  rw [itemsBetween, List.map_eq_nil_iff, List.filter_eq_nil_iff]
  intro entry _
  rw [decide_eq_true_eq]
  omega

end Text

namespace Builtin

open Text (place itemsBetween)

theorem natCast_clampFromEnd (i : Int) (length : Nat) :
    (clampFromEnd i length : Int) = place length i := by
  have hmin : clampFromEnd i length = Min.min (Text.offset length i) length := rfl
  rw [hmin, Text.offset, place]
  split <;> omega

theorem clampFromEnd_zero (length : Nat) : clampFromEnd 0 length = 0 :=
  Nat.zero_min length

theorem clampFromEnd_of_nonneg {i : Int} (h : 0 ≤ i) (length : Nat) :
    clampFromEnd i length = clamp i length := by
  rw [clampFromEnd, Text.offset, if_neg (by omega), clamp]

theorem clamp_le (i : Int) (length : Nat) : clamp i length ≤ length :=
  Nat.min_le_right _ _

theorem clamp_le_clamp {i j : Int} (h : i ≤ j) (length : Nat) :
    clamp i length ≤ clamp j length := by
  have hmin (k : Int) : clamp k length = Min.min k.toNat length := rfl
  rw [hmin, hmin]
  omega

variable {α : Type}

theorem between_clampFromEnd (i j : Int) (items : List α) :
    between (clampFromEnd i items.length) (clampFromEnd j items.length) items =
      itemsBetween (place items.length i) (place items.length j) items := by
  rw [← natCast_clampFromEnd, ← natCast_clampFromEnd, Text.itemsBetween_natCast]
  rfl

/-- Cutting at a place leaves what is before it and what is from it on. -/
theorem between_append_between (n : Nat) (items : List α) :
    between 0 n items ++ between n items.length items = items := by
  rw [between, between, List.drop_zero, List.take_length, List.take_append_drop]

/-- What slicing some items comes to, where `make` makes a value of the items of a slice. -/
structure SlicesBy (slice : List Value → Eval Value) (items : List α)
    (make : List α → Eval Value) : Prop where
  stretch : ∀ (i j : Int) (a b : Identity),
    slice [.number a (.int i), .number b (.int j)] =
      make (itemsBetween (place items.length i) (place items.length j) items)
  empty : ∀ (i j : Int) (a b : Identity), place items.length j ≤ place items.length i →
    slice [.number a (.int i), .number b (.int j)] = make []
  /-- The slice up to an offset and the slice from it on make up the whole. -/
  halves : ∀ (i : Int) (a b c : Identity), ∃ before after,
    slice [.number a (.int 0), .number b (.int i)] = make before ∧
      slice [.number c (.int i)] = make after ∧ before ++ after = items

theorem slicesBy {slice : List Value → Eval Value} {items : List α} {make : List α → Eval Value}
    (hstretch : ∀ (i j : Int) (a b : Identity),
      slice [.number a (.int i), .number b (.int j)] =
        make (between (clampFromEnd i items.length) (clampFromEnd j items.length) items))
    (hrest : ∀ (i : Int) (a : Identity), slice [.number a (.int i)] =
      make (between (clampFromEnd i items.length) items.length items)) :
    SlicesBy slice items make where
  stretch i j a b := by rw [hstretch, between_clampFromEnd]
  empty i j a b h := by rw [hstretch, between_clampFromEnd, Text.itemsBetween_eq_nil h]
  halves i a b c := by
    refine ⟨_, _, hstretch 0 i a b, hrest i c, ?_⟩
    rw [clampFromEnd_zero, between_append_between]

end Builtin

namespace Library

open Builtin (SlicesBy between clamp clampFromEnd ofChars)
open Text (place itemsBetween)

theorem slicesBy_text (s : String) :
    SlicesBy (fun arguments => slice.apply (.text s :: arguments)) s.toList
      fun part => pure (ofChars part) :=
  Builtin.slicesBy (fun _ _ _ _ => rfl) (fun _ _ => rfl)

theorem slicesBy_list (id : Identity) (items : List Value) :
    SlicesBy (fun arguments => slice.apply (.list id items :: arguments)) items Eval.newList :=
  Builtin.slicesBy (fun _ _ _ _ => rfl) (fun _ _ => rfl)

theorem substring_text (s : String) (i j : Int) (a b : Identity) :
    substring.apply [.text s, .number a (.int i), .number b (.int j)] =
      pure (ofChars (between (min (clamp i s.length) (clamp j s.length))
        (max (clamp i s.length) (clamp j s.length)) s.toList)) :=
  rfl

theorem slice_text (s : String) (i j : Int) (a b : Identity) :
    slice.apply [.text s, .number a (.int i), .number b (.int j)] =
      pure (ofChars (between (clampFromEnd i s.length) (clampFromEnd j s.length) s.toList)) :=
  rfl

/-- A slice of a text or list has the items whose indices lie between two places, none of which is
outside, and the slices before and from one place make up the whole. What lies between two offsets
of a text does not depend on their order, and is the slice between them if neither is negative. -/
theorem slice_laws :
    (∀ s : String, SlicesBy (fun arguments => slice.apply (.text s :: arguments)) s.toList
      fun part => pure (ofChars part)) ∧
    (∀ (id : Identity) (items : List Value),
      SlicesBy (fun arguments => slice.apply (.list id items :: arguments)) items Eval.newList) ∧
    (∀ (length : Nat) (i : Int), 0 ≤ place length i ∧ place length i ≤ length) ∧
    ∀ (s : String) (i j : Int) (a b : Identity),
      substring.apply [.text s, .number a (.int i), .number b (.int j)] =
          substring.apply [.text s, .number b (.int j), .number a (.int i)] ∧
        (∃ first last : Nat, first ≤ last ∧ last ≤ s.length ∧
          substring.apply [.text s, .number a (.int i), .number b (.int j)] =
            pure (ofChars (itemsBetween first last s.toList))) ∧
        (0 ≤ i → i ≤ j →
          substring.apply [.text s, .number a (.int i), .number b (.int j)] =
            slice.apply [.text s, .number a (.int i), .number b (.int j)]) := by
  refine ⟨slicesBy_text, slicesBy_list, Text.place_inside, fun s i j a b => ⟨?_, ?_, ?_⟩⟩
  · rw [substring_text, substring_text, Nat.min_comm, Nat.max_comm]
  · have hi := Builtin.clamp_le i s.length
    have hj := Builtin.clamp_le j s.length
    refine ⟨min (clamp i s.length) (clamp j s.length), max (clamp i s.length) (clamp j s.length),
      by omega, by omega, ?_⟩
    rw [substring_text, Text.itemsBetween_natCast]
    rfl
  · intro hi hij
    have hle := Builtin.clamp_le_clamp hij s.length
    rw [substring_text, slice_text, Builtin.clampFromEnd_of_nonneg hi,
      Builtin.clampFromEnd_of_nonneg (Int.le_trans hi hij), Nat.min_eq_left hle,
      Nat.max_eq_right hle]

/-- The end may lie beyond the text, and a slice may begin where it ends. -/
theorem slice_laws_beyond :
    (0 ≤ (1 : Int) ∧ (1 : Int) ≤ 7 ∧ place "abc".toList.length (-2) ≤ place "abc".toList.length 1) ∧
      substring.apply [.text "abc", .number 1 (.int 1), .number 2 (.int 7)] =
        slice.apply [.text "abc", .number 1 (.int 1), .number 2 (.int 7)] ∧
      slice.apply [.text "abc", .number 1 (.int 1), .number 2 (.int (-2))] = pure (ofChars []) := by
  have hempty : place "abc".toList.length (-2) ≤ place "abc".toList.length 1 := by decide
  refine ⟨⟨by decide, by decide, hempty⟩, ?_, ?_⟩
  · exact (slice_laws.2.2.2 "abc" 1 7 1 2).2.2 (by decide) (by decide)
  · exact (slice_laws.1 "abc").empty 1 (-2) 1 2 hempty

end Library

end GatedExpr
