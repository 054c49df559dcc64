import Mathlib.Algebra.Order.Group.Int
import GatedExpr.Grammar.Cursor
import GatedExpr.Proofs.Grammar.Ways

/-! # Progress of a cursor

Reading moves a cursor on within its source, and going back only takes the position along. The
furthest offset never shrinks, covers every position that was reached and stays in the source.
-/

namespace GatedExpr

namespace Cursor

/-- The cursor stands in its source or at its end. -/
structure InSource (cursor : Cursor) : Prop where
  nonneg : 0 ≤ cursor.position
  le_length : cursor.position ≤ cursor.source.length

/-- What reading from `start` may make of the cursor. -/
structure Progress (start next : Cursor) : Prop where
  source_eq : next.source = start.source
  forward : start.position ≤ next.position
  inside : next.position ≤ start.source.length
  furthest_le : start.furthest ≤ next.furthest
  furthest_covers : start.position ≤ start.furthest → next.position ≤ next.furthest
  furthest_inside :
    start.furthest ≤ start.source.length → next.furthest ≤ start.source.length

theorem inSource_start (source : List Char) : (start source 0).InSource :=
  ⟨le_rfl, by simp [start]⟩

theorem offset_eq {cursor : Cursor} (h : cursor.InSource) :
    Text.offset cursor.source.length cursor.position = cursor.position.toNat := by
  have := h.nonneg
  have := h.le_length
  unfold Text.offset
  split <;> omega

theorem rest_eq_drop {cursor : Cursor} (h : cursor.InSource) :
    cursor.rest = cursor.source.drop cursor.position.toNat := by
  rw [cursor.rest_eq, offset_eq h]

theorem length_rest {cursor : Cursor} (h : cursor.InSource) :
    (cursor.rest.length : Int) = cursor.source.length - cursor.position := by
  have := h.nonneg
  have := h.le_length
  rw [rest_eq_drop h, List.length_drop]
  omega

namespace Progress

variable {start next last : Cursor}

theorem inSource (h : Progress start next) (hs : start.InSource) : next.InSource :=
  ⟨hs.nonneg.trans h.forward, h.source_eq ▸ h.inside⟩

theorem refl (h : start.InSource) : Progress start start :=
  ⟨rfl, le_rfl, h.le_length, le_rfl, id, id⟩

theorem trans (h : Progress start next) (h' : Progress next last) : Progress start last where
  source_eq := h'.source_eq.trans h.source_eq
  forward := h.forward.trans h'.forward
  inside := h.source_eq ▸ h'.inside
  furthest_le := h.furthest_le.trans h'.furthest_le
  furthest_covers hc := h'.furthest_covers (h.furthest_covers hc)
  furthest_inside hi := by
    have := h'.furthest_inside (h.source_eq ▸ h.furthest_inside hi)
    rwa [h.source_eq] at this

/-- Going back keeps what has been learnt about the furthest offset. -/
theorem rewind (h : Progress start next) : Progress start (start.rewind next) where
  source_eq := rfl
  forward := le_rfl
  inside := h.forward.trans h.inside
  furthest_le := h.furthest_le
  furthest_covers hc := hc.trans h.furthest_le
  furthest_inside := h.furthest_inside

end Progress

theorem progress_touch {cursor : Cursor} (h : cursor.InSource) :
    Progress cursor cursor.touch where
  source_eq := rfl
  forward := le_rfl
  inside := h.le_length
  furthest_le := le_max_left _ _
  furthest_covers _ := le_max_right _ _
  furthest_inside hi := max_le hi h.le_length

theorem progress_advance {cursor : Cursor} (h : cursor.InSource) {length : Nat}
    (hl : length ≤ cursor.rest.length) : Progress cursor (cursor.advance length) := by
  have hlen := length_rest h
  rw [advance, dif_pos h.nonneg]
  exact
    { source_eq := rfl
      forward := by simp [touch]
      inside := by simp only [touch]; omega
      furthest_le := le_max_left _ _
      furthest_covers := fun _ => le_max_right _ _
      furthest_inside := fun hi => max_le hi (by simp only; omega) }

theorem clamp_eq {cursor : Cursor} (h : cursor.InSource) : cursor.clamp = cursor := by
  rw [clamp, if_neg (not_lt.mpr h.nonneg), min_eq_left h.le_length]
  split
  · cases cursor with
    | mk source position furthest rest rest_eq => simp [moveTo, rest_eq]
  · rfl

theorem ahead_eq {cursor : Cursor} (h : cursor.InSource) : cursor.ahead = cursor.rest := by
  rw [ahead, if_neg (not_lt.mpr h.nonneg)]

theorem progress_readLiteral {cursor : Cursor} (h : cursor.InSource) (text : List Char) :
    Progress cursor (cursor.readLiteral text).2 := by
  rw [readLiteral]
  split
  · next hs =>
    rw [startsWith, Bool.and_eq_true, List.isPrefixOf_iff_prefix] at hs
    exact progress_advance h hs.1.length_le
  · exact progress_touch h

theorem position_readLiteral {cursor : Cursor} {text : List Char}
    (h : (cursor.readLiteral text).1 = false) :
    (cursor.readLiteral text).2.position = cursor.position := by
  rw [readLiteral] at h ⊢
  split
  · next hs => simp [hs] at h
  · rfl

theorem progress_readPattern {cursor : Cursor} (h : cursor.InSource) (pattern : Pattern) :
    Progress cursor (cursor.readPattern pattern).2 := by
  rw [readPattern, clamp_eq h]
  cases hm : pattern.match? cursor.rest with
  | none => exact progress_touch h
  | some way => exact progress_advance h (Pattern.reads_of_match? hm).length_le

theorem position_readPattern {cursor : Cursor} {pattern : Pattern}
    (h : (cursor.readPattern pattern).1 = none) :
    (cursor.readPattern pattern).2.position = cursor.position := by
  rw [readPattern] at h ⊢
  cases hm : pattern.match? cursor.clamp.rest with
  | none => rfl
  | some way => simp [hm] at h

/-! ## What is read -/

theorem rest_advance {cursor : Cursor} (h : cursor.InSource) (length : Nat) :
    (cursor.advance length).rest = cursor.rest.drop length := by
  rw [advance, dif_pos h.nonneg]
  rfl

theorem inSource_rewind {cursor later : Cursor} (h : cursor.InSource) :
    (cursor.rewind later).InSource :=
  ⟨h.nonneg, h.le_length⟩

@[simp] theorem rest_rewind (cursor later : Cursor) : (cursor.rewind later).rest = cursor.rest :=
  rfl

/-- Reading a text that comes next. -/
theorem readLiteral_eq_true {cursor next : Cursor} {text : List Char} (h : cursor.InSource)
    (hr : cursor.readLiteral text = (true, next)) :
    next.InSource ∧ cursor.rest = text ++ next.rest := by
  have hp := (progress_readLiteral h text).inSource h
  rw [hr] at hp
  refine ⟨hp, ?_⟩
  rw [readLiteral] at hr
  split at hr
  · next hs =>
    rw [startsWith, Bool.and_eq_true, List.isPrefixOf_iff_prefix] at hs
    cases hr
    rw [rest_advance h]
    obtain ⟨⟨more, hmore⟩, _⟩ := hs
    rw [← hmore, List.drop_left]
  · cases hr

/-- Reading what a pattern matches next. -/
theorem readPattern_eq_some {cursor next : Cursor} {pattern : Pattern} {raw : List Char}
    (h : cursor.InSource) (hr : cursor.readPattern pattern = (some raw, next)) :
    next.InSource ∧ cursor.rest = raw ++ next.rest ∧
      pattern.match? (raw ++ next.rest) = some ⟨raw.length, next.rest⟩ := by
  have hp := (progress_readPattern h pattern).inSource h
  rw [hr] at hp
  refine ⟨hp, ?_⟩
  rw [readPattern, clamp_eq h] at hr
  cases hm : pattern.match? cursor.rest with
  | none => simp [hm] at hr
  | some way =>
    rw [hm] at hr
    cases hr
    have hreads := Pattern.reads_of_match? hm
    rw [rest_advance h, List.take_append_drop, hm, List.length_take_of_le hreads.length_le,
      ← hreads.rest_eq]
    exact ⟨rfl, rfl⟩

end Cursor

end GatedExpr
