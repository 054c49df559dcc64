/-! # Searching in texts

Everything rests on `breakOn?`, which cuts a text around the first occurrence of another.
-/

namespace GatedExpr.Text

/-- What stands before and after the first occurrence of `part`. -/
def breakOn? (part : List Char) : List Char → Option (List Char × List Char)
  | [] => if part.isEmpty then some ([], []) else none
  | c :: rest =>
    if part.isPrefixOf (c :: rest) then some ([], (c :: rest).drop part.length)
    else (breakOn? part rest).map fun (before, after) => (c :: before, after)

theorem length_breakOn? {part text before after : List Char}
    (h : breakOn? part text = some (before, after)) :
    before.length + part.length + after.length = text.length := by
  induction text generalizing before after with
  | nil =>
    simp only [breakOn?] at h
    split at h <;> simp_all
  | cons c rest ih =>
    simp only [breakOn?] at h
    split at h
    · rename_i hp
      have hle : part.length ≤ (c :: rest).length := (List.isPrefixOf_iff_prefix.1 hp).length_le
      simp only [Option.some.injEq, Prod.mk.injEq] at h
      rw [← h.1, ← h.2, List.length_drop]
      simp only [List.length_nil]
      omega
    · rw [Option.map_eq_some_iff] at h
      obtain ⟨⟨b, a⟩, hb, heq⟩ := h
      simp only [Prod.mk.injEq] at heq
      have := ih hb
      rw [← heq.1, ← heq.2]
      simp only [List.length_cons]
      omega

/-- The offset of the first occurrence of `part`. -/
def find? (part text : List Char) : Option Nat :=
  (breakOn? part text).map (·.1.length)

/-- Whether `part` occurs in `text`. -/
def occursIn (part text : List Char) : Bool :=
  (breakOn? part text).isSome

/-- Replaces the first occurrence of `old`. -/
def replaceFirst (old new text : List Char) : List Char :=
  match breakOn? old text with
  | some (before, after) => before ++ new ++ after
  | none => text

/-- The pieces between the occurrences of a separator, which must not be empty. -/
def splitOn (separator : List Char) (nonempty : separator ≠ []) (text : List Char) :
    List (List Char) :=
  match _h : breakOn? separator text with
  | some (before, after) => before :: splitOn separator nonempty after
  | none => [text]
termination_by text.length
decreasing_by
  have := length_breakOn? _h
  have := List.length_pos_iff.2 nonempty
  omega

/-- What stands before the first `mark` and after it, and whether there is one. -/
def cutAt (mark : Char) (text : List Char) : List Char × Bool × List Char :=
  match breakOn? [mark] text with
  | some (before, after) => (before, true, after)
  | none => (text, false, [])

end GatedExpr.Text
