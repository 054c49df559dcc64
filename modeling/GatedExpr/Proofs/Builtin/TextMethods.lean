import Mathlib.Data.List.Forall2
import GatedExpr.Builtin.Library
import GatedExpr.Proofs.Computation

/-! # Methods of texts

The methods of texts see receivers that are no lists, and those arguments that are meant as texts,
as their texts. Two of them look at an operand before that: a slice takes the length of a receiver
that is no text for zero, and a separator that becomes empty only as a text is refused. They are
the only ones for which it makes a difference whether an operand is replaced by its text.
-/

namespace GatedExpr

inductive TextMethod where
  | trim
  | toUpperCase
  | toLowerCase
  | startsWith
  | endsWith
  | split
  | replace
  | indexOf
  | includes
  | slice
  | substring
  | charAt
  | concat

namespace TextMethod

def function : TextMethod → Function
  | .trim => Library.trim
  | .toUpperCase => Library.toUpperCase
  | .toLowerCase => Library.toLowerCase
  | .startsWith => Library.startsWith
  | .endsWith => Library.endsWith
  | .split => Library.split
  | .replace => Library.replace
  | .indexOf => Library.indexOf
  | .includes => Library.includes
  | .slice => Library.slice
  | .substring => Library.substring
  | .charAt => Library.charAt
  | .concat => Library.concat

/-- Whether an argument is meant as a text. Null is no separator, but stands for having none. -/
def readsText : TextMethod → Value → Bool
  | .startsWith, _ | .endsWith, _ | .replace, _ | .indexOf, _ | .includes, _ | .concat, _ => true
  | .split, argument => !argument.isNull
  | _, _ => false

/-- The offsets that the arguments of a slice give. -/
def sliceOffsets? : List Value → Option (Value × Value)
  | [] => some (.int 0, .null)
  | [start] => some (start, .null)
  | [start, stop] => some (start, stop)
  | _ => none

/-- Calls that look at an operand before it has become a text: slices of what is no text, where the
text has something between the offsets, and splits at what is no text, but has the empty one. -/
inductive SeesRaw (receiver : Value) : TextMethod → List Value → Prop
  | length {arguments : List Value} {start stop : Value} {first last : Nat}
      (hreceiver : receiver.isText = false)
      (hoffsets : sliceOffsets? arguments = some (start, stop))
      (hbounds : Builtin.sliceBounds receiver.toText.length start stop = .ok (first, last))
      (hsome : first < last) : SeesRaw receiver .slice arguments
  | separator {separator : Value} (hseparator : separator.isText = false)
      (hempty : separator.toText = "") : SeesRaw receiver .split [separator]

/-- An operand stays or is replaced by its text, which is possible if it is `meant` as one. -/
def Replaced (meant : Bool) (v w : Value) : Prop :=
  w = v ∨ meant = true ∧ w = .text v.toText

/-- An argument with which the method is called as well. -/
def coerce (method : TextMethod) (argument : Value) : Value :=
  if method.readsText argument then .text argument.toText else argument

end TextMethod

theorem Value.text_ne_list {s : String} : ∀ id items, Value.text s ≠ .list id items :=
  fun _ _ => nofun

namespace Builtin

theorem indexOf?_of_not_list {receiver : Value} (h : ∀ id items, receiver ≠ .list id items)
    (item : Value) : indexOf? receiver item = Text.find? (chars item) (chars receiver) := by
  cases receiver with
  | list id items => exact absurd rfl (h id items)
  | _ => rfl

/-! ## Slices -/

/-- Whether there are offsets at all does not depend on the length. -/
theorem sliceBounds_cases (start stop : Value) :
    (∃ fault, ∀ length, sliceBounds length start stop = .error fault) ∨
      ∀ length, ∃ first last, sliceBounds length start stop = .ok (first, last) ∧
        last ≤ length := by
  unfold sliceBounds
  cases integer start with
  | error fault => exact .inl ⟨fault, fun length => rfl⟩
  | ok i =>
    split
    · exact .inr fun length => ⟨_, _, rfl, Nat.le_refl length⟩
    · cases integer stop with
      | error fault => exact .inl ⟨fault, fun length => rfl⟩
      | ok j => exact .inr fun length => ⟨_, _, rfl, Nat.min_le_right _ _⟩

theorem between_eq_nil_iff {α : Type} {first last : Nat} {items : List α}
    (h : last ≤ items.length) : between first last items = [] ↔ last ≤ first := by
  rw [between, List.drop_eq_nil_iff, List.length_take, Nat.min_eq_left h]

theorem sliceText_of_bounds {receiver start stop : Value} {first last : Nat}
    (h : sliceBounds (sliceLength receiver) start stop = .ok (first, last)) :
    sliceText receiver start stop = .ok (ofChars (between first last (chars receiver))) := by
  rw [sliceText, h]
  rfl

theorem sliceText_toText {receiver start stop : Value} {first last : Nat}
    (h : sliceBounds receiver.toText.length start stop = .ok (first, last)) :
    sliceText (.text receiver.toText) start stop =
      .ok (ofChars (between first last (chars receiver))) :=
  @sliceText_of_bounds (.text receiver.toText) start stop first last h

theorem sliceText_of_fault {receiver start stop : Value} {fault : Fault}
    (h : sliceBounds (sliceLength receiver) start stop = .error fault) :
    sliceText receiver start stop = .error fault := by
  rw [sliceText, h]
  rfl

theorem sliceLength_eq_zero {receiver : Value} (hlist : ∀ id items, receiver ≠ .list id items)
    (htext : receiver.isText = false) : sliceLength receiver = 0 := by
  cases receiver with
  | list id items => exact absurd rfl (hlist id items)
  | text s => cases htext
  | _ => rfl

/-- What has no length has empty slices only. -/
theorem sliceText_eq_empty {receiver start stop : Value} {first last : Nat}
    (hlength : sliceLength receiver = 0)
    (h : sliceBounds 0 start stop = .ok (first, last)) (hlast : last ≤ 0) :
    sliceText receiver start stop = .ok (ofChars []) := by
  rw [sliceText_of_bounds (hlength.symm ▸ h),
    (between_eq_nil_iff (by omega)).mpr (by omega : last ≤ first)]

/-! ## Splits -/

theorem split_of_chars {separator : Value} (hnull : separator.isNull = false)
    (h : chars separator ≠ []) (value : Value) :
    split value separator =
      .ok ((Text.splitOn (chars separator) h (chars value)).map ofChars) := by
  rw [split, dif_neg h]
  rintro rfl
  cases hnull

theorem split_toText {separator : Value} (h : chars separator ≠ []) (value : Value) :
    split value (.text separator.toText) =
      .ok ((Text.splitOn (chars separator) h (chars value)).map ofChars) :=
  @split_of_chars (.text separator.toText) rfl h value

theorem split_of_no_chars {separator : Value} (htext : separator.isText = false)
    (h : chars separator = []) (value : Value) :
    split value separator = .error .emptySeparator := by
  rw [split, dif_pos h, htext, if_neg Bool.false_ne_true]
  rintro rfl
  simp [chars, Value.toText] at h

end Builtin

namespace Library

theorem split_apply (receiver separator : Value) :
    split.apply [receiver, separator] =
      Eval.ofExcept (Builtin.split receiver separator) >>= Eval.newList :=
  rfl

theorem slice_apply (receiver : Value) (arguments : List Value) :
    slice.apply (receiver :: arguments) =
      match TextMethod.sliceOffsets? arguments with
      | some (start, stop) => sliceOf receiver start stop
      | none => Eval.fail (.argumentCount "slice_") := by
  rcases arguments with _ | ⟨start, _ | ⟨stop, _ | ⟨other, others⟩⟩⟩ <;> rfl

theorem sliceOf_of_not_list {receiver : Value} (h : ∀ id items, receiver ≠ .list id items)
    (start stop : Value) :
    sliceOf receiver start stop = Eval.ofExcept (Builtin.sliceText receiver start stop) := by
  cases receiver with
  | list id items => exact absurd rfl (h id items)
  | _ => rfl

theorem concat_of_not_list {receiver : Value} (h : ∀ id items, receiver ≠ .list id items)
    (others : List Value) :
    concat.apply (receiver :: others) = pure (.text (Builtin.concatTexts (receiver :: others))) := by
  cases receiver with
  | list id items => exact absurd rfl (h id items)
  | _ => rfl

end Library

namespace TextMethod

open Builtin (chars)

variable {receiver : Value} {arguments : List Value}

/-! ## Operands as texts -/

theorem coerce_of_readsText {method : TextMethod} {v : Value} (h : method.readsText v = true) :
    method.coerce v = .text v.toText := by
  rw [coerce, if_pos h]

theorem readsText_text {method : TextMethod} {v : Value} (h : method.readsText v = true)
    (s : String) : method.readsText (.text s) = true := by
  cases method <;> first | rfl | cases h

theorem coerce_of_replaced {method : TextMethod} {v w : Value}
    (h : Replaced (method.readsText v) v w) : method.coerce w = method.coerce v := by
  rcases h with rfl | ⟨hmeant, rfl⟩
  · rfl
  · rw [coerce_of_readsText hmeant, coerce_of_readsText (readsText_text hmeant _)]
    rfl

theorem map_coerce_of_replaced {method : TextMethod} {others : List Value}
    (h : List.Forall₂ (fun v w => Replaced (method.readsText v) v w) arguments others) :
    others.map method.coerce = arguments.map method.coerce := by
  induction h with
  | nil => rfl
  | cons hv _ ih => rw [List.map_cons, List.map_cons, coerce_of_replaced hv, ih]

theorem toText_of_replaced {v w : Value} (h : Replaced true v w) : w.toText = v.toText := by
  rcases h with rfl | ⟨-, rfl⟩ <;> rfl

theorem not_list_of_replaced {v w : Value} (hlist : ∀ id items, v ≠ .list id items)
    (h : Replaced true v w) : ∀ id items, w ≠ .list id items := by
  rcases h with rfl | ⟨-, rfl⟩
  · exact hlist
  · exact fun _ _ => nofun

theorem eq_of_replaced_of_not_text {meant : Bool} {v w : Value} (h : Replaced meant v w)
    (hw : w.isText = false) : w = v := by
  rcases h with rfl | ⟨-, rfl⟩
  · rfl
  · cases hw

/-- Replacing operands by their texts takes nothing away from how a call sees them. -/
theorem SeesRaw.of_replaced {method : TextMethod} {other : Value} {others : List Value}
    (hother : Replaced true receiver other)
    (hothers : List.Forall₂ (fun v w => Replaced (method.readsText v) v w) arguments others)
    (h : SeesRaw other method others) : SeesRaw receiver method arguments := by
  cases h with
  | length hreceiver hoffsets hbounds hsome =>
    obtain rfl := eq_of_replaced_of_not_text hother hreceiver
    have hsame : others = arguments := by
      have hids := map_coerce_of_replaced hothers
      simpa only [show TextMethod.slice.coerce = id from rfl, List.map_id] using hids
    exact .length hreceiver (hsame ▸ hoffsets) hbounds hsome
  | separator hseparator hempty =>
    cases hothers with
    | cons hv hnil =>
      cases hnil
      obtain rfl := eq_of_replaced_of_not_text hv hseparator
      exact .separator hseparator hempty

/-! ## Calls with operands as texts -/

/-- A receiver that is no text has the same faulty slices as its text, and otherwise empty ones. -/
theorem slice_cases {start stop : Value} (hlist : ∀ id items, receiver ≠ .list id items)
    (htext : receiver.isText = false) (hoffsets : sliceOffsets? arguments = some (start, stop)) :
    (∃ fault, Builtin.sliceBounds receiver.toText.length start stop = .error fault ∧
      Library.slice.apply (receiver :: arguments) =
        Library.slice.apply (.text receiver.toText :: arguments)) ∨
    ∃ first last, Builtin.sliceBounds receiver.toText.length start stop = .ok (first, last) ∧
      last ≤ receiver.toText.length ∧
      Library.slice.apply (receiver :: arguments) = Eval.ofExcept (.ok (Builtin.ofChars [])) ∧
      Library.slice.apply (.text receiver.toText :: arguments) =
        Eval.ofExcept (.ok (Builtin.ofChars (Builtin.between first last (chars receiver)))) := by
  simp only [Library.slice_apply, hoffsets, Library.sliceOf_of_not_list hlist,
    Library.sliceOf_of_not_list Value.text_ne_list]
  rcases Builtin.sliceBounds_cases start stop with ⟨fault, hfault⟩ | hbounds
  · refine .inl ⟨fault, hfault _, ?_⟩
    rw [Builtin.sliceText_of_fault (hfault _), Builtin.sliceText_of_fault (hfault _)]
  · obtain ⟨_, _, hempty, hnone⟩ := hbounds 0
    obtain ⟨first, last, htextual, hinside⟩ := hbounds receiver.toText.length
    refine .inr ⟨first, last, htextual, hinside, ?_, ?_⟩
    · rw [Builtin.sliceText_eq_empty (Builtin.sliceLength_eq_zero hlist htext) hempty hnone]
    · rw [Builtin.sliceText_toText htextual]

theorem slice_coerced (hlist : ∀ id items, receiver ≠ .list id items)
    (hraw : ¬ SeesRaw receiver .slice arguments) :
    Library.slice.apply (receiver :: arguments) =
      Library.slice.apply (.text receiver.toText :: arguments) := by
  cases htext : receiver.isText with
  | true =>
    cases receiver with
    | text s => rfl
    | _ => cases htext
  | false =>
    cases hoffsets : sliceOffsets? arguments with
    | none =>
      rw [Library.slice_apply, Library.slice_apply, hoffsets]
    | some offsets =>
      obtain ⟨start, stop⟩ := offsets
      obtain ⟨-, -, hsame⟩ | ⟨first, last, hbounds, hinside, hslice, htextual⟩ :=
        slice_cases hlist htext hoffsets
      · exact hsame
      · have hnone : ¬ first < last := fun h => hraw (.length htext hoffsets hbounds h)
        have hnil : Builtin.between first last (chars receiver) = [] :=
          (Builtin.between_eq_nil_iff hinside).mpr (Nat.le_of_not_lt hnone)
        rw [hslice, htextual, hnil]

theorem split_coerced (hraw : ¬ SeesRaw receiver .split arguments) :
    Library.split.apply (receiver :: arguments) =
      Library.split.apply (.text receiver.toText :: arguments.map TextMethod.split.coerce) := by
  rcases arguments with _ | ⟨separator, _ | ⟨other, others⟩⟩
  · rfl
  · cases hnull : separator.isNull with
    | true =>
      cases separator with
      | null => rfl
      | _ => cases hnull
    | false =>
      have hcoerce : TextMethod.split.coerce separator = .text separator.toText :=
        coerce_of_readsText (by rw [readsText, hnull]; rfl)
      rw [List.map_singleton, hcoerce, Library.split_apply, Library.split_apply]
      by_cases hchars : chars separator = []
      · cases htext : separator.isText with
        | true =>
          cases separator with
          | text s => rfl
          | _ => cases htext
        | false => exact absurd (.separator htext (String.toList_eq_nil_iff.mp hchars)) hraw
      · rw [Builtin.split_of_chars hnull hchars,
          Builtin.split_toText hchars]
        rfl
  · rfl

theorem map_toText_coerce {method : TextMethod} (h : ∀ v, method.readsText v = true)
    (arguments : List Value) :
    (arguments.map method.coerce).map (·.toText) = arguments.map (·.toText) := by
  rw [List.map_map]
  refine List.map_congr_left fun v _ => ?_
  rw [Function.comp, coerce_of_readsText (h v)]
  rfl

/-- A call that sees no operand raw is the call with all of them as texts. -/
theorem apply_coerced {method : TextMethod} (hlist : ∀ id items, receiver ≠ .list id items)
    (hraw : ¬ SeesRaw receiver method arguments) :
    method.function.apply (receiver :: arguments) =
      method.function.apply (.text receiver.toText :: arguments.map method.coerce) := by
  cases method with
  | slice =>
    rw [show TextMethod.slice.coerce = id from rfl, List.map_id]
    exact slice_coerced hlist hraw
  | split => exact split_coerced hraw
  | concat =>
    have htexts : (arguments.map TextMethod.concat.coerce).map (·.toText) =
        arguments.map (·.toText) := map_toText_coerce (fun _ => rfl) arguments
    rw [function, Library.concat_of_not_list hlist, Library.concat_of_not_list Value.text_ne_list,
      Builtin.concatTexts, Builtin.concatTexts, List.map_cons, List.map_cons, htexts]
    rfl
  | indexOf =>
    rcases arguments with _ | ⟨item, _ | ⟨other, others⟩⟩
    · rfl
    · change pure (Value.int (Builtin.indexOf receiver item)) = _
      rw [Builtin.indexOf, Builtin.indexOf?_of_not_list hlist]
      rfl
    · rfl
  | includes =>
    rcases arguments with _ | ⟨item, _ | ⟨other, others⟩⟩
    · rfl
    · change pure (Value.bool (Builtin.includes receiver item)) = _
      rw [Builtin.includes, Builtin.indexOf?_of_not_list hlist]
      rfl
    · rfl
  | _ =>
    rcases arguments with _ | ⟨first, _ | ⟨second, _ | ⟨other, others⟩⟩⟩ <;> rfl

/-! ## Calls that see an operand raw -/

/-- The slice of the text has something in it, and that of what is no text has not. -/
theorem slice_differs {start stop : Value} {first last : Nat}
    (hlist : ∀ id items, receiver ≠ .list id items) (hreceiver : receiver.isText = false)
    (hoffsets : sliceOffsets? arguments = some (start, stop))
    (hbounds : Builtin.sliceBounds receiver.toText.length start stop = .ok (first, last))
    (hsome : first < last) :
    Library.slice.apply (.text receiver.toText :: arguments) ≠
      Library.slice.apply (receiver :: arguments) := by
  intro hsame
  obtain ⟨fault, hfault, -⟩ | ⟨_, _, hbounds', hinside, hslice, htextual⟩ :=
    slice_cases hlist hreceiver hoffsets
  · rw [hfault] at hbounds
    cases hbounds
  cases hbounds'.symm.trans hbounds
  rw [htextual, hslice] at hsame
  have hpart : (Except.ok (Builtin.ofChars (Builtin.between first last (chars receiver))) :
      Except Failure Value) = .ok (Builtin.ofChars []) :=
    congrArg (fun act => (act.run (World.initial 0)).1) hsame
  have hnil : Builtin.between first last (chars receiver) = [] := by
    simpa [Builtin.ofChars] using hpart
  have hle : last ≤ first := (Builtin.between_eq_nil_iff hinside).mp hnil
  omega

/-- Characters are no failure. -/
theorem split_differs {separator : Value} (hseparator : separator.isText = false)
    (hempty : separator.toText = "") :
    Library.split.apply [receiver, .text separator.toText] ≠
      Library.split.apply [receiver, separator] := by
  intro hsame
  have hchars : chars separator = [] := by rw [chars, hempty]; rfl
  rw [Library.split_apply, Library.split_apply, Builtin.split_of_no_chars hseparator hchars,
    hempty] at hsame
  have hrun := congrArg (fun act => (act.run (World.initial 0)).1) hsame
  cases hrun

/-- A method of texts does the same if a receiver that is no list, or any argument that is meant as
a text, is replaced by its text, unless the call is a slice that has nothing to cut because its
receiver is no text, or a split at what is only empty as a text. -/
theorem replaced_alike_iff (method : TextMethod) {receiver : Value}
    (hlist : ∀ id items, receiver ≠ .list id items) (arguments : List Value) :
    (∀ other others, Replaced true receiver other →
      List.Forall₂ (fun v w => Replaced (method.readsText v) v w) arguments others →
        method.function.apply (other :: others) = method.function.apply (receiver :: arguments)) ↔
      ¬ SeesRaw receiver method arguments := by
  constructor
  · intro h hraw
    cases hraw with
    | length hreceiver hoffsets hbounds hsome =>
      refine slice_differs hlist hreceiver hoffsets hbounds hsome ?_
      exact h _ arguments (.inr ⟨rfl, rfl⟩) (List.forall₂_same.mpr fun _ _ => .inl rfl)
    | @separator separator hseparator hempty =>
      have hmeant : TextMethod.split.readsText separator = true := by
        cases separator with
        | null => simp [Value.toText] at hempty
        | _ => rfl
      exact split_differs hseparator hempty
        (h receiver _ (.inl rfl) (.cons (.inr ⟨hmeant, rfl⟩) .nil))
  · intro hraw other others hother hothers
    rw [apply_coerced hlist hraw, apply_coerced (not_list_of_replaced hlist hother)
      (mt (SeesRaw.of_replaced hother hothers) hraw), toText_of_replaced hother,
      map_coerce_of_replaced hothers]

/-- A number is searched like its text, but its slices are empty. -/
theorem replaced_alike_iff_number :
    let receiver : Value := .number 1 (.int 12345)
    (∀ id items, receiver ≠ .list id items) ∧
      TextMethod.indexOf.function.apply [.text "12345", .text "34"] =
        TextMethod.indexOf.function.apply [receiver, .number 2 (.int 34)] ∧
      SeesRaw receiver .slice [.number 3 (.int 1), .number 4 (.int 3)] ∧
      ¬ ∀ other others, Replaced true receiver other →
        List.Forall₂ (fun v w => Replaced (TextMethod.slice.readsText v) v w)
          [.number 3 (.int 1), .number 4 (.int 3)] others →
        TextMethod.slice.function.apply (other :: others) =
          TextMethod.slice.function.apply [receiver, .number 3 (.int 1), .number 4 (.int 3)] := by
  intro receiver
  have hlist : ∀ id items, receiver ≠ .list id items := fun _ _ => nofun
  have htext : receiver.toText = "12345" := by decide +kernel
  have hitem : (Value.number 2 (.int 34)).toText = "34" := by decide +kernel
  have hbounds : Builtin.sliceBounds receiver.toText.length (.number 3 (.int 1))
      (.number 4 (.int 3)) = .ok (1, 3) := by
    rw [htext]
    rfl
  have hraw : SeesRaw receiver .slice [.number 3 (.int 1), .number 4 (.int 3)] :=
    .length rfl rfl hbounds (by decide)
  refine ⟨hlist, ?_, hraw, fun h => (replaced_alike_iff .slice hlist _).mp h hraw⟩
  exact (replaced_alike_iff .indexOf hlist [.number 2 (.int 34)]).mpr nofun _ _
    (.inr ⟨rfl, by rw [htext]⟩) (.cons (.inr ⟨rfl, by rw [hitem]⟩) .nil)

end TextMethod

end GatedExpr
