import GatedExpr.Builtin.Library
import GatedExpr.Proofs.Closure.Effects
import GatedExpr.Proofs.Value.AlikeCoercions

/-! # The library has no effects

The functions of the library, random numbers apart, compute what they yield from their arguments
alone: they see numbers, texts and contents, never identities, and they do not look at the world.
-/

namespace GatedExpr

open GatedExpr.Computation

namespace Correspondence

variable {c : Correspondence}

/-! ## Computations that do not look at the world -/

theorem agree_of_eq {α : Type} {r r' : Except Fault α} (he : r = r') :
    Agree c.AlikeFault Eq r r' := by
  subst he
  cases r with
  | ok a => exact .ok rfl
  | error fault => exact .error .same

theorem agree_texts {r r' : Except Fault Value} (he : r = r')
    (h : ∀ v, r' = .ok v → ∃ s, v = .text s) : Agree c.AlikeFault c.Alike r r' := by
  subst he
  cases r with
  | ok v =>
    obtain ⟨s, rfl⟩ := h v rfl
    exact .ok .text
  | error fault => exact .error .same

/-- The computations yield alike results or lists of alike items, or fail alike, in any world. -/
inductive AlikeResults (c : Correspondence) : Eval Value → Eval Value → Prop where
  | value {r s : Except Fault Value} : Agree c.AlikeFault c.Alike r s →
      AlikeResults c (Eval.ofExcept r) (Eval.ofExcept s)
  | items {r s : Except Fault (List Value)} : Agree c.AlikeFault c.AlikeEach r s →
      AlikeResults c (Eval.ofExcept r >>= Eval.newList) (Eval.ofExcept s >>= Eval.newList)

namespace AlikeResults

variable {act act' : Eval Value}

theorem pure {v w : Value} (h : c.Alike v w) : AlikeResults c (Pure.pure v) (Pure.pure w) :=
  .value (.ok h)

theorem fail (fault : Fault) : AlikeResults c (Eval.fail fault) (Eval.fail fault) :=
  .value (r := .error fault) (s := .error fault) (.error .same)

theorem newList {items others : List Value} (h : c.AlikeEach items others) :
    AlikeResults c (Eval.newList items) (Eval.newList others) :=
  .items (.ok h)

theorem map {α : Type} {r r' : Except Fault α} {f : α → Value} (h : Agree c.AlikeFault Eq r r')
    (hf : ∀ a, c.Alike (f a) (f a)) :
    AlikeResults c (do return f (← Eval.ofExcept r)) (do return f (← Eval.ofExcept r')) := by
  cases h with
  | ok ha => exact ha ▸ pure (hf _)
  | error he => exact .value (r := .error _) (s := .error _) (.error he)

theorem truth {v w : Value} (h : c.Alike v w) :
    AlikeResults c (do return .bool (← Eval.ofNumeric v.isTruthy))
      (do return .bool (← Eval.ofNumeric w.isTruthy)) := by
  rw [h.isTruthy]
  cases w.isTruthy with
  | ok b => exact pure .bool
  | error cause => exact fail _

theorem runsAlike (h : AlikeResults c act act') : c.RunsAlike c.Alike act act' := by
  cases h with
  | value h => exact .ofExcept h
  | items h => exact .bind (.ofExcept h) fun _ _ hitems => .settle (.list same_zero hitems)

/-- What is computed from values below a bound is below the next identity. -/
theorem handsOut {n : Identity} {hn : World.firstFreeId ≤ n}
    (h : AlikeResults (below n hn) act act') : act.HandsOut n Value.Below := by
  cases h with
  | value h =>
    refine .ofExcept fun v hv => ?_
    cases h with
    | ok h =>
      cases hv
      exact fun i hm => (h.exists_same (fun _ => id) i hm).elim fun _ hij => hij.2
    | error => cases hv
  | items h =>
    refine .bind (P := Value.EachBelow) (.ofExcept fun items hitems => ?_) fun m items hm hitems =>
      .settle (Value.Below.list (Nat.le_trans hn hm) hitems)
    cases h with
    | ok h =>
      cases hitems
      exact fun i hm => (h.exists_same (fun _ => id) i hm).elim fun _ hij => hij.2
    | error => cases hitems

end AlikeResults

end Correspondence

/-- The function yields alike results for alike arguments and does not look at the world. -/
def Function.Plain (function : Function) : Prop :=
  ∀ (c : Correspondence) {arguments others : List Value}, c.AlikeEach arguments others →
    c.AlikeResults (function.apply arguments) (function.apply others)

theorem Function.Plain.hasNoEffects {function : Function} (h : function.Plain) {n : Identity}
    (hn : World.firstFreeId ≤ n) : function.HasNoEffects n where
  respects c _ _ _ harguments := (h c harguments).runsAlike
  handsOut m _ hle hbelow := by
    have hfree := Nat.le_trans hn hle
    have hself : (Correspondence.below m hfree).AlikeEach _ _ :=
      Correspondence.alikeEach_self _ fun i hm => ⟨rfl, hbelow i hm⟩
    exact (h _ hself).handsOut

namespace Correspondence

variable {c : Correspondence} {arguments others : List Value}

theorem AlikeEach.toNumbers (h : c.AlikeEach arguments others) :
    arguments.map (·.toNumber) = others.map (·.toNumber) := by
  induction arguments generalizing others with
  | nil => cases h; rfl
  | cons v arguments ih => cases h with | cons hv h => simp only [List.map_cons, hv.toNumber, ih h]

theorem AlikeEach.map {f : Value → Value} (hf : ∀ {v w}, c.Alike v w → c.Alike (f v) (f w))
    (h : c.AlikeEach arguments others) : c.AlikeEach (arguments.map f) (others.map f) := by
  induction arguments generalizing others with
  | nil => cases h; exact .nil
  | cons v arguments ih => cases h with | cons hv h => exact .cons (hf hv) (ih h)

theorem Alike.integer {v w : Value} (h : c.Alike v w) : Builtin.integer v = Builtin.integer w := by
  rw [Builtin.integer, Builtin.integer, h.toNumber]

theorem Alike.chars {v w : Value} (h : c.Alike v w) : Builtin.chars v = Builtin.chars w := by
  rw [Builtin.chars, Builtin.chars, h.toText]

theorem Alike.typeName {v w : Value} (h : c.Alike v w) : v.typeName = w.typeName := by
  cases h with
  | @number _ _ n => cases n <;> rfl
  | _ => rfl

theorem Alike.isSameType {v w v' w' : Value} (h : c.Alike v w) (h' : c.Alike v' w') :
    v.isSameType v' = w.isSameType w' := by
  rw [Value.isSameType, Value.isSameType, h.typeName, h'.typeName]

theorem AlikeEach.take (h : c.AlikeEach arguments others) (n : Nat) :
    c.AlikeEach (arguments.take n) (others.take n) := by
  induction arguments generalizing others n with
  | nil =>
    cases h
    simp only [List.take_nil]
    exact .nil
  | cons v arguments ih =>
    cases h with
    | cons hv h =>
      cases n with
      | zero => exact .nil
      | succ n => exact .cons hv (ih h n)

theorem AlikeEach.drop (h : c.AlikeEach arguments others) (n : Nat) :
    c.AlikeEach (arguments.drop n) (others.drop n) := by
  induction arguments generalizing others n with
  | nil =>
    cases h
    simp only [List.drop_nil]
    exact .nil
  | cons v arguments ih =>
    cases h with
    | cons hv h =>
      cases n with
      | zero => exact .cons hv h
      | succ n => exact ih h n

theorem Alike.itemText {v w : Value} (h : c.Alike v w) :
    Builtin.itemText v = Builtin.itemText w := by
  have htext := h.toText
  cases h <;> simp only [Builtin.itemText, htext]

theorem AlikeEach.mapItemText (h : c.AlikeEach arguments others) :
    arguments.map Builtin.itemText = others.map Builtin.itemText := by
  induction arguments generalizing others with
  | nil => cases h; rfl
  | cons v arguments ih =>
    cases h with
    | cons hv h =>
      rw [List.map_cons, List.map_cons, ih h, hv.itemText]

theorem AlikeEach.concatTexts (h : c.AlikeEach arguments others) :
    Builtin.concatTexts arguments = Builtin.concatTexts others := by
  have htexts : arguments.map (·.toText) = others.map (·.toText) := by
    induction arguments generalizing others with
    | nil => cases h; rfl
    | cons v arguments ih => cases h with | cons hv h => simp only [List.map_cons, hv.toText, ih h]
  rw [Builtin.concatTexts, Builtin.concatTexts, htexts]

theorem AlikeEach.flatMapSpread (h : c.AlikeEach arguments others) :
    c.AlikeEach (arguments.flatMap Builtin.spread) (others.flatMap Builtin.spread) := by
  induction arguments generalizing others with
  | nil =>
    cases h
    exact .nil
  | cons v arguments ih =>
    cases h with
    | cons hv h =>
      rw [List.flatMap_cons, List.flatMap_cons]
      refine AlikeEach.append ?_ (ih h)
      cases hv with
      | list _ hs => exact hs
      | _ => exact .cons (by constructor <;> assumption) .nil

theorem alikeEach_ofChars {α : Type} {f : α → List Char} (items : List α) :
    c.AlikeEach (items.map fun a => Builtin.ofChars (f a))
      (items.map fun a => Builtin.ofChars (f a)) := by
  induction items with
  | nil => exact .nil
  | cons a items ih => exact .cons .text ih

theorem alike_notANumber : c.Alike .notANumber .notANumber :=
  .number (c.builtIn (by decide))

end Correspondence

namespace Library

open Correspondence

/-! ## Kinds of functions -/

theorem plain_ofOne {name : String} {f : Value → Value}
    (hf : ∀ (c : Correspondence) {v w : Value}, c.Alike v w → c.Alike (f v) (f w)) :
    (ofOne name f).Plain := by
  rintro c _ _ (_ | ⟨h, _ | _⟩)
  · exact .fail _
  · exact .pure (hf c h)
  · exact .fail _

theorem plain_ofTwo {name : String} {f : Value → Value → Value}
    (hf : ∀ (c : Correspondence) {v w v' w' : Value}, c.Alike v w → c.Alike v' w' →
      c.Alike (f v v') (f w w')) : (ofTwo name f).Plain := by
  rintro c _ _ (_ | ⟨h, _ | ⟨h', _ | _⟩⟩)
  · exact .fail _
  · exact .fail _
  · exact .pure (hf c h h')
  · exact .fail _

theorem agree_guarded {c : Correspondence} {arguments others : List Value}
    (h : c.AlikeEach arguments others) (f : List Number → Except Fault Number) :
    Builtin.guarded f arguments = Builtin.guarded f others ∧
      Agree c.AlikeFault c.Alike (Builtin.guarded f others) (Builtin.guarded f others) := by
  refine ⟨by rw [Builtin.guarded, Builtin.guarded, h.toNumbers], ?_⟩
  unfold Builtin.guarded
  dsimp only
  split
  · exact .ok alike_notANumber
  · split
    · exact .ok (alike_ofNumber _)
    · exact .error .same
    · exact .ok alike_notANumber
    · exact .error .same

theorem plain_numeric {name : String} {f : List Number → Except Fault Number} :
    (numeric name f).Plain := by
  intro c arguments others h
  obtain ⟨he, hagree⟩ := agree_guarded h f
  exact .value (he ▸ hagree)

theorem plain_numericOfOne {name : String} {stays : Number → Bool}
    {f : Number → Except NumberFault Number} : (numericOfOne name stays f).Plain := by
  intro c arguments others h
  obtain ⟨he, hagree⟩ := agree_guarded h (Builtin.ofOne name f)
  unfold numericOfOne
  dsimp only
  rw [he]
  generalize Builtin.guarded (Builtin.ofOne name f) others = r at hagree
  cases hagree with
  | error _ => exact .fail _
  | ok hresult =>
    rcases h with _ | ⟨h, _ | _⟩
    · exact .pure hresult
    · refine .pure ?_
      rw [h.toNumber]
      split
      · exact h.asNumber
      · exact hresult
    · exact .pure hresult

theorem alike_foldl_best {c : Correspondence} (better : Number → Number → Bool)
    {kept other : Value} {rest others : List Value} (hkept : c.Alike kept other)
    (h : c.AlikeEach rest others) :
    c.Alike (rest.foldl (fun kept x => if better x.toNumber kept.toNumber then x else kept) kept)
      (others.foldl (fun kept x => if better x.toNumber kept.toNumber then x else kept) other) := by
  induction rest generalizing kept other others with
  | nil =>
    cases h
    exact hkept
  | cons v rest ih =>
    cases h with
    | cons hv h =>
      simp only [List.foldl_cons]
      refine ih ?_ h
      rw [hv.toNumber, hkept.toNumber]
      split
      · exact hv
      · exact hkept

theorem alike_best {c : Correspondence} {arguments others : List Value}
    (h : c.AlikeEach arguments others) (better : Number → Number → Bool) (ifNone : Number) :
    c.Alike (Builtin.best better ifNone arguments) (Builtin.best better ifNone others) := by
  have hnumbers := h.map (·.asNumber)
  unfold Builtin.best
  revert hnumbers
  generalize arguments.map (·.asNumber) = numbers, others.map (·.asNumber) = numbers'
  rintro (_ | ⟨hfirst, hrest⟩)
  · exact alike_ofNumber _
  · have hnan := congrArg (List.any · (·.isNaN)) (AlikeEach.cons hfirst hrest).toNumbers
    simp only [List.any_map] at hnan
    dsimp only [Function.comp_def] at hnan ⊢
    rw [hnan]
    split
    · exact alike_notANumber
    · exact alike_foldl_best better hfirst hrest

/-! ## The functions -/

theorem plain_numberIsNaN : numberIsNaN.Plain :=
  plain_ofOne fun _ _ _ h => by cases h <;> exact .bool

theorem plain_parseFloat : parseFloat.Plain :=
  plain_ofOne fun _ _ _ h => by
    rw [Builtin.parseFloat, Builtin.parseFloat, h.toText]
    exact alike_ofResult _

theorem plain_isNaN : isNaN.Plain :=
  plain_ofOne fun _ _ _ h => by
    rw [Builtin.isNaN, Builtin.isNaN, h.toNumber]
    exact .bool

theorem plain_isFinite : isFinite.Plain :=
  plain_ofOne fun _ _ _ h => by
    rw [Builtin.isFiniteNumber, Builtin.isFiniteNumber, h.toNumber]
    exact .bool

theorem plain_ofChars {name : String} {f : List Char → List Char} :
    (ofOne name fun value => Builtin.ofChars (f (Builtin.chars value))).Plain :=
  plain_ofOne fun _ _ _ h => by
    rw [h.chars]
    exact .text

theorem parseInt_eq {c : Correspondence} {v w v' w' : Value} (h : c.Alike v w)
    (h' : c.Alike v' w') : Builtin.parseInt v v' = Builtin.parseInt w w' := by
  have hradix := h'.integer
  cases h' <;> simp only [Builtin.parseInt, h.toText, hradix]

theorem plain_parseInt : parseInt.Plain := by
  rintro c _ _ (_ | ⟨h, _ | ⟨h', _ | _⟩⟩)
  · exact .fail _
  · exact .map (agree_of_eq (parseInt_eq h .null)) fun _ => alike_ofResult _
  · exact .map (agree_of_eq (parseInt_eq h h')) fun _ => alike_ofResult _
  · exact .fail _

theorem plain_toText : toText.Plain := by
  rintro c _ _ (_ | ⟨h, _ | _⟩)
  · exact .pure .text
  · exact .pure (h.toText ▸ .text)
  · exact .fail _

theorem plain_toNumber : toNumber.Plain := by
  rintro c _ _ (_ | ⟨h, _ | _⟩)
  · exact .pure (alike_ofNumber _)
  · exact .pure h.asNumber
  · exact .fail _

theorem plain_toBoolean : toBoolean.Plain := by
  rintro c _ _ (_ | ⟨h, _ | _⟩)
  · exact .pure .bool
  · exact .truth h
  · exact .fail _

theorem charAt_eq {c : Correspondence} {v w v' w' : Value} (h : c.Alike v w)
    (h' : c.Alike v' w') :
    Agree c.AlikeFault c.Alike (Builtin.charAt v v') (Builtin.charAt w w') := by
  refine agree_texts (by rw [Builtin.charAt, Builtin.charAt, h.chars, h'.integer]) fun v hv => ?_
  obtain ⟨i, -, hv⟩ := except_bind_eq_ok.mp hv
  split at hv <;> cases hv <;> exact ⟨_, rfl⟩

theorem plain_charAt : charAt.Plain := by
  rintro c _ _ (_ | ⟨h, _ | ⟨h', _ | _⟩⟩)
  · exact .fail _
  · exact .value (charAt_eq h (alike_ofNumber (.int 0)))
  · exact .value (charAt_eq h h')
  · exact .fail _

theorem plain_startsWith : startsWith.Plain :=
  plain_ofTwo fun _ _ _ _ _ h h' => by
    rw [Builtin.startsWith, Builtin.startsWith, h.chars, h'.chars]
    exact .bool

theorem plain_endsWith : endsWith.Plain :=
  plain_ofTwo fun _ _ _ _ _ h h' => by
    rw [Builtin.endsWith, Builtin.endsWith, h.chars, h'.chars]
    exact .bool

theorem agree_split {c : Correspondence} {v w v' w' : Value} (h : c.Alike v w)
    (h' : c.Alike v' w') :
    Agree c.AlikeFault c.AlikeEach (Builtin.split v v') (Builtin.split w w') := by
  have hchars := h'.chars
  have htext := h'.isText
  have he : Builtin.split v v' = Builtin.split w w' := by
    cases h' <;> simp only [Builtin.split, h.chars, hchars, htext]
  rw [he]
  unfold Builtin.split
  split
  · exact .ok (.cons .text .nil)
  · split
    · split
      · exact .ok (alikeEach_ofChars _)
      · exact .error .same
    · exact .ok (alikeEach_ofChars _)

theorem plain_split : split.Plain := by
  rintro c _ _ (_ | ⟨h, _ | ⟨h', _ | _⟩⟩)
  · exact .fail _
  · exact .items (agree_split h .null)
  · exact .items (agree_split h h')
  · exact .fail _

theorem plain_replace : replace.Plain := by
  rintro c _ _ (_ | ⟨h, _ | ⟨h', _ | ⟨h'', _ | _⟩⟩⟩)
  · exact .fail _
  · exact .fail _
  · exact .fail _
  · refine .pure ?_
    rw [Builtin.replace, Builtin.replace, h.chars, h'.chars, h''.chars]
    exact .text
  · exact .fail _

theorem indexIn_eq {c : Correspondence} {items others : List Value} {item item' : Value}
    (h : c.AlikeEach items others) (h' : c.Alike item item') :
    Builtin.indexIn items item = Builtin.indexIn others item' := by
  unfold Builtin.indexIn
  induction items generalizing others with
  | nil =>
    cases h
    rfl
  | cons v items ih =>
    cases h with
    | cons hv h =>
      rw [List.findIdx?_cons, List.findIdx?_cons, ih h, hv.hasContentOf h', hv.isSameType h']

theorem indexOf?_eq {c : Correspondence} {receiver other item item' : Value}
    (h : c.Alike receiver other) (h' : c.Alike item item') :
    Builtin.indexOf? receiver item = Builtin.indexOf? other item' := by
  have hchars := h.chars
  cases h with
  | list _ h => exact indexIn_eq h h'
  | _ => simp only [Builtin.indexOf?, hchars, h'.chars]

theorem plain_indexOf : indexOf.Plain :=
  plain_ofTwo fun _ _ _ _ _ h h' => by
    rw [Builtin.indexOf, Builtin.indexOf, indexOf?_eq h h']
    exact alike_ofNumber _

theorem plain_includes : includes.Plain :=
  plain_ofTwo fun _ _ _ _ _ h h' => by
    rw [Builtin.includes, Builtin.includes, indexOf?_eq h h']
    exact .bool

theorem sliceBounds_eq {c : Correspondence} {start start' stop stop' : Value}
    (h : c.Alike start start') (h' : c.Alike stop stop') (length : Nat) :
    Builtin.sliceBounds length start stop = Builtin.sliceBounds length start' stop' := by
  have hstop := h'.integer
  cases h' <;> simp only [Builtin.sliceBounds, h.integer, hstop]

theorem alikeResults_sliceOf {c : Correspondence} {v w v' w' v'' w'' : Value} (h : c.Alike v w)
    (h' : c.Alike v' w') (h'' : c.Alike v'' w'') :
    c.AlikeResults (sliceOf v v' v'') (sliceOf w w' w'') := by
  have hbounds := sliceBounds_eq h' h''
  have hchars := h.chars
  cases h with
  | list _ h =>
    refine .items ?_
    rw [Builtin.sliceItems, Builtin.sliceItems, hbounds, h.length_eq]
    cases Builtin.sliceBounds _ w' w'' with
    | ok bounds => exact .ok ((h.take _).drop _)
    | error fault => exact .error .same
  | _ =>
    refine .value (agree_texts ?_ fun v hv => ?_)
    · simp only [Builtin.sliceText, Builtin.sliceLength, hbounds, hchars]
    · obtain ⟨bounds, -, hv⟩ := except_bind_eq_ok.mp hv
      cases hv
      exact ⟨_, rfl⟩

theorem plain_slice : slice.Plain := by
  rintro c _ _ (_ | ⟨h, _ | ⟨h', _ | ⟨h'', _ | _⟩⟩⟩)
  · exact .fail _
  · exact alikeResults_sliceOf h (alike_ofNumber _) .null
  · exact alikeResults_sliceOf h h' .null
  · exact alikeResults_sliceOf h h' h''
  · exact .fail _

theorem clampedEnd_eq {c : Correspondence} {stop stop' : Value} (h : c.Alike stop stop')
    (length : Nat) : Builtin.clampedEnd length stop = Builtin.clampedEnd length stop' := by
  have hstop := h.integer
  cases h <;> simp only [Builtin.clampedEnd, hstop]

theorem agree_substring {c : Correspondence} {v w v' w' v'' w'' : Value} (h : c.Alike v w)
    (h' : c.Alike v' w') (h'' : c.Alike v'' w'') :
    Agree c.AlikeFault c.Alike (Builtin.substring v v' v'') (Builtin.substring w w' w'') := by
  refine agree_texts ?_ fun u hu => ?_
  · rw [Builtin.substring, Builtin.substring, h.chars, h'.integer]
    simp only [clampedEnd_eq h'']
  · obtain ⟨first, -, hu⟩ := except_bind_eq_ok.mp hu
    obtain ⟨last, -, hu⟩ := except_bind_eq_ok.mp hu
    cases hu
    exact ⟨_, rfl⟩

theorem plain_substring : substring.Plain := by
  rintro c _ _ (_ | ⟨h, _ | ⟨h', _ | ⟨h'', _ | _⟩⟩⟩)
  · exact .fail _
  · exact .value (agree_substring h (alike_ofNumber (.int 0)) .null)
  · exact .value (agree_substring h h' .null)
  · exact .value (agree_substring h h' h'')
  · exact .fail _

theorem agree_join {c : Correspondence} {v w v' w' : Value} (h : c.Alike v w)
    (h' : c.Alike v' w') : Agree c.AlikeFault Eq (Builtin.join v v') (Builtin.join w w') := by
  rw [Builtin.join, Builtin.join, h'.toText]
  exact h.iterate.bind fun items others hitems => .ok (by rw [hitems.mapItemText])

theorem plain_join : join.Plain := by
  rintro c _ _ (_ | ⟨h, _ | ⟨h', _ | _⟩⟩)
  · exact .fail _
  · exact .map (agree_join h .text) fun _ => .text
  · exact .map (agree_join h h') fun _ => .text
  · exact .fail _

theorem plain_concat : concat.Plain := by
  intro c arguments others h
  have htexts := h.concatTexts
  cases h with
  | nil => exact .fail _
  | cons h hs =>
    cases h with
    | list _ h => exact .newList (h.append hs.flatMapSpread)
    | _ => exact .pure (htexts ▸ .text)

theorem toFixed_eq {c : Correspondence} {v w v' w' : Value} (h : c.Alike v w)
    (h' : c.Alike v' w') : Builtin.toFixed v v' = Builtin.toFixed w w' := by
  rw [Builtin.toFixed, Builtin.toFixed, h.toNumber, h'.integer]

theorem plain_toFixed : toFixed.Plain := by
  rintro c _ _ (_ | ⟨h, _ | ⟨h', _ | _⟩⟩)
  · exact .fail _
  · exact .map (agree_of_eq (toFixed_eq h (alike_ofNumber _))) fun _ => .text
  · exact .map (agree_of_eq (toFixed_eq h h')) fun _ => .text
  · exact .fail _

theorem toString_of_not_number {value : Value} (h : ∀ id n, value ≠ .number id n) (radix : Value) :
    Builtin.toString value radix = .ok value.toText := by
  unfold Builtin.toString
  split
  · rfl
  · exact absurd rfl (h _ _)
  · rfl

theorem toString_eq {c : Correspondence} {v w v' w' : Value} (h : c.Alike v w)
    (h' : c.Alike v' w') : Builtin.toString v v' = Builtin.toString w w' := by
  have htext := h.toText
  have hradix := h'.integer
  cases h with
  | number _ => cases h' <;> simp only [Builtin.toString, hradix, htext]
  | _ =>
    refine (toString_of_not_number (by rintro _ _ ⟨⟩) _).trans (.trans (congrArg _ htext) ?_)
    exact (toString_of_not_number (by rintro _ _ ⟨⟩) _).symm

theorem plain_toString : toString.Plain := by
  rintro c _ _ (_ | ⟨h, _ | ⟨h', _ | _⟩⟩)
  · exact .fail _
  · exact .map (agree_of_eq (toString_eq h .null)) fun _ => .text
  · exact .map (agree_of_eq (toString_eq h h')) fun _ => .text
  · exact .fail _

theorem plain_mathMax : mathMax.Plain :=
  fun _ _ _ h => .pure (alike_best h _ _)

theorem plain_mathMin : mathMin.Plain :=
  fun _ _ _ h => .pure (alike_best h _ _)

theorem plain_toUpperCase : toUpperCase.Plain :=
  plain_ofChars

theorem plain_toLowerCase : toLowerCase.Plain :=
  plain_ofChars

theorem plain_trim : trim.Plain :=
  plain_ofChars

/-- All functions of the standard whitelist are plain but the one of random numbers. -/
theorem plain_of_mem_standard :
    ∀ entry ∈ Whitelist.standard.callees, entry = ("Math.random", mathRandom) ∨ entry.2.Plain := by
  simp only [Whitelist.standard, List.forall_mem_cons, List.not_mem_nil, mathRound, mathFloor,
    mathCeil, mathTrunc, mathAbs, mathSqrt, mathPow, mathLog, plain_numericOfOne, plain_numeric,
    plain_mathMax, plain_mathMin, plain_numberIsNaN, plain_parseFloat, plain_parseInt, plain_isNaN,
    plain_isFinite, plain_toText, plain_toNumber, plain_toBoolean, plain_toUpperCase,
    plain_toLowerCase, plain_trim, plain_charAt, plain_startsWith, plain_endsWith, plain_split,
    plain_replace, plain_indexOf, plain_includes, plain_slice, plain_substring, plain_join,
    plain_concat, plain_toFixed, plain_toString, or_true, true_or, and_true,
    IsEmpty.forall_iff, implies_true]

/-! ## Constants -/

theorem hasNoEffects_constant {n : Identity} {value : Value} (h : value.Below n) :
    Accessor.HasNoEffects n (Accessor.constant value) where
  respects _ hc _ _ _ := .pure (alike_self value fun id hm => hc.same id (h id hm))
  handsOut _ _ hle _ := .pure (h.mono hle)

theorem below_mathMap : mathMap.Below World.firstFreeId := by
  unfold Value.Below
  decide

theorem below_numberMap : numberMap.Below World.firstFreeId := by
  unfold Value.Below
  decide

end Library

namespace Whitelist

open Library Semantics

variable {n : Identity}

theorem hasNoEffects_of_object (hn : World.firstFreeId ≤ n) {name : String} {accessor : Accessor}
    (h : standard.objects.lookup name = some accessor) : accessor.HasNoEffects n := by
  simp only [standard, List.lookup_cons, List.lookup_nil] at h
  split at h
  · cases h
    exact hasNoEffects_constant (below_mathMap.mono hn)
  · split at h
    · cases h
      exact hasNoEffects_constant (below_numberMap.mono hn)
    · cases h

/-- With the standard whitelist only trees that ask for random numbers have effects. -/
theorem hasNoEffectsFor_standard (hn : World.firstFreeId ≤ n) {task : Task}
    (hrandom : ∀ path tasks, Reaches standard task (.node path) →
      ¬ Calls standard path mathRandom tasks) : standard.HasNoEffectsFor n task where
  objects _ _ _ hl := hasNoEffects_of_object hn hl
  callees path function tasks hreached hcalls := by
    obtain ⟨signature, hl⟩ := hcalls.allowed
    rcases plain_of_mem_standard _ (Table.mem_of_lookup hl) with he | hplain
    · cases he
      exact absurd hcalls (hrandom path tasks hreached)
    · exact hplain.hasNoEffects hn

end Whitelist

end GatedExpr
