import GatedExpr.Grammar.Basic
import GatedExpr.Proofs.Grammar.Progress

/-! # Repetitions

A repetition runs its body from where the run before it stopped, and every round but the last one
moves on. So it ends by itself, after no more attempts than there are characters ahead: at the end
of the source, where the body fails, or after a round that read nothing.

That runs move on rests on a property of all matchers: they read at a cursor or go back, so that a
relation between cursors which both of these keep relates the cursors before and after every run.
-/

namespace GatedExpr

/-! ## How runs move cursors -/

namespace Cursor

/-- A relation between a cursor and what becomes of it that reading and going back keep. -/
structure IsMovement (R : Cursor → Cursor → Prop) : Prop where
  refl : ∀ cursor, R cursor cursor
  trans : ∀ {start next last : Cursor}, R start next → R next last → R start last
  rewind : ∀ {start next : Cursor}, R start next → R start (start.rewind next)
  readLiteral : ∀ (cursor : Cursor) (text : List Char), R cursor (cursor.readLiteral text).2
  readPattern : ∀ (cursor : Cursor) (pattern : Pattern), R cursor (cursor.readPattern pattern).2

end Cursor

/-- Every run relates the cursors before and after it. -/
def Moves {α : Type} (R : Cursor → Cursor → Prop) (run : Cursor → Outcome α × Cursor) : Prop :=
  ∀ start, R start (run start).2

namespace Matcher

variable {follow : Follow} {R : Cursor → Cursor → Prop}

theorem moves_literal (hR : Cursor.IsMovement R) (expected : String) :
    Moves R (run follow (.literal expected)) := by
  intro start
  have hread := hR.readLiteral start expected.toList
  rw [run]
  split
  all_goals next h => rwa [h] at hread

theorem moves_pattern (hR : Cursor.IsMovement R) (expected : Pattern) :
    Moves R (run follow (.pattern expected)) := by
  intro start
  have hread := hR.readPattern start expected
  rw [run]
  split
  all_goals next h => rwa [h] at hread

theorem moves_repeatStep (hR : Cursor.IsMovement R) {step : Cursor → Outcome Value × Cursor}
    (hstep : Moves R step) (rounds : List Char) : Moves R (repeatStep step rounds) := by
  induction rounds with
  | nil =>
    intro start
    rw [repeatStep]
    exact hR.refl start
  | cons c rounds ih =>
    intro start
    have hround := hstep start
    rw [repeatStep]
    split
    · exact hR.refl start
    · split
      · next h => rwa [h] at hround
      · next h =>
        rw [h] at hround
        exact hR.rewind hround
      · next h =>
        rw [h] at hround
        split
        · exact hround
        · exact hR.trans hround (ih _)

mutual

/-- A matcher moves cursors as its references do. -/
theorem moves_run (hR : Cursor.IsMovement R) (hf : ∀ owner kind, Moves R (follow owner kind)) :
    ∀ matcher, Moves R (run follow matcher)
  | .literal expected => moves_literal hR expected
  | .pattern expected => moves_pattern hR expected
  | .reference owner kind => fun start => by
    rw [run]
    exact hf owner kind start
  | .sequence parts => fun start => by
    have hparts := moves_runEach hR hf parts start
    rw [run]
    split
    · next h =>
      rw [h] at hparts
      exact hR.rewind hparts
    · next h => rwa [h] at hparts
  | .alternation options => fun start => by
    rw [run]
    exact moves_runFirst hR hf options start
  | .repetition atLeast body => fun start => by
    have hrounds := moves_repeatStep hR (moves_run hR hf body) start.ahead start
    rw [run]
    split
    · next h =>
      rw [h] at hrounds
      split
      · exact hR.rewind hrounds
      · exact hrounds
    · next h => rwa [h] at hrounds
  | .optional body => fun start => by
    have hbody := moves_run hR hf body start
    rw [run]
    split
    · next h =>
      rw [h] at hbody
      exact hR.rewind hbody
    · next h => rwa [h] at hbody
  | .after skipped body => fun start => by
    have hskipped := moves_run hR hf skipped start
    rw [run]
    split
    · next next h =>
      have hboth := hR.trans (h ▸ hskipped) (moves_run hR hf body next)
      split
      · next h' =>
        rw [h'] at hboth
        exact hR.rewind hboth
      · next h' => rwa [h'] at hboth
    · next h =>
      rw [h] at hskipped
      exact hR.rewind hskipped
    · next h => rwa [h] at hskipped
  | .unrunnable => fun start => by
    rw [run]
    exact hR.refl start

theorem moves_runEach (hR : Cursor.IsMovement R) (hf : ∀ owner kind, Moves R (follow owner kind)) :
    ∀ parts, Moves R (runEach follow parts)
  | [] => fun start => by
    rw [runEach]
    exact hR.refl start
  | part :: parts => fun start => by
    have hpart := moves_run hR hf part start
    rw [runEach]
    split
    · next h =>
      rw [h] at hpart
      exact hR.trans hpart (moves_runEach hR hf parts _)
    all_goals next h => rwa [h] at hpart

theorem moves_runFirst (hR : Cursor.IsMovement R) (hf : ∀ owner kind, Moves R (follow owner kind)) :
    ∀ options, Moves R (runFirst follow options)
  | [] => fun start => by
    rw [runFirst]
    exact hR.refl start
  | option :: options => fun start => by
    have hoption := moves_run hR hf option start
    rw [runFirst]
    split
    · next h =>
      rw [h] at hoption
      exact hR.trans (hR.rewind hoption) (moves_runFirst hR hf options _)
    · next h => rwa [h] at hoption

end

end Matcher

namespace Descriptor

variable {follow : Follow} {R : Cursor → Cursor → Prop}

theorem moves_fallBack (hR : Cursor.IsMovement R) (hf : ∀ owner kind, Moves R (follow owner kind))
    (descriptor : Descriptor) : Moves R (descriptor.fallBack follow) := by
  intro start
  rw [fallBack]
  split
  · exact Matcher.moves_run hR hf _ start
  · exact hR.refl start

theorem moves_run (hR : Cursor.IsMovement R) (hf : ∀ owner kind, Moves R (follow owner kind))
    (descriptor : Descriptor) : Moves R (descriptor.run follow) := by
  intro start
  rw [run]
  split
  · exact hR.refl start
  · next matcher _ =>
    have hrun := Matcher.moves_run hR hf matcher start
    have hback {next : Cursor} (h : R start next) :
        R start (descriptor.fallBack follow (start.rewind next)).2 :=
      hR.trans (hR.rewind h) (moves_fallBack hR hf descriptor _)
    split
    · next h => rwa [h] at hrun
    · next h =>
      rw [h] at hrun
      exact hback hrun
    · next h =>
      rw [h] at hrun
      split
      · exact hrun
      · exact hback hrun
      · exact hrun

end Descriptor

/-- References move cursors as reading and going back do, however deep they are followed. -/
theorem Family.moves_follow {R : Cursor → Cursor → Prop} (hR : Cursor.IsMovement R)
    (family : Family) (depth : Nat) :
    ∀ active owner kind, Moves R (family.follow depth active owner kind) := by
  induction depth with
  | zero =>
    intro active owner kind start
    rw [follow]
    exact hR.refl start
  | succ depth ih =>
    intro active owner kind start
    simp only [follow]
    split
    · exact hR.refl start
    · exact Descriptor.moves_run hR (ih _) _ start

/-! ## Moving on -/

namespace Cursor

/-- A cursor that is not beyond its end moves on, and not beyond the end. -/
structure MovesOn (start next : Cursor) : Prop where
  source_eq : next.source = start.source
  forward : start.position ≤ start.source.length → start.position ≤ next.position
  inside : start.position ≤ start.source.length → next.position ≤ start.source.length

/-- What is left to read does not reach beyond the end. -/
theorem position_add_length_rest_le {cursor : Cursor}
    (h : cursor.position ≤ cursor.source.length) :
    cursor.position + cursor.rest.length ≤ cursor.source.length := by
  rw [cursor.rest_eq, List.length_drop, Text.offset]
  split <;> omega

theorem source_advance (cursor : Cursor) (length : Nat) :
    (cursor.advance length).source = cursor.source := by
  rw [advance]
  split <;> rfl

theorem position_advance (cursor : Cursor) (length : Nat) :
    (cursor.advance length).position = cursor.position + length := by
  rw [advance]
  split <;> rfl

theorem movesOn_advance {cursor : Cursor} {length : Nat} (h : length ≤ cursor.rest.length) :
    MovesOn cursor (cursor.advance length) where
  source_eq := source_advance cursor length
  forward _ := by
    rw [position_advance]
    omega
  inside hle := by
    have := position_add_length_rest_le hle
    rw [position_advance]
    omega

/-- Where patterns are tried lies ahead. -/
theorem movesOn_clamp (cursor : Cursor) : MovesOn cursor cursor.clamp := by
  rw [clamp]
  split
  · exact ⟨rfl, fun _ => by simp only [moveTo]; omega, fun _ => by simp only [moveTo]; omega⟩
  · split
    · exact ⟨rfl, fun h => by simp only [moveTo]; omega, fun _ => by simp only [moveTo]; omega⟩
    · exact ⟨rfl, fun _ => le_rfl, id⟩

theorem MovesOn.trans {start next last : Cursor} (h : MovesOn start next) (h' : MovesOn next last) :
    MovesOn start last where
  source_eq := h'.source_eq.trans h.source_eq
  forward hle := (h.forward hle).trans (h'.forward (h.source_eq ▸ h.inside hle))
  inside hle := h.source_eq ▸ h'.inside (h.source_eq ▸ h.inside hle)

theorem isMovement_movesOn : IsMovement MovesOn where
  refl _ := ⟨rfl, fun _ => le_rfl, id⟩
  trans := MovesOn.trans
  rewind _ := ⟨rfl, fun _ => le_rfl, id⟩
  readLiteral cursor text := by
    rw [readLiteral]
    split
    · next h =>
      rw [startsWith, Bool.and_eq_true, List.isPrefixOf_iff_prefix] at h
      exact movesOn_advance h.1.length_le
    · exact ⟨rfl, fun _ => le_rfl, id⟩
  readPattern cursor pattern := by
    rw [readPattern]
    split
    · next h =>
      exact (movesOn_clamp cursor).trans (movesOn_advance (Pattern.reads_of_match? h).length_le)
    · exact ⟨rfl, fun _ => le_rfl, id⟩

end Cursor

/-! ## Rounds -/

open Cursor (MovesOn)

/-- Runs one after the other, each from where the one before it stopped: the cursors that they start
from, what they yield, and the cursor at the end. -/
inductive Rounds (step : Cursor → Outcome Value × Cursor) :
    Cursor → List Cursor → List Value → Cursor → Prop
  | ended {cursor : Cursor} (hend : cursor.position = cursor.source.length) :
      Rounds step cursor [] [] cursor
  /-- After a failure the cursor is back where that run started. -/
  | failed {cursor next : Cursor} (hbefore : cursor.position < cursor.source.length)
      (hrun : step cursor = (.failed, next)) : Rounds step cursor [cursor] [] (cursor.rewind next)
  /-- What a run yields counts even if it read nothing. -/
  | stayed {cursor next : Cursor} {item : Value} (hbefore : cursor.position < cursor.source.length)
      (hrun : step cursor = (.matched item, next)) (hsame : next.position = cursor.position) :
      Rounds step cursor [cursor] [item] next
  | onward {cursor next last : Cursor} {item : Value} {tried : List Cursor} {items : List Value}
      (hbefore : cursor.position < cursor.source.length)
      (hrun : step cursor = (.matched item, next)) (hmoved : cursor.position < next.position)
      (hrest : Rounds step next tried items last) :
      Rounds step cursor (cursor :: tried) (item :: items) last

/-- No run breaks off that starts at `start` or further on in its source. -/
def NeverBreaks {α : Type} (step : Cursor → Outcome α × Cursor) (start : Cursor) : Prop :=
  ∀ cursor : Cursor, cursor.source = start.source → start.position ≤ cursor.position →
    cursor.position ≤ start.source.length → ∀ fault, (step cursor).1 ≠ .broken fault

theorem NeverBreaks.movesOn {α : Type} {step : Cursor → Outcome α × Cursor} {start next : Cursor}
    (h : NeverBreaks step start) (hstart : start.position ≤ start.source.length)
    (hnext : MovesOn start next) : NeverBreaks step next := by
  intro cursor hsource hle hinside
  exact h cursor (hsource.trans hnext.source_eq) ((hnext.forward hstart).trans hle)
    (hnext.source_eq ▸ hinside)

namespace Cursor

theorem atEnd_iff {cursor : Cursor} (h : cursor.position ≤ cursor.source.length) :
    cursor.atEnd = true ↔ cursor.position = cursor.source.length := by
  rw [atEnd, Bool.and_eq_true, decide_eq_true_eq, List.isEmpty_iff, cursor.rest_eq,
    List.drop_eq_nil_iff, Text.offset]
  split <;> omega

theorem length_ahead {cursor : Cursor} (h : cursor.position ≤ cursor.source.length) :
    (cursor.ahead.length : Int) = cursor.source.length - cursor.position := by
  rw [ahead]
  split
  · rw [List.length_append, List.length_replicate]
    omega
  · rw [cursor.rest_eq, List.length_drop, Text.offset, if_neg (by assumption)]
    omega

end Cursor

namespace Rounds

variable {step : Cursor → Outcome Value × Cursor} {start last : Cursor} {tried : List Cursor}
  {items : List Value}

/-- Where no run breaks off, the rounds come to an end. -/
theorem exists_of_neverBreaks (hmoves : Moves MovesOn step) {start : Cursor}
    (hstart : start.position ≤ start.source.length) (hruns : NeverBreaks step start) :
    ∃ tried items last, Rounds step start tried items last := by
  induction hleft : (start.source.length - start.position).toNat using Nat.strong_induction_on
    generalizing start with
  | _ left ih =>
    by_cases hend : start.position = start.source.length
    · exact ⟨[], [], start, .ended hend⟩
    have hbefore : start.position < start.source.length := by omega
    have hnext := hmoves start
    cases hrun : step start with
    | mk outcome next =>
      rw [hrun] at hnext
      cases outcome with
      | broken fault => exact absurd (by rw [hrun]) (hruns start rfl le_rfl hstart fault)
      | failed => exact ⟨_, _, _, .failed hbefore hrun⟩
      | matched item =>
        have hforward : start.position ≤ next.position := hnext.forward hstart
        have hinside : next.position ≤ start.source.length := hnext.inside hstart
        by_cases hsame : next.position = start.position
        · exact ⟨_, _, _, .stayed hbefore hrun hsame⟩
        · have hfewer : (next.source.length - next.position).toNat < left := by
            rw [hnext.source_eq]
            omega
          obtain ⟨tried, items, last, hrest⟩ := ih _ hfewer (by rwa [hnext.source_eq])
            (hruns.movesOn hstart hnext) rfl
          exact ⟨_, _, _, .onward hbefore hrun (by omega) hrest⟩

theorem position_le (h : Rounds step start tried items last) :
    ∀ cursor ∈ tried, start.position ≤ cursor.position := by
  induction h with
  | ended => exact nofun
  | failed | stayed => simp
  | onward _ _ hmoved _ ih =>
    exact List.forall_mem_cons.mpr ⟨le_rfl, fun cursor h => hmoved.le.trans (ih cursor h)⟩

/-- Every attempt starts further on than the one before it. -/
theorem pairwise_tried (h : Rounds step start tried items last) :
    tried.Pairwise (·.position < ·.position) := by
  induction h with
  | ended => exact .nil
  | failed | stayed => exact List.pairwise_singleton _ _
  | onward _ _ hmoved hrest ih =>
    exact .cons (fun cursor h => hmoved.trans_le (hrest.position_le cursor h)) ih

theorem length_tried_le (hmoves : Moves MovesOn step) (h : Rounds step start tried items last)
    (hstart : start.position ≤ start.source.length) :
    (tried.length : Int) ≤ start.source.length - start.position := by
  induction h with
  | ended => simpa using hstart
  | failed hbefore | stayed hbefore =>
    rw [List.length_singleton]
    omega
  | @onward cursor next last item tried items hbefore hrun hmoved hrest ih =>
    have hnext := hmoves cursor
    rw [hrun] at hnext
    have hinside := hnext.inside hstart
    rw [hnext.source_eq] at ih
    have := ih hinside
    rw [List.length_cons]
    omega

/-- A repetition makes these rounds, provided that it may make as many attempts. -/
theorem repeatStep_eq (hmoves : Moves MovesOn step) (h : Rounds step start tried items last)
    (hstart : start.position ≤ start.source.length) {rounds : List Char}
    (hrounds : tried.length ≤ rounds.length) :
    Matcher.repeatStep step rounds start = (.matched items, last) := by
  induction h generalizing rounds with
  | ended hend =>
    cases rounds with
    | nil => rw [Matcher.repeatStep]
    | cons c rounds => rw [Matcher.repeatStep, if_pos ((Cursor.atEnd_iff hstart).mpr hend)]
  | failed hbefore hrun =>
    obtain ⟨c, rounds, rfl⟩ := List.exists_cons_of_length_pos hrounds
    rw [Matcher.repeatStep, if_neg (mt (Cursor.atEnd_iff hstart).mp hbefore.ne), hrun]
  | stayed hbefore hrun hsame =>
    obtain ⟨c, rounds, rfl⟩ := List.exists_cons_of_length_pos hrounds
    rw [Matcher.repeatStep, if_neg (mt (Cursor.atEnd_iff hstart).mp hbefore.ne), hrun]
    exact if_pos hsame
  | @onward cursor next last item tried items hbefore hrun hmoved hrest ih =>
    obtain ⟨c, rounds, rfl⟩ := List.exists_cons_of_length_pos (Nat.zero_lt_of_lt hrounds)
    have hnext := hmoves cursor
    rw [hrun] at hnext
    have hlater := ih (hnext.source_eq ▸ hnext.inside hstart) (Nat.le_of_succ_le_succ hrounds)
    rw [Matcher.repeatStep, if_neg (mt (Cursor.atEnd_iff hstart).mp hbefore.ne), hrun]
    refine (if_neg hmoved.ne').trans ?_
    rw [hlater]
    rfl

end Rounds

namespace Family

/-- Repeating a matcher whose runs do not break off ends after at most as many attempts as there are
characters ahead. It yields what consecutive runs yield, each of which starts further on than the
one before it, and stops at the end of the source, where the matcher fails, or after a run that read
nothing. If at least one repetition is asked for, it is the same unless there is none. -/
theorem repetition_maximal (family : Family) (depth : Nat) (active : Option GrammarId)
    (matcher : Matcher) {start : Cursor} (hstart : start.position ≤ start.source.length)
    (hruns : NeverBreaks (matcher.run (family.follow depth active)) start) :
    ∃ tried items last,
      Rounds (matcher.run (family.follow depth active)) start tried items last ∧
      tried.Pairwise (·.position < ·.position) ∧
      (tried.length : Int) ≤ start.source.length - start.position ∧
      (∀ rounds : List Char, tried.length ≤ rounds.length →
        Matcher.repeatStep (matcher.run (family.follow depth active)) rounds start =
          (.matched items, last)) ∧
      (Matcher.repetition 0 matcher).run (family.follow depth active) start =
        (.matched (.ofList items), last) ∧
      (Matcher.repetition 1 matcher).run (family.follow depth active) start =
        if items.isEmpty then (.failed, start.rewind last) else (.matched (.ofList items), last) := by
  have hmoves := Matcher.moves_run Cursor.isMovement_movesOn
    (family.moves_follow Cursor.isMovement_movesOn depth active) matcher
  obtain ⟨tried, items, last, hrounds⟩ := Rounds.exists_of_neverBreaks hmoves hstart hruns
  have hfew := hrounds.length_tried_le hmoves hstart
  have henough : tried.length ≤ start.ahead.length := by
    have := Cursor.length_ahead hstart
    omega
  have hrepeat := hrounds.repeatStep_eq hmoves hstart henough
  refine ⟨tried, items, last, hrounds, hrounds.pairwise_tried, hfew,
    fun rounds => hrounds.repeatStep_eq hmoves hstart, ?_, ?_⟩
  · rw [Matcher.run, hrepeat]
    exact if_neg (Nat.not_lt_zero _)
  · rw [Matcher.run, hrepeat]
    cases items with
    | nil => rfl
    | cons item items => exact if_neg (by simp)

/-- The third round reads nothing, and so it is the last one. -/
theorem repetition_maximal_of_optional :
    let body : Matcher := .optional (.literal "a")
    let run := body.run (Family.follow { grammars := [] } 1 none)
    let start := Cursor.start "aab".toList 0
    start.position ≤ start.source.length ∧ NeverBreaks run start ∧
      ∃ tried items last, Rounds run start tried items last ∧ (tried.length : Int) ≤ 3 ∧
        items.length = 3 ∧ last.position = 2 := by
  have hruns : NeverBreaks (Matcher.run (Family.follow { grammars := [] } 1 none)
      (.optional (.literal "a"))) (.start "aab".toList 0) := by
    intro cursor _ _ _ fault
    rw [Matcher.run, Matcher.run, Cursor.readLiteral]
    split_ifs <;> simp
  have hstart : (Cursor.start "aab".toList 0).position ≤
      (Cursor.start "aab".toList 0).source.length := by decide
  refine ⟨hstart, hruns, ?_⟩
  obtain ⟨tried, items, last, hrounds, -, hfew, -, hrun, -⟩ :=
    Family.repetition_maximal { grammars := [] } 1 none (.optional (.literal "a")) hstart hruns
  obtain ⟨first, second, hyield⟩ : ∃ first second : Value,
      (Matcher.run (Family.follow { grammars := [] } 1 none)
        (.repetition 0 (.optional (.literal "a"))) (.start "aab".toList 0)).1 =
          .matched (.ofList [first, second, .absent]) := ⟨_, _, rfl⟩
  have hstop : (Matcher.run (Family.follow { grammars := [] } 1 none)
      (.repetition 0 (.optional (.literal "a"))) (.start "aab".toList 0)).2.position = 2 := rfl
  rw [hrun] at hyield hstop
  cases hyield
  exact ⟨tried, _, last, hrounds, hfew, rfl, hstop⟩

end Family

end GatedExpr
