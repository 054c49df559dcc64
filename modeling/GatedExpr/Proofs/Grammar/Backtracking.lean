import GatedExpr.Grammar.Basic
import GatedExpr.Proofs.Grammar.Progress

/-! # Backtracking

Whatever a matcher tries, a failure leaves the cursor where it stood and a success only moves it
on, never beyond the end of the source. This holds of a matcher if it holds of the references in
it, and hence of all rules of a family by induction on how deep references are followed. Errors
of a parse therefore point into the source or at its end.
-/

namespace GatedExpr

/-- Every run from inside of the source makes progress, and a failed one ends where it began. -/
def Backtracks {α : Type} (run : Cursor → Outcome α × Cursor) : Prop :=
  ∀ start : Cursor, start.InSource → ∀ {outcome : Outcome α} {next : Cursor},
    run start = (outcome, next) →
      start.Progress next ∧ (outcome = .failed → next.position = start.position)

namespace Matcher

open Cursor (Progress)

variable {follow : Follow}

theorem progress_repeatStep {step : Cursor → Outcome Value × Cursor} (hstep : Backtracks step)
    (rounds : List Char) : ∀ {start : Cursor}, start.InSource →
      ∀ {outcome : Outcome (List Value)} {next : Cursor},
        repeatStep step rounds start = (outcome, next) →
          start.Progress next ∧ outcome ≠ .failed := by
  induction rounds with
  | nil =>
    rintro start hs outcome next ⟨⟩
    exact ⟨.refl hs, nofun⟩
  | cons c rounds ih =>
    intro start hs outcome next h
    rw [repeatStep] at h
    split at h
    · cases h
      exact ⟨.refl hs, nofun⟩
    · split at h
      · next hrun =>
        cases h
        exact ⟨(hstep _ hs hrun).1, nofun⟩
      · next hrun =>
        cases h
        exact ⟨(hstep _ hs hrun).1.rewind, nofun⟩
      · next item after hrun =>
        have hp := (hstep _ hs hrun).1
        split at h
        · cases h
          exact ⟨hp, nofun⟩
        · cases hr : repeatStep step rounds after with
          | mk found last =>
            rw [hr] at h
            cases h
            obtain ⟨hl, hf⟩ := ih (hp.inSource hs) hr
            refine ⟨hp.trans hl, ?_⟩
            cases found <;> simp_all [Outcome.map]

theorem backtracks_literal (expected : String) :
    Backtracks (run follow (.literal expected)) := by
  intro start hs outcome next h
  have hp := Cursor.progress_readLiteral hs expected.toList
  rw [run] at h
  split at h
  · next hr =>
    cases h
    rw [hr] at hp
    refine ⟨hp, ?_⟩
    rintro ⟨⟩
  · next hr =>
    cases h
    have hpos := Cursor.position_readLiteral (congrArg Prod.fst hr)
    rw [hr] at hp hpos
    exact ⟨hp, fun _ => hpos⟩

theorem backtracks_pattern (expected : Pattern) :
    Backtracks (run follow (.pattern expected)) := by
  intro start hs outcome next h
  have hp := Cursor.progress_readPattern hs expected
  rw [run] at h
  split at h
  · next hr =>
    cases h
    rw [hr] at hp
    refine ⟨hp, ?_⟩
    rintro ⟨⟩
  · next hr =>
    cases h
    have hpos := Cursor.position_readPattern (congrArg Prod.fst hr)
    rw [hr] at hp hpos
    exact ⟨hp, fun _ => hpos⟩

mutual

/-- A matcher backtracks if the references in it do. -/
theorem backtracks_run (hf : ∀ owner kind, Backtracks (follow owner kind)) :
    ∀ matcher, Backtracks (run follow matcher)
  | .literal expected => backtracks_literal expected
  | .pattern expected => backtracks_pattern expected
  | .reference owner kind => fun start hs _ _ h => hf owner kind start hs (by rwa [run] at h)
  | .sequence parts => by
    intro start hs outcome next h
    rw [run] at h
    split at h
    · next hr =>
      cases h
      exact ⟨(progress_runEach hf parts hs hr).rewind, fun _ => rfl⟩
    · next found _ hne hr =>
      cases h
      refine ⟨progress_runEach hf parts hs hr, fun he => ?_⟩
      cases found <;> simp_all [Outcome.map]
  | .alternation options => by
    intro start hs outcome next h
    rw [run] at h
    exact backtracks_runFirst hf options _ hs h
  | .repetition atLeast body => by
    intro start hs outcome next h
    rw [run] at h
    split at h
    · next hr =>
      have hp := (progress_repeatStep (backtracks_run hf body) _ hs hr).1
      split at h
      · cases h
        exact ⟨hp.rewind, fun _ => rfl⟩
      · cases h
        exact ⟨hp, nofun⟩
    · next found _ _ hr =>
      cases h
      obtain ⟨hp, hne⟩ := progress_repeatStep (backtracks_run hf body) _ hs hr
      refine ⟨hp, fun he => ?_⟩
      cases found <;> simp_all [Outcome.map]
  | .optional body => by
    intro start hs outcome next h
    rw [run] at h
    split at h
    · next hr =>
      cases h
      exact ⟨(backtracks_run hf body _ hs hr).1.rewind, nofun⟩
    · next hne hr =>
      cases h
      exact ⟨(backtracks_run hf body _ hs hr).1, fun he => (hne he).elim⟩
  | .after skipped body => by
    intro start hs outcome next h
    rw [run] at h
    split at h
    · next after hr =>
      have hp := (backtracks_run hf skipped _ hs hr).1
      split at h
      · next hr' =>
        cases h
        exact ⟨(hp.trans (backtracks_run hf body _ (hp.inSource hs) hr').1).rewind, fun _ => rfl⟩
      · next hne hr' =>
        cases h
        exact ⟨hp.trans (backtracks_run hf body _ (hp.inSource hs) hr').1,
          fun he => (hne he).elim⟩
    · next hr =>
      cases h
      exact ⟨(backtracks_run hf skipped _ hs hr).1.rewind, fun _ => rfl⟩
    · next hr =>
      cases h
      exact ⟨(backtracks_run hf skipped _ hs hr).1, nofun⟩
  | .unrunnable => by
    intro start hs outcome next h
    rw [run] at h
    cases h
    exact ⟨.refl hs, nofun⟩

theorem progress_runEach (hf : ∀ owner kind, Backtracks (follow owner kind)) :
    ∀ (parts : List Matcher) {start : Cursor}, start.InSource →
      ∀ {outcome : Outcome (List Value)} {next : Cursor},
        runEach follow parts start = (outcome, next) → start.Progress next
  | [], start, hs, outcome, next, h => by
    rw [runEach] at h
    cases h
    exact .refl hs
  | part :: parts, start, hs, outcome, next, h => by
    rw [runEach] at h
    split at h
    · next item after hr =>
      have hp := (backtracks_run hf part _ hs hr).1
      cases hr' : runEach follow parts after with
      | mk found last =>
        rw [hr'] at h
        cases h
        exact hp.trans (progress_runEach hf parts (hp.inSource hs) hr')
    · next hr =>
      cases h
      exact (backtracks_run hf part _ hs hr).1
    · next hr =>
      cases h
      exact (backtracks_run hf part _ hs hr).1

theorem backtracks_runFirst (hf : ∀ owner kind, Backtracks (follow owner kind)) :
    ∀ options, Backtracks (runFirst follow options)
  | [] => by
    intro start hs outcome next h
    rw [runFirst] at h
    cases h
    exact ⟨.refl hs, fun _ => rfl⟩
  | option :: options => by
    intro start hs outcome next h
    rw [runFirst] at h
    split at h
    · next hr =>
      have hp := (backtracks_run hf option _ hs hr).1.rewind
      obtain ⟨hl, hpos⟩ := backtracks_runFirst hf options _ (hp.inSource hs) h
      exact ⟨hp.trans hl, hpos⟩
    · next hne hr =>
      cases h
      exact ⟨(backtracks_run hf option _ hs hr).1, fun he => (hne he).elim⟩

end

end Matcher

namespace Descriptor

variable {follow : Follow}

theorem backtracks_fallBack (hf : ∀ owner kind, Backtracks (follow owner kind))
    (descriptor : Descriptor) : Backtracks (descriptor.fallBack follow) := by
  intro start hs outcome next h
  rw [fallBack] at h
  split at h
  · next matcher _ => exact Matcher.backtracks_run hf matcher _ hs h
  · cases h
    exact ⟨.refl hs, fun _ => rfl⟩

/-- A rule backtracks if the references in it do, whatever its transform makes of a match. -/
theorem backtracks_run (hf : ∀ owner kind, Backtracks (follow owner kind))
    (descriptor : Descriptor) : Backtracks (descriptor.run follow) := by
  intro start hs outcome next h
  have hfall : ∀ {after : Cursor}, start.Progress after →
      descriptor.fallBack follow (start.rewind after) = (outcome, next) →
        start.Progress next ∧ (outcome = .failed → next.position = start.position) := by
    intro after hp hb
    obtain ⟨hn, hpos⟩ := backtracks_fallBack hf descriptor _ (hp.rewind.inSource hs) hb
    exact ⟨hp.rewind.trans hn, hpos⟩
  rw [run] at h
  split at h
  · cases h
    exact ⟨.refl hs, nofun⟩
  · next matcher _ =>
    split at h
    · next hr =>
      cases h
      exact ⟨(Matcher.backtracks_run hf matcher _ hs hr).1, nofun⟩
    · next hr => exact hfall (Matcher.backtracks_run hf matcher _ hs hr).1 h
    · next hr =>
      have hp := (Matcher.backtracks_run hf matcher _ hs hr).1
      split at h
      · cases h
        exact ⟨hp, nofun⟩
      · exact hfall hp h
      · cases h
        exact ⟨hp, nofun⟩

end Descriptor

namespace Family

/-- References backtrack, however deep they are followed. -/
theorem backtracks_follow (family : Family) (depth : Nat) :
    ∀ active owner kind, Backtracks (family.follow depth active owner kind) := by
  induction depth with
  | zero =>
    intro active owner kind start hs outcome next h
    rw [follow] at h
    cases h
    exact ⟨.refl hs, nofun⟩
  | succ depth ih =>
    intro active owner kind start hs outcome next h
    simp only [follow] at h
    split at h
    · cases h
      exact ⟨.refl hs, nofun⟩
    · next home descriptor _ => exact Descriptor.backtracks_run (ih (some home)) descriptor _ hs h

end Family

end GatedExpr
