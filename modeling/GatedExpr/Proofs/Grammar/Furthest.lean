import GatedExpr.Proofs.Grammar.Backtracking

/-! # The furthest offset

The furthest offset serves error messages only. What a run yields and where it stops follow from
the source and the place at which it starts. While it runs it notes offsets, the same ones whatever
the furthest offset was before, and the furthest offset afterwards is the largest of them all.
-/

namespace GatedExpr

namespace Cursor

variable {source : List Char} {position furthest : Int}

/-- The cursor at a place of a source that has come as far as `furthest`. -/
def standing (source : List Char) (position furthest : Int) : Cursor :=
  { start source position with furthest }

theorem standing_eq (cursor : Cursor) :
    standing cursor.source cursor.position cursor.furthest = cursor := by
  cases cursor with
  | mk source position furthest rest rest_eq => simp [standing, start, rest_eq]

@[simp]
theorem startsWith_standing (text : List Char) :
    (standing source position furthest).startsWith text = (start source position).startsWith text :=
  rfl

@[simp]
theorem rest_standing : (standing source position furthest).rest = (start source position).rest :=
  rfl

@[simp]
theorem atEnd_standing :
    (standing source position furthest).atEnd = (start source position).atEnd :=
  rfl

@[simp]
theorem ahead_standing :
    (standing source position furthest).ahead = (start source position).ahead :=
  rfl

@[simp]
theorem rewind_standing (position later furthest known : Int) :
    (standing source position furthest).rewind (standing source later known) =
      standing source position known :=
  rfl

@[simp]
theorem touch_standing : (standing source position furthest).touch =
    standing source position (max furthest position) :=
  rfl

theorem advance_standing (length : Nat) :
    (standing source position furthest).advance length =
      standing source (position + length) (max furthest (position + length)) := by
  unfold advance
  split
  · next h =>
    have hrest := drop_rest (standing source position furthest) length h
    simp only [touch, hrest]
    rfl
  · rfl

/-- Where patterns are tried does not depend on the furthest offset. -/
theorem exists_clamp_standing (source : List Char) (position : Int) :
    ∃ inside, ∀ furthest, (standing source position furthest).clamp =
      standing source inside furthest := by
  by_cases hneg : position < 0
  · exact ⟨0, fun furthest => if_pos hneg⟩
  by_cases hrest : (start source position).rest.isEmpty = true
  · exact ⟨min position source.length, fun furthest => (if_neg hneg).trans (if_pos hrest)⟩
  · exact ⟨position, fun furthest => (if_neg hneg).trans (if_neg hrest)⟩

end Cursor

/-- Whatever the furthest offset is, a run from that place yields `outcome`, stops at `stop` and
notes the offsets `noted`. -/
def Notes {α : Type} (run : Cursor → Outcome α × Cursor) (source : List Char) (position : Int)
    (outcome : Outcome α) (stop : Int) (noted : List Int) : Prop :=
  ∀ furthest, run (.standing source position furthest) =
    (outcome, .standing source stop (noted.foldl max furthest))

/-- The furthest offset has no say in the run, wherever it starts. A failed run stops where it
started. -/
def IgnoresFurthest {α : Type} (run : Cursor → Outcome α × Cursor) : Prop :=
  ∀ source position, ∃ outcome stop noted,
    Notes run source position outcome stop noted ∧ (outcome = .failed → stop = position)

namespace IgnoresFurthest

variable {α : Type} {run : Cursor → Outcome α × Cursor}

/-- A run that notes nothing and stays where it is. -/
theorem stay (outcome : Outcome α) (h : ∀ cursor, run cursor = (outcome, cursor)) :
    IgnoresFurthest run :=
  fun _ position => ⟨outcome, position, [], fun _ => h _, fun _ => rfl⟩

end IgnoresFurthest

namespace Matcher

variable {follow : Follow}

theorem ignoresFurthest_literal (expected : String) :
    IgnoresFurthest (run follow (.literal expected)) := by
  intro source position
  let text := expected.toList
  cases h : (Cursor.start source position).startsWith text with
  | true =>
    refine ⟨.matched (.ofTree (.token expected ⟨position, position + text.length⟩)),
      position + text.length, [position + text.length], fun furthest => ?_, nofun⟩
    rw [run, Cursor.readLiteral, Cursor.startsWith_standing, if_pos h, Cursor.advance_standing]
    rfl
  | false =>
    refine ⟨.failed, position, [position], fun furthest => ?_, fun _ => rfl⟩
    rw [run, Cursor.readLiteral, Cursor.startsWith_standing, if_neg (Bool.eq_false_iff.mp h),
      Cursor.touch_standing]
    rfl

theorem ignoresFurthest_pattern (expected : Pattern) :
    IgnoresFurthest (run follow (.pattern expected)) := by
  intro source position
  obtain ⟨inside, hclamp⟩ := Cursor.exists_clamp_standing source position
  cases h : expected.match? (Cursor.start source inside).rest with
  | some way =>
    let raw := (Cursor.start source inside).rest.take way.length
    refine ⟨.matched (.ofTree (.token (String.ofList raw) ⟨position, inside + way.length⟩)),
      inside + way.length, [inside + way.length], fun furthest => ?_, nofun⟩
    rw [run, Cursor.readPattern, hclamp]
    simp only [Cursor.rest_standing, h, Cursor.advance_standing]
    rfl
  | none =>
    refine ⟨.failed, position, [position], fun furthest => ?_, fun _ => rfl⟩
    rw [run, Cursor.readPattern, hclamp]
    simp only [Cursor.rest_standing, h, Cursor.touch_standing]
    rfl

/-- Rounds of a repetition never fail: where one does, the repetition stops. -/
theorem notes_repeatStep {step : Cursor → Outcome Value × Cursor} (hstep : IgnoresFurthest step)
    (source : List Char) (rounds : List Char) : ∀ position, ∃ outcome stop noted,
      Notes (repeatStep step rounds) source position outcome stop noted ∧ outcome ≠ .failed := by
  induction rounds with
  | nil =>
    exact fun position => ⟨.matched [], position, [], fun _ => by rw [repeatStep]; rfl, by simp⟩
  | cons c rounds ih =>
    intro position
    by_cases hend : (Cursor.start source position).atEnd = true
    · refine ⟨.matched [], position, [], fun furthest => ?_, by simp⟩
      rw [repeatStep, Cursor.atEnd_standing, if_pos hend]
      rfl
    obtain ⟨outcome, stop, noted, hrun, -⟩ := hstep source position
    cases outcome with
    | broken fault =>
      refine ⟨.broken fault, stop, noted, fun furthest => ?_, by simp⟩
      rw [repeatStep, Cursor.atEnd_standing, if_neg hend, hrun]
    | failed =>
      refine ⟨.matched [], position, noted, fun furthest => ?_, by simp⟩
      rw [repeatStep, Cursor.atEnd_standing, if_neg hend, hrun]
      rfl
    | matched item =>
      by_cases hmoved : stop = position
      · refine ⟨.matched [item], stop, noted, fun furthest => ?_, by simp⟩
        rw [repeatStep, Cursor.atEnd_standing, if_neg hend, hrun]
        exact if_pos hmoved
      · obtain ⟨found, last, later, hrest, hnever⟩ := ih stop
        refine ⟨found.map (item :: ·), last, noted ++ later, fun furthest => ?_,
          by cases found <;> simp_all [Outcome.map]⟩
        rw [repeatStep, Cursor.atEnd_standing, if_neg hend, hrun, List.foldl_append]
        have hround := hrest (noted.foldl max furthest)
        refine (if_neg hmoved).trans ?_
        rw [hround]

mutual

/-- The furthest offset has no say in a matcher if it has none in the references in it. -/
theorem ignoresFurthest_run (hf : ∀ owner kind, IgnoresFurthest (follow owner kind)) :
    ∀ matcher, IgnoresFurthest (run follow matcher)
  | .literal expected => ignoresFurthest_literal expected
  | .pattern expected => ignoresFurthest_pattern expected
  | .reference owner kind => by
    intro source position
    obtain ⟨outcome, stop, noted, hrun, hfailed⟩ := hf owner kind source position
    exact ⟨outcome, stop, noted, fun furthest => by rw [run, hrun], hfailed⟩
  | .sequence parts => by
    intro source position
    obtain ⟨outcome, stop, noted, hrun⟩ := notes_runEach hf source parts position
    cases outcome with
    | failed =>
      refine ⟨.failed, position, noted, fun furthest => ?_, fun _ => rfl⟩
      rw [run, hrun]
      rfl
    | matched items =>
      exact ⟨.matched (.ofList items), stop, noted, fun furthest => by rw [run, hrun]; rfl, nofun⟩
    | broken fault =>
      exact ⟨.broken fault, stop, noted, fun furthest => by rw [run, hrun]; rfl, nofun⟩
  | .alternation options => by
    intro source position
    obtain ⟨outcome, stop, noted, hrun, hfailed⟩ :=
      ignoresFurthest_runFirst hf options source position
    exact ⟨outcome, stop, noted, fun furthest => by rw [run, hrun], hfailed⟩
  | .repetition atLeast body => by
    intro source position
    obtain ⟨outcome, stop, noted, hrun, hnever⟩ :=
      notes_repeatStep (ignoresFurthest_run hf body) source
        (Cursor.start source position).ahead position
    cases outcome with
    | matched items =>
      by_cases hfew : items.length < atLeast
      · refine ⟨.failed, position, noted, fun furthest => ?_, fun _ => rfl⟩
        rw [run, Cursor.ahead_standing, hrun]
        exact if_pos hfew
      · refine ⟨.matched (.ofList items), stop, noted, fun furthest => ?_, nofun⟩
        rw [run, Cursor.ahead_standing, hrun]
        exact if_neg hfew
    | failed => exact absurd rfl hnever
    | broken fault =>
      refine ⟨.broken fault, stop, noted, fun furthest => ?_, nofun⟩
      rw [run, Cursor.ahead_standing, hrun]
      rfl
  | .optional body => by
    intro source position
    obtain ⟨outcome, stop, noted, hrun, -⟩ := ignoresFurthest_run hf body source position
    cases outcome with
    | failed =>
      refine ⟨.matched .absent, position, noted, fun furthest => ?_, nofun⟩
      rw [run, hrun]
      rfl
    | matched item => exact ⟨.matched item, stop, noted, fun furthest => by rw [run, hrun], nofun⟩
    | broken fault => exact ⟨.broken fault, stop, noted, fun furthest => by rw [run, hrun], nofun⟩
  | .after skipped body => by
    intro source position
    obtain ⟨outcome, stop, noted, hrun, -⟩ := ignoresFurthest_run hf skipped source position
    cases outcome with
    | failed =>
      refine ⟨.failed, position, noted, fun furthest => ?_, fun _ => rfl⟩
      rw [run, hrun]
      rfl
    | broken fault => exact ⟨.broken fault, stop, noted, fun furthest => by rw [run, hrun], nofun⟩
    | matched item =>
      obtain ⟨found, last, later, hbody, -⟩ := ignoresFurthest_run hf body source stop
      cases found with
      | failed =>
        refine ⟨.failed, position, noted ++ later, fun furthest => ?_, fun _ => rfl⟩
        rw [run, hrun, List.foldl_append]
        simp only [hbody (noted.foldl max furthest)]
        rfl
      | matched result =>
        refine ⟨.matched result, last, noted ++ later, fun furthest => ?_, nofun⟩
        rw [run, hrun, List.foldl_append]
        simp only [hbody (noted.foldl max furthest)]
      | broken fault =>
        refine ⟨.broken fault, last, noted ++ later, fun furthest => ?_, nofun⟩
        rw [run, hrun, List.foldl_append]
        simp only [hbody (noted.foldl max furthest)]
  | .unrunnable => .stay (.broken .nothingToRun) fun cursor => by rw [run]

theorem notes_runEach (hf : ∀ owner kind, IgnoresFurthest (follow owner kind))
    (source : List Char) : ∀ (parts : List Matcher) (position : Int), ∃ outcome stop noted,
      Notes (runEach follow parts) source position outcome stop noted
  | [], position => ⟨.matched [], position, [], fun furthest => by rw [runEach]; rfl⟩
  | part :: parts, position => by
    obtain ⟨outcome, stop, noted, hrun, -⟩ := ignoresFurthest_run hf part source position
    cases outcome with
    | failed => exact ⟨.failed, stop, noted, fun furthest => by rw [runEach, hrun]⟩
    | broken fault => exact ⟨.broken fault, stop, noted, fun furthest => by rw [runEach, hrun]⟩
    | matched item =>
      obtain ⟨found, last, later, hrest⟩ := notes_runEach hf source parts stop
      refine ⟨found.map (item :: ·), last, noted ++ later, fun furthest => ?_⟩
      rw [runEach, hrun, List.foldl_append]
      simp only [hrest (noted.foldl max furthest)]

theorem ignoresFurthest_runFirst (hf : ∀ owner kind, IgnoresFurthest (follow owner kind)) :
    ∀ options, IgnoresFurthest (runFirst follow options)
  | [] => .stay .failed fun cursor => by rw [runFirst]
  | option :: options => by
    intro source position
    obtain ⟨outcome, stop, noted, hrun, -⟩ := ignoresFurthest_run hf option source position
    cases outcome with
    | failed =>
      obtain ⟨found, last, later, hrest, hfailed⟩ :=
        ignoresFurthest_runFirst hf options source position
      refine ⟨found, last, noted ++ later, fun furthest => ?_, hfailed⟩
      rw [runFirst, hrun, List.foldl_append, ← hrest]
      rfl
    | matched item =>
      exact ⟨.matched item, stop, noted, fun furthest => by rw [runFirst, hrun], nofun⟩
    | broken fault =>
      exact ⟨.broken fault, stop, noted, fun furthest => by rw [runFirst, hrun], nofun⟩

end

end Matcher

namespace Descriptor

variable {follow : Follow}

theorem ignoresFurthest_fallBack (hf : ∀ owner kind, IgnoresFurthest (follow owner kind))
    (descriptor : Descriptor) : IgnoresFurthest (descriptor.fallBack follow) := by
  cases h : descriptor.fallback with
  | none => exact .stay .failed fun cursor => by rw [fallBack, h]
  | some matcher =>
    intro source position
    obtain ⟨outcome, stop, noted, hrun, hfailed⟩ :=
      Matcher.ignoresFurthest_run hf matcher source position
    exact ⟨outcome, stop, noted, fun furthest => by rw [fallBack, h]; exact hrun furthest, hfailed⟩

/-- The furthest offset has no say in a rule if it has none in the references in it, whatever its
transform makes of a match. -/
theorem ignoresFurthest_run (hf : ∀ owner kind, IgnoresFurthest (follow owner kind))
    (descriptor : Descriptor) : IgnoresFurthest (descriptor.run follow) := by
  cases hrule : descriptor.rule with
  | none => exact .stay (.broken .nothingToRun) fun cursor => by rw [run, hrule]
  | some matcher =>
    intro source position
    obtain ⟨outcome, stop, noted, hrun, -⟩ :=
      Matcher.ignoresFurthest_run hf matcher source position
    obtain ⟨found, last, later, hback, hfailed⟩ :=
      ignoresFurthest_fallBack hf descriptor source position
    cases outcome with
    | broken fault =>
      exact ⟨.broken fault, stop, noted, fun furthest => by simp only [run, hrule, hrun furthest],
        by simp⟩
    | failed =>
      refine ⟨found, last, noted ++ later, fun furthest => ?_, hfailed⟩
      simp only [run, hrule, hrun furthest, Cursor.rewind_standing, List.foldl_append]
      exact hback _
    | matched value =>
      cases hmade : descriptor.transformed value with
      | error fault =>
        refine ⟨.broken fault, stop, noted, fun furthest => ?_, by simp⟩
        simp only [run, hrule, hrun furthest, hmade]
      | ok made =>
        cases made with
        | none =>
          refine ⟨found, last, noted ++ later, fun furthest => ?_, hfailed⟩
          simp only [run, hrule, hrun furthest, hmade, Cursor.rewind_standing, List.foldl_append]
          exact hback _
        | some result =>
          refine ⟨.matched (settle descriptor.kind ⟨position, stop⟩ result), stop, noted,
            fun furthest => ?_, by simp⟩
          simp only [run, hrule, hrun furthest, hmade]
          rfl

end Descriptor

/-- The furthest offset has no say in references, however deep they are followed. -/
theorem Family.ignoresFurthest_follow (family : Family) (depth : Nat) :
    ∀ active owner kind, IgnoresFurthest (family.follow depth active owner kind) := by
  induction depth with
  | zero => exact fun _ _ _ => .stay (.broken .nestedTooDeeply) fun cursor => by rw [follow]
  | succ depth ih =>
    intro active owner kind
    cases h : family.resolve? active owner kind with
    | none => exact .stay (.broken (.unknownRule kind)) fun cursor => by simp only [follow, h]
    | some resolved =>
      have hrun : family.follow (depth + 1) active owner kind =
          resolved.2.run (family.follow depth (some resolved.1)) := by
        funext cursor
        simp only [follow, h]
      rw [hrun]
      exact Descriptor.ignoresFurthest_run (ih (some resolved.1)) resolved.2

/-! ## Two runs from one place -/

theorem foldl_max_of_le {least furthest : Int} (noted : List Int) (h : least ≤ furthest) :
    noted.foldl max furthest = max furthest (noted.foldl max least) := by
  induction noted generalizing least furthest with
  | nil => exact (max_eq_left h).symm
  | cons offset noted ih =>
    have hnoted := ih (max_le_max_right offset h)
    have hoffset : offset ≤ noted.foldl max (max least offset) := by
      have := ih (le_max_right least offset)
      have := le_max_left offset (noted.foldl max offset)
      omega
    simp only [List.foldl_cons]
    omega

/-- What a run yields and where it stops does not depend on the furthest offset so far. It raises
that offset to one that the source and the place decide. -/
structure FurthestUnseen {α : Type} (run : Cursor → Outcome α × Cursor) : Prop where
  same : ∀ {one other : Cursor}, one.source = other.source → one.position = other.position →
    (run one).1 = (run other).1 ∧ (run one).2.source = (run other).2.source ∧
      (run one).2.position = (run other).2.position
  /-- The bound `least` matters only where no offset is noted at all. -/
  raised : ∀ source position (least : Int), ∃ offset, least ≤ offset ∧
    (0 ≤ position → position ≤ source.length → least ≤ source.length → offset ≤ source.length) ∧
    ∀ start : Cursor, start.source = source → start.position = position → least ≤ start.furthest →
      (run start).2.furthest = max start.furthest offset

namespace IgnoresFurthest

variable {α : Type} {run : Cursor → Outcome α × Cursor}

theorem same (h : IgnoresFurthest run) {one other : Cursor} (hsource : one.source = other.source)
    (hposition : one.position = other.position) :
    (run one).1 = (run other).1 ∧ (run one).2.source = (run other).2.source ∧
      (run one).2.position = (run other).2.position := by
  obtain ⟨outcome, stop, noted, hrun, -⟩ := h one.source one.position
  have hone := hrun one.furthest
  have hother := hrun other.furthest
  rw [Cursor.standing_eq] at hone
  rw [hsource, hposition, Cursor.standing_eq] at hother
  rw [hone, hother]
  exact ⟨rfl, hsource, rfl⟩

theorem position_of_failed (h : IgnoresFurthest run) {start : Cursor}
    (hfailed : (run start).1 = .failed) : (run start).2.position = start.position := by
  obtain ⟨outcome, stop, noted, hrun, hstop⟩ := h start.source start.position
  have hstart := hrun start.furthest
  rw [Cursor.standing_eq] at hstart
  rw [hstart] at hfailed ⊢
  exact hstop hfailed

theorem unseen (h : IgnoresFurthest run) (hback : Backtracks run) : FurthestUnseen run where
  same := h.same
  raised source position least := by
    obtain ⟨outcome, stop, noted, hrun, -⟩ := h source position
    refine ⟨noted.foldl max least, ?_, fun hnonneg hle hleast => ?_, ?_⟩
    · have := foldl_max_of_le noted (le_refl least)
      omega
    · exact (hback _ ⟨hnonneg, hle⟩ (hrun least)).1.furthest_inside hleast
    · rintro start rfl rfl hleast
      have hstart := hrun start.furthest
      rw [Cursor.standing_eq] at hstart
      rw [hstart]
      exact foldl_max_of_le noted hleast

end IgnoresFurthest

namespace Matcher

variable {follow : Follow}

theorem runFirst_cons_of_failed {option : Matcher} {start : Cursor}
    (h : (run follow option start).1 = .failed) (options : List Matcher) :
    runFirst follow (option :: options) start =
      runFirst follow options (start.rewind (run follow option start).2) := by
  rw [runFirst]
  split
  · next hrun => rw [hrun]
  · next hne hrun => exact (hne (by rw [← h, hrun])).elim

/-- One alternative is as good as none. -/
theorem runFirst_singleton (hf : ∀ owner kind, IgnoresFurthest (follow owner kind))
    (matcher : Matcher) (start : Cursor) :
    (runFirst follow [matcher] start).1 = (run follow matcher start).1 ∧
      (runFirst follow [matcher] start).2.position = (run follow matcher start).2.position := by
  by_cases h : (run follow matcher start).1 = .failed
  · rw [runFirst_cons_of_failed h, runFirst]
    exact ⟨h.symm, ((ignoresFurthest_run hf matcher).position_of_failed h).symm⟩
  · rw [runFirst]
    split
    · next hrun => exact (h (by rw [hrun])).elim
    · next hrun =>
      rw [hrun]
      exact ⟨rfl, rfl⟩

/-- Alternatives that fail where a run starts have no say in what the ones after them do. -/
theorem runFirst_append_of_failed (hf : ∀ owner kind, IgnoresFurthest (follow owner kind))
    (failing options : List Matcher) : ∀ start : Cursor,
      (∀ option ∈ failing, (run follow option start).1 = .failed) →
        (runFirst follow (failing ++ options) start).1 = (runFirst follow options start).1 ∧
        (runFirst follow (failing ++ options) start).2.position =
          (runFirst follow options start).2.position := by
  induction failing with
  | nil => exact fun start _ => ⟨rfl, rfl⟩
  | cons first failing ih =>
    intro start hfailing
    rw [List.cons_append, runFirst_cons_of_failed (hfailing first List.mem_cons_self)]
    -- Going back after the first failure, all is as before but for the furthest offset.
    have hback {run : Cursor → Outcome Value × Cursor} (h : IgnoresFurthest run) (later : Cursor) :
        (run (start.rewind later)).1 = (run start).1 ∧
          (run (start.rewind later)).2.position = (run start).2.position :=
      have hsame := h.same (show (start.rewind later).source = start.source from rfl) rfl
      ⟨hsame.1, hsame.2.2⟩
    obtain ⟨hyield, hstop⟩ := ih (start.rewind (run follow first start).2) fun option hmem =>
      (hback (ignoresFurthest_run hf option) _).1.trans
        (hfailing option (List.mem_cons_of_mem _ hmem))
    obtain ⟨hyield', hstop'⟩ := hback (ignoresFurthest_runFirst hf options)
      (run follow first start).2
    exact ⟨hyield.trans hyield', hstop.trans hstop'⟩

end Matcher

/-- Results never depend on the furthest offset. Two runs of a matcher or of a rule from one place
yield the same and stop at the same place, and the furthest offset afterwards is the larger of the
one before and one that the source and the place decide. So alternatives that fail first change
neither what a matcher yields nor where it stops. -/
theorem Family.furthest_unseen (family : Family) (depth : Nat) (active : Option GrammarId) :
    (∀ matcher, FurthestUnseen (Matcher.run (family.follow depth active) matcher)) ∧
    (∀ descriptor, FurthestUnseen (Descriptor.run (family.follow depth active) descriptor)) ∧
    ∀ (matcher : Matcher) (failing : List Matcher) (start : Cursor),
      (∀ option ∈ failing, (option.run (family.follow depth active) start).1 = .failed) →
        let afterwards := (Matcher.alternation (failing ++ [matcher])).run
          (family.follow depth active) start
        afterwards.1 = (matcher.run (family.follow depth active) start).1 ∧
          afterwards.2.position = (matcher.run (family.follow depth active) start).2.position := by
  have hignores := family.ignoresFurthest_follow depth active
  have hback := family.backtracks_follow depth active
  refine ⟨fun matcher => ?_, fun descriptor => ?_, fun matcher failing start hfailing => ?_⟩
  · exact (Matcher.ignoresFurthest_run hignores matcher).unseen
      (Matcher.backtracks_run hback matcher)
  · exact (Descriptor.ignoresFurthest_run hignores descriptor).unseen
      (Descriptor.backtracks_run hback descriptor)
  · obtain ⟨hyield, hstop⟩ :=
      Matcher.runFirst_append_of_failed hignores failing [matcher] start hfailing
    obtain ⟨hyield', hstop'⟩ := Matcher.runFirst_singleton hignores matcher start
    simp only [Matcher.run]
    exact ⟨hyield.trans hyield', hstop.trans hstop'⟩

/-- The second alternative reads a letter before it fails. -/
theorem Family.furthest_unseen_after_two_failures :
    let follow := Family.follow { grammars := [] } 1 none
    let start := Cursor.start ['a', 'b'] 0
    let ahead : Matcher := .sequence [.literal "a", .literal "x"]
    (Matcher.run follow (.literal "b") start).1 = .failed ∧ (ahead.run follow start).1 = .failed ∧
      (ahead.run follow start).2.furthest = 1 ∧
      ((Matcher.alternation [.literal "b", ahead, .literal "a"]).run follow start).1 =
        (Matcher.run follow (.literal "a") start).1 := by
  refine ⟨rfl, rfl, rfl, ?_⟩
  exact ((Family.furthest_unseen { grammars := [] } 1 none).2.2 (.literal "a")
    [.literal "b", .sequence [.literal "a", .literal "x"]] (.start ['a', 'b'] 0)
    (by simp only [List.forall_mem_cons]; exact ⟨rfl, rfl, nofun⟩)).1

end GatedExpr
