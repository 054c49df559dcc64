import GatedExpr.Proofs.Grammar.Backtracking

/-! # What breaks a run off

A run that breaks off does so because the engine cannot go on, or because the transform of a rule
refused what was matched with a fault of its own. Parse errors of other runs come from the parse
itself, which reports the furthest offset: a place in the source, or its end.
-/

namespace GatedExpr

/-- Runs break off with faults of one kind only. -/
def BreaksWith {α : Type} (P : Fault → Prop) (run : Cursor → Outcome α × Cursor) : Prop :=
  ∀ start : Cursor, ∀ {fault : Fault} {next : Cursor}, run start = (.broken fault, next) → P fault

theorem Outcome.map_eq_broken {α β : Type} {f : α → β} {outcome : Outcome α} {fault : Fault} :
    outcome.map f = .broken fault ↔ outcome = .broken fault := by
  cases outcome <;> simp [Outcome.map]

namespace Matcher

variable {follow : Follow} {P : Fault → Prop}

theorem breaksWith_repeatStep {step : Cursor → Outcome Value × Cursor} (hstep : BreaksWith P step)
    (rounds : List Char) : BreaksWith P (repeatStep step rounds) := by
  induction rounds with
  | nil => rintro start fault next ⟨⟩
  | cons c rounds ih =>
    intro start fault next h
    rw [repeatStep] at h
    split at h
    · cases h
    · split at h
      · next hr =>
        cases h
        exact hstep _ hr
      · cases h
      · next after _ =>
        split at h
        · cases h
        · obtain ⟨hb, hl⟩ := Prod.mk.inj h
          exact ih after (Prod.ext (Outcome.map_eq_broken.mp hb) hl)

mutual

/-- A run breaks off with what the references in the matcher break off with, if not because
there is nothing to run. -/
theorem breaksWith_run (hf : ∀ owner kind, BreaksWith P (follow owner kind))
    (hn : P .nothingToRun) : ∀ matcher, BreaksWith P (run follow matcher)
  | .literal expected => by
    intro start fault next h
    rw [run] at h
    split at h <;> cases h
  | .pattern expected => by
    intro start fault next h
    rw [run] at h
    split at h <;> cases h
  | .reference owner kind => fun start _ _ h => hf owner kind start (by rwa [run] at h)
  | .sequence parts => by
    intro start fault next h
    rw [run] at h
    split at h
    · cases h
    · next hr =>
      obtain ⟨hb, rfl⟩ := Prod.mk.inj h
      rw [Outcome.map_eq_broken] at hb
      exact breaksWith_runEach hf hn parts _ (hb ▸ hr)
  | .alternation options => by
    intro start fault next h
    rw [run] at h
    exact breaksWith_runFirst hf hn options _ h
  | .repetition atLeast body => by
    intro start fault next h
    rw [run] at h
    split at h
    · split at h <;> cases h
    · next hr =>
      obtain ⟨hb, rfl⟩ := Prod.mk.inj h
      rw [Outcome.map_eq_broken] at hb
      exact breaksWith_repeatStep (breaksWith_run hf hn body) _ _ (hb ▸ hr)
  | .optional body => by
    intro start fault next h
    rw [run] at h
    split at h
    · cases h
    · next hr => exact breaksWith_run hf hn body _ (hr.trans h)
  | .after skipped body => by
    intro start fault next h
    rw [run] at h
    split at h
    · split at h
      · cases h
      · next hr => exact breaksWith_run hf hn body _ (hr.trans h)
    · cases h
    · next hr =>
      cases h
      exact breaksWith_run hf hn skipped _ hr
  | .unrunnable => by
    intro start fault next h
    rw [run] at h
    cases h
    exact hn

theorem breaksWith_runEach (hf : ∀ owner kind, BreaksWith P (follow owner kind))
    (hn : P .nothingToRun) : ∀ parts, BreaksWith P (runEach follow parts)
  | [] => by
    intro start fault next h
    rw [runEach] at h
    cases h
  | part :: parts => by
    intro start fault next h
    rw [runEach] at h
    split at h
    · next after _ =>
      obtain ⟨hb, hl⟩ := Prod.mk.inj h
      exact breaksWith_runEach hf hn parts after (Prod.ext (Outcome.map_eq_broken.mp hb) hl)
    · cases h
    · next hr =>
      cases h
      exact breaksWith_run hf hn part _ hr

theorem breaksWith_runFirst (hf : ∀ owner kind, BreaksWith P (follow owner kind))
    (hn : P .nothingToRun) : ∀ options, BreaksWith P (runFirst follow options)
  | [] => by
    intro start fault next h
    rw [runFirst] at h
    cases h
  | option :: options => by
    intro start fault next h
    rw [runFirst] at h
    split at h
    · exact breaksWith_runFirst hf hn options _ h
    · next hr => exact breaksWith_run hf hn option _ (hr.trans h)

end

end Matcher

namespace Family

/-- Some transform of a registered rule fails with the fault. -/
def Raises (family : Family) (fault : Fault) : Prop :=
  ∃ grammar ∈ family.grammars, ∃ entry ∈ grammar.rules, ∃ transform,
    entry.2.onMatch = some transform ∧ ∃ items, transform items = .error fault

/-- The faults that runs break off with: those of the engine itself, and those of transforms. -/
def MayBreak (family : Family) (fault : Fault) : Prop :=
  fault = .nothingToRun ∨ fault = .nestedTooDeeply ∨ (∃ kind, fault = .unknownRule kind) ∨
    family.Raises fault

/-- The rule stands among those of one of the grammars. -/
def Registers (family : Family) (descriptor : Descriptor) : Prop :=
  ∃ grammar ∈ family.grammars, ∃ entry ∈ grammar.rules, entry.2 = descriptor

theorem raises_of_transformed {family : Family} {descriptor : Descriptor}
    (hr : family.Registers descriptor) {value : Value} {fault : Fault}
    (h : descriptor.transformed value = .error fault) : family.Raises fault := by
  obtain ⟨grammar, hg, entry, he, rfl⟩ := hr
  unfold Descriptor.transformed at h
  split at h
  · cases h
  · next ht => exact ⟨grammar, hg, entry, he, _, ht, _, h⟩
  · next ht _ => exact ⟨grammar, hg, entry, he, _, ht, _, h⟩

theorem registers_of_rule? {family : Family} {id : GrammarId} {kind : String}
    {descriptor : Descriptor} (h : family.rule? id kind = some descriptor) :
    family.Registers descriptor := by
  obtain ⟨grammar, hg, hl⟩ := Option.bind_eq_some_iff.mp h
  exact ⟨grammar, List.mem_of_getElem? hg, _, Table.mem_of_lookup hl, rfl⟩

theorem registers_of_resolve? {family : Family} {active : Option GrammarId} {owner home : GrammarId}
    {kind : String} {descriptor : Descriptor}
    (h : family.resolve? active owner kind = some (home, descriptor)) :
    family.Registers descriptor := by
  unfold resolve? at h
  simp only at h
  split at h
  · next hr =>
    cases h
    exact registers_of_rule? hr
  · obtain ⟨found, hr, he⟩ := Option.map_eq_some_iff.mp h
    cases he
    exact registers_of_rule? hr

theorem breaksWith_descriptor {family : Family} {follow : Follow} {descriptor : Descriptor}
    (hf : ∀ owner kind, BreaksWith family.MayBreak (follow owner kind))
    (hr : family.Registers descriptor) : BreaksWith family.MayBreak (descriptor.run follow) := by
  have hfall : BreaksWith family.MayBreak (descriptor.fallBack follow) := by
    intro start fault next h
    unfold Descriptor.fallBack at h
    split at h
    · exact Matcher.breaksWith_run hf (.inl rfl) _ _ h
    · cases h
  intro start fault next h
  unfold Descriptor.run at h
  split at h
  · cases h
    exact .inl rfl
  · split at h
    · next hm =>
      cases h
      exact Matcher.breaksWith_run hf (.inl rfl) _ _ hm
    · exact hfall _ h
    · split at h
      · next ht =>
        cases h
        exact .inr (.inr (.inr (raises_of_transformed hr ht)))
      · exact hfall _ h
      · cases h

theorem breaksWith_follow (family : Family) (depth : Nat) :
    ∀ active owner kind, BreaksWith family.MayBreak (family.follow depth active owner kind) := by
  induction depth with
  | zero =>
    intro active owner kind start fault next h
    rw [follow] at h
    cases h
    exact .inr (.inl rfl)
  | succ depth ih =>
    intro active owner kind start fault next h
    simp only [follow] at h
    split at h
    · cases h
      exact .inr (.inr (.inl ⟨kind, rfl⟩))
    · next home descriptor hr =>
      exact breaksWith_descriptor (ih (some home)) (registers_of_resolve? hr) _ h

end Family

/-! ## Errors of a parse -/

theorem ParseReason.message_eq_iff (reason : ParseReason) :
    reason.message = "Unexpected end of input" ↔ reason = .endOfInput := by
  cases reason with
  | endOfInput => simp [message]
  | nestedTooDeeply => simp [message]
  | unexpected c =>
    constructor
    · intro h
      -- What follows the first word is a quotation mark.
      have hq := congrArg String.toList h
      simp only [message, quote, String.toList_append, String.toList_singleton,
        String.toList_ofList] at hq
      simp only [Text.quoted, Text.quoteMark] at hq
      split at hq <;> simp at hq
    · nofun

namespace Family

theorem errorAt_inside {source : List Char} {cursor : Cursor}
    (h : (Cursor.start source 0).Progress cursor) :
    (errorAt cursor).position ≤ source.length ∧
      ((errorAt cursor).message = "Unexpected end of input" ↔
        (errorAt cursor).position = source.length) := by
  have hs : cursor.source = source := h.source_eq
  have hi : cursor.furthest ≤ source.length := h.furthest_inside (by simp [Cursor.start])
  have hn : (0 : Int) ≤ cursor.furthest := h.furthest_le
  refine ⟨by simp only [errorAt]; omega, ?_⟩
  rw [ParseError.message, ParseReason.message_eq_iff]
  simp only [errorAt, hs]
  cases hc : source[cursor.furthest.toNat]? with
  | none =>
    have := List.getElem?_eq_none_iff.mp hc
    simp only [true_iff]
    omega
  | some c =>
    have := (List.getElem?_eq_some_iff.mp hc).1
    simp only [reduceCtorEq, false_iff]
    omega

theorem parse_error {family : Family} {id : GrammarId} {source : List Char} {kind : String}
    {error : ParseError} (h : family.parse id source kind = .error (.parse error)) :
    error.reason = .nestedTooDeeply ∨ family.Raises (.parse error) ∨
      ∃ cursor, (Cursor.start source 0).Progress cursor ∧ error = errorAt cursor := by
  have hback : ∀ {matcher : Matcher} {active : Option GrammarId} {start : Cursor}, start.InSource →
      start.Progress (matcher.run (family.follow nestingLimit active) start).2 := fun hs =>
    (Matcher.backtracks_run (family.backtracks_follow _ _) _ _ hs rfl).1
  have hstart := Cursor.inSource_start source
  unfold parse parseKeeping at h
  split at h
  · cases h
  · next grammar hg =>
    split at h
    · cases h
    · next descriptor hl =>
      have hrun : ∀ {outcome : Outcome Value} {next : Cursor},
          family.runRule id descriptor (.start source 0) = (outcome, next) →
            (Cursor.start source 0).Progress next := fun hr =>
        (Descriptor.backtracks_run (family.backtracks_follow _ _) descriptor _ hstart hr).1
      split at h
      · cases h
        exact .inl rfl
      · next fault cursor _ hr =>
        cases h
        have hreg : family.Registers descriptor :=
          ⟨grammar, List.mem_of_getElem? hg, _, Table.mem_of_lookup hl, rfl⟩
        rcases breaksWith_descriptor (family.breaksWith_follow _ _) hreg _ hr with
          he | he | ⟨_, he⟩ | hraises
        · cases he
        · cases he
        · cases he
        · exact .inr (.inl hraises)
      · next cursor hr =>
        cases h
        exact .inr (.inr ⟨cursor, hrun hr, rfl⟩)
      · next value cursor hr =>
        simp only at h
        split at h
        · cases h
        · cases h
          have hp := hrun hr
          exact .inr (.inr ⟨_, hp.trans (hback (hp.inSource hstart)), rfl⟩)

/-- Matchers and rules backtrack, however deep references are followed. So a parse error is about
a place in the source or its end, and says so, unless the nesting is too deep or the error is one
that a transform raised. -/
theorem backtracks_and_reports_inside (family : Family) :
    (∀ depth active matcher, Backtracks (Matcher.run (family.follow depth active) matcher)) ∧
    (∀ depth active descriptor,
      Backtracks (Descriptor.run (family.follow depth active) descriptor)) ∧
    ∀ id source kind error, family.parse id source kind = .error (.parse error) →
      error.reason = .nestedTooDeeply ∨ family.Raises (.parse error) ∨
        (error.position ≤ source.length ∧
          (error.message = "Unexpected end of input" ↔ error.position = source.length)) := by
  refine ⟨fun depth active matcher => ?_, fun depth active descriptor => ?_, ?_⟩
  · exact Matcher.backtracks_run (family.backtracks_follow depth active) matcher
  · exact Descriptor.backtracks_run (family.backtracks_follow depth active) descriptor
  · intro id source kind error h
    rcases parse_error h with hdeep | hraises | ⟨cursor, hp, rfl⟩
    · exact .inl hdeep
    · exact .inr (.inl hraises)
    · exact .inr (.inr (errorAt_inside hp))

end Family

end GatedExpr
