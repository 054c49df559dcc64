import GatedExpr.Proofs.Grammar.Progress
import GatedExpr.Proofs.Grammar.Rules
import GatedExpr.Proofs.Grammar.Tokens
import GatedExpr.Proofs.Grammar.Transforms

/-! # When matchers match and when they fail

What a matcher must do before a given text when references are followed to a given depth, told one
combinator at a time. Nothing is said about a run that breaks off, so these facts also say that the
depth suffices.
-/

namespace GatedExpr

namespace Cursor

/-- The cursor stands in that source, with that text left to read. -/
structure Before (cursor : Cursor) (source left : List Char) : Prop where
  inSource : cursor.InSource
  source_eq : cursor.source = source
  rest_eq_left : cursor.rest = left

variable {cursor : Cursor} {source s r text : List Char} {pattern : Pattern}

theorem Before.rewind (h : cursor.Before source s) (later : Cursor) :
    (cursor.rewind later).Before source s :=
  ⟨inSource_rewind h.inSource, h.source_eq, h.rest_eq_left⟩

/-- How far the cursor has come says how much is left. -/
theorem Before.position_eq (h : cursor.Before source s) :
    cursor.position = source.length - s.length := by
  have hl := length_rest h.inSource
  rw [h.rest_eq_left, h.source_eq] at hl
  omega

theorem Before.of_progress {next : Cursor} (h : cursor.Before source s)
    (hp : cursor.Progress next) (hr : next.rest = r) : next.Before source r :=
  ⟨hp.inSource h.inSource, hp.source_eq.trans h.source_eq, hr⟩

theorem readLiteral_append (h : cursor.Before source (text ++ r)) :
    ∃ next, cursor.readLiteral text = (true, next) ∧ next.Before source r := by
  have hs : cursor.startsWith text = true := by
    rw [startsWith, h.rest_eq_left]
    simp [h.inSource.le_length]
  have hread : cursor.readLiteral text = (true, cursor.advance text.length) := by
    rw [readLiteral, if_pos hs]
  have hp := progress_readLiteral h.inSource text
  rw [hread] at hp
  refine ⟨_, hread, h.of_progress hp ?_⟩
  rw [rest_advance h.inSource, h.rest_eq_left, List.drop_left]

theorem readLiteral_of_not_prefix (h : cursor.Before source s) (hn : ¬ text <+: s) :
    cursor.readLiteral text = (false, cursor.touch) := by
  rw [readLiteral, if_neg]
  rw [startsWith, Bool.and_eq_true, List.isPrefixOf_iff_prefix, h.rest_eq_left]
  exact fun hs => hn hs.1

theorem readPattern_append {raw : List Char} (h : cursor.Before source (raw ++ r))
    (hm : pattern.match? (raw ++ r) = some ⟨raw.length, r⟩) :
    ∃ next, cursor.readPattern pattern = (some raw, next) ∧ next.Before source r := by
  have hread : cursor.readPattern pattern = (some raw, cursor.advance raw.length) := by
    rw [readPattern, clamp_eq h.inSource, h.rest_eq_left, hm]
    simp
  have hp := progress_readPattern h.inSource pattern
  rw [hread] at hp
  refine ⟨_, hread, h.of_progress hp ?_⟩
  rw [rest_advance h.inSource, h.rest_eq_left, List.drop_left]

theorem readPattern_of_none (h : cursor.Before source s) (hm : pattern.match? s = none) :
    cursor.readPattern pattern = (none, cursor.touch) := by
  rw [readPattern, clamp_eq h.inSource, h.rest_eq_left, hm]

end Cursor

namespace Matcher

open ExpressionGrammar Family

/-- Before `s` the matcher yields something that satisfies `P`, and stops before `r`. -/
def Matches (depth : Nat) (matcher : Matcher) (s r : List Char) (P : Value → Prop) : Prop :=
  ∀ ⦃source : List Char⦄ ⦃cursor : Cursor⦄, cursor.Before source s →
    ∃ v next, matcher.run (followExpression depth) cursor = (.matched v, next) ∧
      next.Before source r ∧ P v

/-- The same of matchers that run one after the other. -/
def MatchEach (depth : Nat) (parts : List Matcher) (s r : List Char) (Q : List Value → Prop) :
    Prop :=
  ∀ ⦃source : List Char⦄ ⦃cursor : Cursor⦄, cursor.Before source s →
    ∃ vs next, runEach (followExpression depth) parts cursor = (.matched vs, next) ∧
      next.Before source r ∧ Q vs

/-- Before `s` the matcher fails. -/
def Fails (depth : Nat) (matcher : Matcher) (s : List Char) : Prop :=
  ∀ ⦃source : List Char⦄ ⦃cursor : Cursor⦄, cursor.Before source s →
    ∃ next, matcher.run (followExpression depth) cursor = (.failed, next)

variable {depth : Nat} {matcher : Matcher} {parts options : List Matcher} {s t r : List Char}
  {P P' : Value → Prop} {Q : List Value → Prop}

theorem Matches.mono (h : matcher.Matches depth s r P) (hp : ∀ v, P v → P' v) :
    matcher.Matches depth s r P' := by
  intro source cursor hc
  obtain ⟨v, next, hr, hn, hv⟩ := h hc
  exact ⟨v, next, hr, hn, hp v hv⟩

/-! ## Leaves -/

theorem matches_literal (text : String) (r : List Char) :
    (Matcher.literal text).Matches depth (text.toList ++ r) r (IsToken text) := by
  intro source cursor hc
  obtain ⟨next, hr, hn⟩ := Cursor.readLiteral_append hc
  refine ⟨_, next, ?_, hn, next.spanSince cursor.position, rfl⟩
  rw [run, hr]

theorem fails_literal {text : String} (h : ¬ text.toList <+: s) :
    (Matcher.literal text).Fails depth s := by
  intro source cursor hc
  refine ⟨cursor.touch, ?_⟩
  rw [run, Cursor.readLiteral_of_not_prefix hc h]

theorem matches_pattern {pattern : Pattern} {raw : String}
    (hm : pattern.match? (raw.toList ++ r) = some ⟨raw.toList.length, r⟩) :
    (Matcher.pattern pattern).Matches depth (raw.toList ++ r) r (IsToken raw) := by
  intro source cursor hc
  obtain ⟨next, hr, hn⟩ := Cursor.readPattern_append hc hm
  refine ⟨_, next, ?_, hn, next.spanSince cursor.position, rfl⟩
  rw [run, hr]
  simp

theorem fails_pattern {pattern : Pattern} (hm : pattern.match? s = none) :
    (Matcher.pattern pattern).Fails depth s := by
  intro source cursor hc
  refine ⟨cursor.touch, ?_⟩
  rw [run, Cursor.readPattern_of_none hc hm]

/-! ## Blanks -/

/-- Skipping blanks leads to what follows them. -/
theorem run_spaced (matcher : Matcher) (depth : Nat) {source : List Char} {cursor : Cursor}
    (hc : cursor.Before source s) :
    ∃ middle : Cursor, middle.Before source (s.dropWhile Text.isBlank) ∧
      (spaced matcher).run (followExpression depth) cursor =
        match matcher.run (followExpression depth) middle with
        | (.failed, last) => (.failed, cursor.rewind last)
        | (outcome, last) => (outcome, last) := by
  have hm : Pattern.blanks.match? (s.takeWhile Text.isBlank ++ s.dropWhile Text.isBlank) =
      some ⟨(s.takeWhile Text.isBlank).length, s.dropWhile Text.isBlank⟩ := by
    rw [List.takeWhile_append_dropWhile, Token.match?_blanks]
  rw [← List.takeWhile_append_dropWhile (p := Text.isBlank) (l := s)] at hc
  obtain ⟨middle, hread, hb⟩ := Cursor.readPattern_append hc hm
  refine ⟨middle, hb, ?_⟩
  cases hr : run (followExpression depth) matcher middle with
  | mk outcome last => cases outcome <;> simp only [spaced, run, hread, hr]

theorem matches_spaced (h : matcher.Matches depth (s.dropWhile Text.isBlank) r P) :
    (spaced matcher).Matches depth s r P := by
  intro source cursor hc
  obtain ⟨middle, hb, hrun⟩ := run_spaced matcher depth hc
  obtain ⟨v, next, hr, hn, hv⟩ := h hb
  exact ⟨v, next, by rw [hrun, hr], hn, hv⟩

theorem fails_spaced (h : matcher.Fails depth (s.dropWhile Text.isBlank)) :
    (spaced matcher).Fails depth s := by
  intro source cursor hc
  obtain ⟨middle, hb, hrun⟩ := run_spaced matcher depth hc
  obtain ⟨last, hr⟩ := h hb
  exact ⟨cursor.rewind last, by rw [hrun, hr]⟩

/-! ## Sequences -/

theorem matchEach_nil (r : List Char) : MatchEach depth [] r r (· = []) :=
  fun _ cursor hc => ⟨[], cursor, rfl, hc, rfl⟩

theorem matchEach_cons (h : matcher.Matches depth s t P) (hs : MatchEach depth parts t r Q) :
    MatchEach depth (matcher :: parts) s r fun vs => ∃ v rest, vs = v :: rest ∧ P v ∧ Q rest := by
  intro source cursor hc
  obtain ⟨v, next, hr, hn, hv⟩ := h hc
  obtain ⟨vs, last, hr', hl, hvs⟩ := hs hn
  refine ⟨v :: vs, last, ?_, hl, v, vs, rfl, hv, hvs⟩
  rw [runEach, hr]
  simp only [hr']
  rfl

theorem matches_sequence (h : MatchEach depth parts s r Q) :
    (Matcher.sequence parts).Matches depth s r fun v => ∃ vs, v = .ofList vs ∧ Q vs := by
  intro source cursor hc
  obtain ⟨vs, last, hr, hl, hvs⟩ := h hc
  refine ⟨.ofList vs, last, ?_, hl, vs, rfl, hvs⟩
  rw [run, hr]
  rfl

theorem fails_sequence (h : matcher.Fails depth s) :
    (Matcher.sequence (matcher :: parts)).Fails depth s := by
  intro source cursor hc
  obtain ⟨last, hr⟩ := h hc
  exact ⟨cursor.rewind last, by rw [run, runEach, hr]⟩

/-- A sequence also fails where its second part does, after the first one. -/
theorem fails_sequence_second {other : Matcher} (h : matcher.Matches depth s t P)
    (ho : other.Fails depth t) :
    (Matcher.sequence (matcher :: other :: parts)).Fails depth s := by
  intro source cursor hc
  obtain ⟨v, next, hr, hn, -⟩ := h hc
  obtain ⟨last, hr'⟩ := ho hn
  refine ⟨cursor.rewind last, ?_⟩
  rw [run, runEach, hr]
  simp only [runEach, hr']
  rfl

/-! ## Alternatives -/

theorem matches_alternation_head (h : matcher.Matches depth s r P) :
    (Matcher.alternation (matcher :: options)).Matches depth s r P := by
  intro source cursor hc
  obtain ⟨v, next, hr, hn, hv⟩ := h hc
  exact ⟨v, next, by rw [run, runFirst, hr], hn, hv⟩

theorem matches_alternation_tail (hf : matcher.Fails depth s)
    (h : (Matcher.alternation options).Matches depth s r P) :
    (Matcher.alternation (matcher :: options)).Matches depth s r P := by
  intro source cursor hc
  obtain ⟨last, hr⟩ := hf hc
  obtain ⟨v, next, hr', hn, hv⟩ := h (hc.rewind last)
  rw [run] at hr'
  refine ⟨v, next, ?_, hn, hv⟩
  rw [run, runFirst, hr]
  exact hr'

theorem fails_alternation (h : ∀ option ∈ options, option.Fails depth s) :
    (Matcher.alternation options).Fails depth s := by
  intro source cursor hc
  rw [run]
  induction options generalizing cursor with
  | nil => exact ⟨cursor, by rw [runFirst]⟩
  | cons option options ih =>
    obtain ⟨hhead, htail⟩ := List.forall_mem_cons.mp h
    obtain ⟨last, hr⟩ := hhead hc
    rw [runFirst, hr]
    exact ih htail (hc.rewind last)

theorem matches_optional (h : matcher.Matches depth s r P) :
    (Matcher.optional matcher).Matches depth s r P := by
  intro source cursor hc
  obtain ⟨v, next, hr, hn, hv⟩ := h hc
  exact ⟨v, next, by rw [run, hr], hn, hv⟩

theorem matches_optional_absent (h : matcher.Fails depth s) :
    (Matcher.optional matcher).Matches depth s s (· = .absent) := by
  intro source cursor hc
  obtain ⟨last, hr⟩ := h hc
  exact ⟨.absent, cursor.rewind last, by rw [run, hr], hc.rewind last, rfl⟩

/-! ## Repetitions -/

/-- Before `s` the matcher matches once for each of the things in the list, and then it fails
before `r`. -/
inductive Repeats {β : Type} (depth : Nat) (matcher : Matcher) (D : β → Value → Prop) :
    List β → List Char → List Char → Prop where

  | nil {r : List Char} : matcher.Fails depth r → Repeats depth matcher D [] r r

  | cons {b : β} {bs : List β} {s t r : List Char} : matcher.Matches depth s t (D b) →
      t.length < s.length → Repeats depth matcher D bs t r →
      Repeats depth matcher D (b :: bs) s r

theorem matches_repetition {β : Type} {D : β → Value → Prop} {bs : List β}
    (h : Repeats depth matcher D bs s r) :
    (Matcher.repetition 0 matcher).Matches depth s r fun v =>
      ∃ items, v = .ofList items ∧ List.Forall₂ (fun v b => D b v) items bs := by
  have hrepeat : ∀ (rounds : List Char) {source : List Char} {cursor : Cursor},
      s.length ≤ rounds.length → cursor.Before source s →
      ∃ items next, repeatStep (run (followExpression depth) matcher) rounds cursor =
        (.matched items, next) ∧ next.Before source r ∧
          List.Forall₂ (fun v b => D b v) items bs := by
    induction h with
    | @nil r hf =>
      intro rounds source cursor hl hc
      cases rounds with
      | nil => exact ⟨[], cursor, by rw [repeatStep], hc, .nil⟩
      | cons c rounds =>
        rw [repeatStep]
        split
        · exact ⟨[], cursor, rfl, hc, .nil⟩
        · obtain ⟨last, hr⟩ := hf hc
          exact ⟨[], cursor.rewind last, by rw [hr], hc.rewind last, .nil⟩
    | @cons b bs s t r hm hlt _ ih =>
      intro rounds source cursor hl hc
      cases rounds with
      | nil =>
        simp only [List.length_nil] at hl
        omega
      | cons c rounds =>
        have hend : ¬ cursor.atEnd = true := by
          rw [Cursor.atEnd, hc.rest_eq_left]
          cases s with
          | nil => simp at hlt
          | cons => simp
        obtain ⟨v, next, hr, hn, hv⟩ := hm hc
        have hmoved : ¬ next.position = cursor.position := by
          rw [hn.position_eq, hc.position_eq]
          omega
        simp only [List.length_cons] at hl
        obtain ⟨items, last, hr', hl', hd⟩ := ih rounds (by omega) hn
        refine ⟨v :: items, last, ?_, hl', .cons hv hd⟩
        rw [repeatStep, if_neg hend, hr]
        simp only [if_neg hmoved, hr']
        rfl
  intro source cursor hc
  have hahead : cursor.ahead = s := by rw [Cursor.ahead_eq hc.inSource, hc.rest_eq_left]
  obtain ⟨items, last, hr, hl, hd⟩ := hrepeat s le_rfl hc
  refine ⟨.ofList items, last, ?_, hl, items, rfl, hd⟩
  rw [run, hahead, hr]
  simp

/-! ## Rules -/

theorem matches_rule {kind : String} {onMatch : Option Transform}
    (hl : withOperators.rules.lookup kind =
      some { kind, rule := some matcher, onMatch, fallback := none })
    (hm : matcher.Matches depth s r P)
    (ht : ∀ v, P v → ∃ result,
      Descriptor.transformed { kind, rule := some matcher, onMatch, fallback := none } v =
        .ok (some result) ∧ ∀ span, P' (Descriptor.settle kind span result)) :
    (named kind).Matches (depth + 1) s r P' := by
  intro source cursor hc
  obtain ⟨v, next, hr, hn, hv⟩ := hm hc
  obtain ⟨result, hresult, hp⟩ := ht v hv
  refine ⟨_, next, ?_, hn, hp (next.spanSince cursor.position)⟩
  rw [named, run, followExpression_succ hl, Descriptor.run]
  simp only [hr, hresult]

/-- A rule that makes a tree of what its matcher reads. -/
theorem matches_value {kind : String} {onMatch : Option Transform} {e : Expr}
    (hl : withOperators.rules.lookup kind =
      some { kind, rule := some matcher, onMatch, fallback := none })
    (hm : matcher.Matches depth s r P)
    (ht : ∀ v, P v → ∃ tree,
      Descriptor.transformed { kind, rule := some matcher, onMatch, fallback := none } v =
        .ok (some tree) ∧ Depicts .value tree e) :
    (named kind).Matches (depth + 1) s r (Depicts .value · e) := by
  refine matches_rule hl hm fun v hv => ?_
  obtain ⟨tree, htree, hd⟩ := ht v hv
  refine ⟨tree, htree, fun span => ?_⟩
  rw [hd.settle]
  exact hd

theorem fails_rule {kind : String} {onMatch : Option Transform}
    (hl : withOperators.rules.lookup kind =
      some { kind, rule := some matcher, onMatch, fallback := none })
    (hm : matcher.Fails depth s) : (named kind).Fails (depth + 1) s := by
  intro source cursor hc
  obtain ⟨last, hr⟩ := hm hc
  refine ⟨cursor.rewind last, ?_⟩
  rw [named, run, followExpression_succ hl, Descriptor.run]
  simp only [hr]
  rfl

end Matcher

end GatedExpr
