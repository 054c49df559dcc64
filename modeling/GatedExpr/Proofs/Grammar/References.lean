import Mathlib.Order.Nat
import GatedExpr.Grammar.Basic

/-! # References

What a matcher does depends on other rules only through the references in it. If these lead to
the same rules in two families of grammars, the matcher runs alike in both, also where the
references were made by different grammars.
-/

namespace GatedExpr

namespace Matcher

mutual

/-- The references in a matcher: which grammar made each of them, and which rule it names. -/
def references : Matcher → List (GrammarId × String)
  | .literal _ | .pattern _ | .unrunnable => []
  | .reference owner kind => [(owner, kind)]
  | .sequence parts | .alternation parts => referencesOf parts
  | .repetition _ body | .optional body => references body
  | .after skipped body => references skipped ++ references body

def referencesOf : List Matcher → List (GrammarId × String)
  | [] => []
  | part :: parts => references part ++ referencesOf parts

end

mutual

/-- The matcher with every reference made by the grammar that `f` has for its owner. -/
def redirect (f : GrammarId → GrammarId) : Matcher → Matcher
  | .literal expected => .literal expected
  | .pattern expected => .pattern expected
  | .reference owner kind => .reference (f owner) kind
  | .sequence parts => .sequence (redirectEach f parts)
  | .alternation options => .alternation (redirectEach f options)
  | .repetition atLeast body => .repetition atLeast (redirect f body)
  | .optional body => .optional (redirect f body)
  | .after skipped body => .after (redirect f skipped) (redirect f body)
  | .unrunnable => .unrunnable

def redirectEach (f : GrammarId → GrammarId) : List Matcher → List Matcher
  | [] => []
  | part :: parts => redirect f part :: redirectEach f parts

end

mutual

@[simp] theorem redirect_id : ∀ matcher : Matcher, matcher.redirect id = matcher
  | .literal _ | .pattern _ | .reference _ _ | .unrunnable => rfl
  | .sequence parts | .alternation parts => by rw [redirect, redirectEach_id parts]
  | .repetition _ body | .optional body => by rw [redirect, redirect_id body]
  | .after skipped body => by rw [redirect, redirect_id skipped, redirect_id body]

@[simp] theorem redirectEach_id : ∀ parts : List Matcher, redirectEach id parts = parts
  | [] => rfl
  | part :: parts => by rw [redirectEach, redirect_id part, redirectEach_id parts]

end

end Matcher

/-- Two runs end in the same way, unless the first one breaks off with one of the faults. -/
def AgreeUnless {α : Type} (P : Fault → Prop) (x y : Outcome α × Cursor) : Prop :=
  (∃ fault, x.1 = .broken fault ∧ P fault) ∨ y = x

namespace AgreeUnless

variable {α : Type} {P : Fault → Prop} {x y z : Outcome α × Cursor}

theorem refl : AgreeUnless P x x :=
  .inr rfl

theorem broken {fault : Fault} {next : Cursor} (h : P fault) :
    AgreeUnless P ((.broken fault, next) : Outcome α × Cursor) y :=
  .inl ⟨fault, rfl, h⟩

theorem eq_of_not (h : AgreeUnless P x y) (hx : ∀ fault, x.1 = .broken fault → ¬ P fault) :
    y = x := by
  rcases h with ⟨fault, hf, hp⟩ | h
  · exact absurd hp (hx fault hf)
  · exact h

theorem eq_of_never (h : AgreeUnless (fun _ => False) x y) : y = x :=
  h.eq_of_not fun _ _ => id

/-- Runs that end with a fault, and runs that go on in the same way. -/
theorem elim {Q : Prop} (h : AgreeUnless P x y)
    (hbroken : ∀ fault next, x = (.broken fault, next) → P fault → Q) (hsame : y = x → Q) : Q := by
  rcases h with ⟨fault, hf, hp⟩ | h
  · exact hbroken fault x.2 (Prod.ext hf rfl) hp
  · exact hsame h

theorem trans (h : AgreeUnless P x y) (h' : AgreeUnless P y z) : AgreeUnless P x z := by
  refine h.elim (fun fault next hx hp => ?_) fun hy => ?_
  · rw [hx]
    exact .broken hp
  · rw [← hy]
    exact h'

end AgreeUnless

namespace Matcher

variable {follow follow' : Follow} {f : GrammarId → GrammarId} {P : Fault → Prop}

theorem agree_repeatStep {step step' : Cursor → Outcome Value × Cursor}
    (h : ∀ cursor, AgreeUnless P (step cursor) (step' cursor)) (rounds : List Char) :
    ∀ cursor, AgreeUnless P (repeatStep step rounds cursor) (repeatStep step' rounds cursor) := by
  induction rounds with
  | nil => exact fun _ => .refl
  | cons c rounds ih =>
    intro cursor
    rw [repeatStep, repeatStep]
    split
    · exact .refl
    · refine (h cursor).elim (fun fault next hx hp => ?_) fun hy => ?_
      · rw [hx]
        exact .broken hp
      · rw [hy]
        split
        · exact .refl
        · exact .refl
        · next item next _ =>
          split
          · exact .refl
          · refine (ih next).elim (fun fault last hx hp => ?_) fun hy => ?_
            · rw [hx]
              exact .broken hp
            · rw [hy]
              exact .refl

mutual

/-- A matcher runs alike if the references in it are followed alike. -/
theorem agree_run : ∀ (matcher : Matcher),
    (∀ owner kind, (owner, kind) ∈ matcher.references →
      ∀ cursor, AgreeUnless P (follow owner kind cursor) (follow' (f owner) kind cursor)) →
    ∀ cursor, AgreeUnless P (matcher.run follow cursor) ((matcher.redirect f).run follow' cursor)
  | .literal expected, _, cursor => by
    rw [redirect, run, run]
    exact .refl
  | .pattern expected, _, cursor => by
    rw [redirect, run, run]
    exact .refl
  | .unrunnable, _, cursor => by
    rw [redirect, run, run]
    exact .refl
  | .reference owner kind, h, cursor => by
    rw [redirect, run, run]
    exact h owner kind (by simp [references]) cursor
  | .sequence parts, h, cursor => by
    rw [redirect, run, run]
    refine (agree_runEach parts h cursor).elim (fun fault next hx hp => ?_) fun hy => ?_
    · rw [hx]
      exact .broken hp
    · rw [hy]
      exact .refl
  | .alternation options, h, cursor => by
    rw [redirect, run, run]
    exact agree_runFirst options h cursor
  | .repetition atLeast body, h, cursor => by
    rw [redirect, run, run]
    refine (agree_repeatStep (agree_run body h) cursor.ahead cursor).elim
      (fun fault next hx hp => ?_) fun hy => ?_
    · rw [hx]
      exact .broken hp
    · rw [hy]
      exact .refl
  | .optional body, h, cursor => by
    rw [redirect, run, run]
    refine (agree_run body h cursor).elim (fun fault next hx hp => ?_) fun hy => ?_
    · rw [hx]
      exact .broken hp
    · rw [hy]
      exact .refl
  | .after skipped body, h, cursor => by
    rw [redirect, run, run]
    have hskipped := agree_run skipped fun owner kind hm =>
      h owner kind (by rw [references]; exact List.mem_append_left _ hm)
    have hbody := agree_run body fun owner kind hm =>
      h owner kind (by rw [references]; exact List.mem_append_right _ hm)
    refine (hskipped cursor).elim (fun fault next hx hp => ?_) fun hy => ?_
    · rw [hx]
      exact .broken hp
    · rw [hy]
      split
      · next next _ =>
        refine (hbody next).elim (fun fault last hx hp => ?_) fun hy => ?_
        · rw [hx]
          exact .broken hp
        · rw [hy]
          exact .refl
      · exact .refl
      · exact .refl

theorem agree_runEach : ∀ (parts : List Matcher),
    (∀ owner kind, (owner, kind) ∈ referencesOf parts →
      ∀ cursor, AgreeUnless P (follow owner kind cursor) (follow' (f owner) kind cursor)) →
    ∀ cursor,
      AgreeUnless P (runEach follow parts cursor) (runEach follow' (redirectEach f parts) cursor)
  | [], _, cursor => by
    rw [redirectEach, runEach, runEach]
    exact .refl
  | part :: parts, h, cursor => by
    rw [redirectEach, runEach, runEach]
    have hpart := agree_run part fun owner kind hm =>
      h owner kind (by rw [referencesOf]; exact List.mem_append_left _ hm)
    have hparts := agree_runEach parts fun owner kind hm =>
      h owner kind (by rw [referencesOf]; exact List.mem_append_right _ hm)
    refine (hpart cursor).elim (fun fault next hx hp => ?_) fun hy => ?_
    · rw [hx]
      exact .broken hp
    · rw [hy]
      split
      · next next _ =>
        refine (hparts next).elim (fun fault last hx hp => ?_) fun hy => ?_
        · rw [hx]
          exact .broken hp
        · rw [hy]
          exact .refl
      · exact .refl
      · exact .refl

theorem agree_runFirst : ∀ (options : List Matcher),
    (∀ owner kind, (owner, kind) ∈ referencesOf options →
      ∀ cursor, AgreeUnless P (follow owner kind cursor) (follow' (f owner) kind cursor)) →
    ∀ cursor,
      AgreeUnless P (runFirst follow options cursor)
        (runFirst follow' (redirectEach f options) cursor)
  | [], _, cursor => by
    rw [redirectEach, runFirst, runFirst]
    exact .refl
  | option :: options, h, cursor => by
    rw [redirectEach, runFirst, runFirst]
    have hoption := agree_run option fun owner kind hm =>
      h owner kind (by rw [referencesOf]; exact List.mem_append_left _ hm)
    have hoptions := agree_runFirst options fun owner kind hm =>
      h owner kind (by rw [referencesOf]; exact List.mem_append_right _ hm)
    refine (hoption cursor).elim (fun fault next hx hp => ?_) fun hy => ?_
    · rw [hx]
      exact .broken hp
    · rw [hy]
      split
      · exact hoptions _
      · exact .refl

end

end Matcher

namespace Descriptor

/-- The references in what a rule runs. -/
def references (descriptor : Descriptor) : List (GrammarId × String) :=
  (descriptor.rule.toList ++ descriptor.fallback.toList).flatMap Matcher.references

/-- The rule with every reference made by the grammar that `f` has for its owner. -/
def redirect (f : GrammarId → GrammarId) (descriptor : Descriptor) : Descriptor :=
  { descriptor with
    rule := descriptor.rule.map (Matcher.redirect f)
    fallback := descriptor.fallback.map (Matcher.redirect f) }

@[simp] theorem redirect_id (descriptor : Descriptor) : descriptor.redirect id = descriptor := by
  have h : Matcher.redirect id = id := funext Matcher.redirect_id
  simp [redirect, h]

variable {follow follow' : Follow} {f : GrammarId → GrammarId} {P : Fault → Prop}
  {descriptor : Descriptor}

/-- A rule runs alike if the references in it are followed alike. -/
theorem agree_run
    (h : ∀ owner kind, (owner, kind) ∈ descriptor.references →
      ∀ cursor, AgreeUnless P (follow owner kind cursor) (follow' (f owner) kind cursor))
    (cursor : Cursor) :
    AgreeUnless P (descriptor.run follow cursor) ((descriptor.redirect f).run follow' cursor) := by
  have hfall : ∀ cursor, AgreeUnless P (descriptor.fallBack follow cursor)
      ((descriptor.redirect f).fallBack follow' cursor) := by
    intro cursor
    rw [fallBack, fallBack, redirect]
    cases hm : descriptor.fallback with
    | none => exact .refl
    | some matcher =>
      exact matcher.agree_run (fun owner kind hr => h owner kind (by simp [references, hm, hr]))
        cursor
  rw [run, run]
  have hrule : (descriptor.redirect f).rule = descriptor.rule.map (Matcher.redirect f) := rfl
  rw [hrule]
  cases hm : descriptor.rule with
  | none => exact .refl
  | some matcher =>
    have hmatcher : AgreeUnless P (matcher.run follow cursor)
        ((matcher.redirect f).run follow' cursor) :=
      matcher.agree_run (fun owner kind hr => h owner kind (by simp [references, hm, hr])) cursor
    refine hmatcher.elim (fun fault next hx hp => ?_) fun hy => ?_
    · simp only [hx]
      exact .broken hp
    · simp only [Option.map_some, hy]
      split
      · exact .refl
      · exact hfall _
      · next value next _ =>
        have htransformed : (descriptor.redirect f).transformed value =
            descriptor.transformed value := rfl
        rw [htransformed]
        split
        · exact .refl
        · exact hfall _
        · exact .refl

end Descriptor

namespace Family

variable {family family' : Family} {f : GrammarId → GrammarId} {P : Fault → Prop}
  {S : GrammarId → GrammarId → String → Prop}

/-- Wherever references may be met in a family, they lead to the same rules in the other one, or
nowhere in both. `S active owner kind` says that a reference may be met while the grammar `active`
runs. -/
structure LeadAlike (family family' : Family) (f : GrammarId → GrammarId) (P : Fault → Prop)
    (S : GrammarId → GrammarId → String → Prop) : Prop where
  found : ∀ {active owner kind home descriptor}, S active owner kind →
    family.resolve? (some active) owner kind = some (home, descriptor) →
      family'.resolve? (some (f active)) (f owner) kind = some (f home, descriptor.redirect f) ∧
        ∀ owner' kind', (owner', kind') ∈ descriptor.references → S home owner' kind'
  missing : ∀ {active owner kind}, S active owner kind →
    family.resolve? (some active) owner kind = none →
      P (.unknownRule kind) ∨ family'.resolve? (some (f active)) (f owner) kind = none

namespace LeadAlike

/-- References that lead to the same rules are followed alike. -/
theorem agree_follow (h : LeadAlike family family' f P S) (depth : Nat) : ∀ {active owner kind}, S active owner kind → ∀ cursor,
      AgreeUnless P (family.follow depth (some active) owner kind cursor)
        (family'.follow depth (some (f active)) (f owner) kind cursor) := by
  induction depth with
  | zero => exact fun _ _ => .refl
  | succ depth ih =>
    intro active owner kind hs cursor
    simp only [follow]
    cases hr : family.resolve? (some active) owner kind with
    | none =>
      rcases h.missing hs hr with hp | hr'
      · exact .broken hp
      · rw [hr']
        exact .refl
    | some found =>
      obtain ⟨home, descriptor⟩ := found
      obtain ⟨hr', hinside⟩ := h.found hs hr
      rw [hr']
      exact Descriptor.agree_run (fun owner kind hm cursor => ih (hinside owner kind hm) cursor)
        cursor

/-- A rule runs alike in two families if the references that may be met lead to the same
rules. -/
theorem agree_runRule (h : LeadAlike family family' f P S) {home : GrammarId}
    {descriptor : Descriptor}
    (hstart : ∀ owner kind, (owner, kind) ∈ descriptor.references → S home owner kind)
    (cursor : Cursor) :
    AgreeUnless P (family.runRule home descriptor cursor)
      (family'.runRule (f home) (descriptor.redirect f) cursor) :=
  Descriptor.agree_run
    (fun owner kind hm cursor => h.agree_follow nestingLimit (hstart owner kind hm) cursor) cursor

end LeadAlike

/-- A rule runs in the same way where the references that may be met are looked up alike. -/
theorem runRule_congr {home : GrammarId} {descriptor : Descriptor}
    (hsame : ∀ {active owner kind}, S active owner kind →
      family'.resolve? (some active) owner kind = family.resolve? (some active) owner kind)
    (hinside : ∀ {active owner kind home descriptor}, S active owner kind →
      family.resolve? (some active) owner kind = some (home, descriptor) →
        ∀ owner' kind', (owner', kind') ∈ descriptor.references → S home owner' kind')
    (hstart : ∀ owner kind, (owner, kind) ∈ descriptor.references → S home owner kind)
    (cursor : Cursor) :
    family'.runRule home descriptor cursor = family.runRule home descriptor cursor := by
  have halike : LeadAlike family family' id (fun _ => False) S := by
    refine ⟨fun hs hr => ⟨?_, hinside hs hr⟩, fun hs hr => .inr ((hsame hs).trans hr)⟩
    rw [Descriptor.redirect_id]
    exact (hsame hs).trans hr
  have h := halike.agree_runRule hstart cursor
  rw [Descriptor.redirect_id] at h
  exact h.eq_of_never

end Family

/-! ## Depth

The bound on how deep references are followed only decides whether a run breaks off: a run that
does not is the same for every greater bound.
-/

namespace Family

variable {depth more : Nat}

theorem agree_follow_succ (family : Family) (depth : Nat) :
    ∀ (active : Option GrammarId) (owner : GrammarId) (kind : String) (cursor : Cursor),
      AgreeUnless (· = .nestedTooDeeply) (family.follow depth active owner kind cursor)
        (family.follow (depth + 1) active owner kind cursor) := by
  induction depth with
  | zero => exact fun _ _ _ _ => .broken rfl
  | succ depth ih =>
    intro active owner kind cursor
    simp only [follow]
    cases family.resolve? active owner kind with
    | none => exact .refl
    | some found =>
      obtain ⟨home, descriptor⟩ := found
      have hrun := @Descriptor.agree_run _ _ id _ descriptor
        (fun owner kind _ cursor => ih (some home) (id owner) kind cursor) cursor
      rw [Descriptor.redirect_id] at hrun
      exact hrun

/-- A run that does not break off for its depth is the same at any greater one. -/
theorem agree_follow_of_le (family : Family) (active : Option GrammarId) (hle : depth ≤ more)
    (owner : GrammarId) (kind : String) (cursor : Cursor) :
    AgreeUnless (· = .nestedTooDeeply) (family.follow depth active owner kind cursor)
      (family.follow more active owner kind cursor) := by
  induction hle with
  | refl => exact .refl
  | step _ ih => exact ih.trans (agree_follow_succ family _ active owner kind cursor)

end Family

end GatedExpr
