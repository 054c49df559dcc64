import GatedExpr.Grammar.Basic

/-! # Nested activations

How deep the matchers of a run are nested in one another, and which references a run follows and
where. What is tried and given up counts as well as what succeeds.
-/

namespace GatedExpr

/-- A reference that is followed: whose it is, the rule that it names, and where. -/
structure RuleCall where
  owner : GrammarId
  kind : String
  cursor : Cursor

/-- How many activations are nested in following a reference. -/
abbrev ActivationsOf := GrammarId → String → Cursor → Nat

namespace Matcher

/-- The calls of all rounds of a repetition. -/
def repeatCalls (step : Cursor → Outcome Value × Cursor) (calls : Cursor → List RuleCall) :
    List Char → Cursor → List RuleCall
  | [], _ => []
  | _ :: rounds, cursor =>
    if cursor.atEnd then []
    else
      calls cursor ++
        match step cursor with
        | (.matched _, next) =>
          if next.position = cursor.position then [] else repeatCalls step calls rounds next
        | _ => []

/-- The activations of the round of a repetition that has most of them. -/
def repeatActivations (step : Cursor → Outcome Value × Cursor) (activations : Cursor → Nat) :
    List Char → Cursor → Nat
  | [], _ => 0
  | _ :: rounds, cursor =>
    if cursor.atEnd then 0
    else
      max (activations cursor)
        (match step cursor with
        | (.matched _, next) =>
          if next.position = cursor.position then 0
          else repeatActivations step activations rounds next
        | _ => 0)

section Run

variable (follow : Follow)

mutual

/-- The references that a run follows itself. -/
def calls : Matcher → Cursor → List RuleCall
  | .literal _, _ => []
  | .pattern _, _ => []
  | .reference owner kind, cursor => [⟨owner, kind, cursor⟩]
  | .sequence parts, cursor => callsEach parts cursor
  | .alternation options, cursor => callsFirst options cursor
  | .repetition _ body, cursor =>
    repeatCalls (body.run follow) (calls body) cursor.ahead cursor
  | .optional body, cursor => calls body cursor
  | .after skipped body, cursor =>
    calls skipped cursor ++
      match skipped.run follow cursor with
      | (.matched _, next) => calls body next
      | _ => []
  | .unrunnable, _ => []

def callsEach : List Matcher → Cursor → List RuleCall
  | [], _ => []
  | part :: parts, cursor =>
    calls part cursor ++
      match part.run follow cursor with
      | (.matched _, next) => callsEach parts next
      | _ => []

def callsFirst : List Matcher → Cursor → List RuleCall
  | [], _ => []
  | option :: options, cursor =>
    calls option cursor ++
      match option.run follow cursor with
      | (.failed, next) => callsFirst options (cursor.rewind next)
      | _ => []

end

variable (inner : ActivationsOf)

mutual

/-- How many activations of matchers are nested in one another during a run, at most. Skipping
before a matcher is an activation of its own, around a sequence of two. -/
def activations : Matcher → Cursor → Nat
  | .literal _, _ => 1
  | .pattern _, _ => 1
  | .reference owner kind, cursor => 1 + inner owner kind cursor
  | .sequence parts, cursor => 1 + activationsEach parts cursor
  | .alternation options, cursor => 1 + activationsFirst options cursor
  | .repetition _ body, cursor =>
    1 + repeatActivations (body.run follow) (activations body) cursor.ahead cursor
  | .optional body, cursor => 1 + activations body cursor
  | .after skipped body, cursor =>
    2 + max (activations skipped cursor)
      (match skipped.run follow cursor with
      | (.matched _, next) => activations body next
      | _ => 0)
  | .unrunnable, _ => 1

def activationsEach : List Matcher → Cursor → Nat
  | [], _ => 0
  | part :: parts, cursor =>
    max (activations part cursor)
      (match part.run follow cursor with
      | (.matched _, next) => activationsEach parts next
      | _ => 0)

def activationsFirst : List Matcher → Cursor → Nat
  | [], _ => 0
  | option :: options, cursor =>
    max (activations option cursor)
      (match option.run follow cursor with
      | (.failed, next) => activationsFirst options (cursor.rewind next)
      | _ => 0)

end

end Run

mutual

/-- The activations of a matcher that are not those of references. -/
def height : Matcher → Nat
  | .literal _ => 1
  | .pattern _ => 1
  | .reference _ _ => 1
  | .sequence parts => 1 + heights parts
  | .alternation options => 1 + heights options
  | .repetition _ body => 1 + height body
  | .optional body => 1 + height body
  | .after skipped body => 2 + max (height skipped) (height body)
  | .unrunnable => 1

def heights : List Matcher → Nat
  | [] => 0
  | matcher :: matchers => max (height matcher) (heights matchers)

end

end Matcher

namespace Descriptor

variable (follow : Follow) (inner : ActivationsOf)

/-- Whether the fallback runs in place of the rule. -/
def givesWay (descriptor : Descriptor) : Outcome Value → Bool
  | .failed => true
  | .broken _ => false
  | .matched value =>
    match descriptor.transformed value with
    | .ok none => true
    | _ => false

def calls (descriptor : Descriptor) (cursor : Cursor) : List RuleCall :=
  match descriptor.rule with
  | none => []
  | some matcher =>
    matcher.calls follow cursor ++
      match descriptor.fallback, matcher.run follow cursor with
      | some other, (outcome, next) =>
        if descriptor.givesWay outcome then other.calls follow (cursor.rewind next) else []
      | none, _ => []

def activations (descriptor : Descriptor) (cursor : Cursor) : Nat :=
  match descriptor.rule with
  | none => 1
  | some matcher =>
    1 + max (matcher.activations follow inner cursor)
      (match descriptor.fallback, matcher.run follow cursor with
      | some other, (outcome, next) =>
        if descriptor.givesWay outcome then other.activations follow inner (cursor.rewind next)
        else 0
      | none, _ => 0)

end Descriptor

namespace Family

/-- The references that the rule of a call follows, if they may be followed `depth` levels deep. -/
def callsOf (family : Family) : Nat → Option GrammarId → RuleCall → List RuleCall
  | 0, _, _ => []
  | depth + 1, active, call =>
    match family.resolve? active call.owner call.kind with
    | none => []
    | some (home, descriptor) => descriptor.calls (family.follow depth (some home)) call.cursor

/-- A call leads to another one, directly or through others. -/
inductive Reaches (family : Family) : Nat → Option GrammarId → RuleCall → RuleCall → Prop where

  | direct {depth : Nat} {active : Option GrammarId} {call next : RuleCall} :
      next ∈ family.callsOf depth active call → Reaches family depth active call next

  | through {depth : Nat} {active : Option GrammarId} {call next last : RuleCall} {home : GrammarId}
      {descriptor : Descriptor} :
      family.resolve? active call.owner call.kind = some (home, descriptor) →
      next ∈ family.callsOf (depth + 1) active call →
      Reaches family depth (some home) next last → Reaches family (depth + 1) active call last

/-- How many activations are nested in following a reference at most `depth` levels deep. -/
def activationsOf (family : Family) : Nat → Option GrammarId → ActivationsOf
  | 0, _ => fun _ _ _ => 0
  | depth + 1, active => fun owner kind cursor =>
    match family.resolve? active owner kind with
    | none => 0
    | some (home, descriptor) =>
      descriptor.activations (family.follow depth (some home))
        (activationsOf family depth (some home)) cursor

end Family

namespace Matcher

variable {follow : Follow} {inner : ActivationsOf} {bound : Nat}

/-! ## What the calls of a run settle -/

theorem repeatActivations_le {step : Cursor → Outcome Value × Cursor}
    {calls : Cursor → List RuleCall} {activations : Cursor → Nat} {P : RuleCall → Prop}
    (h : ∀ cursor, (∀ call ∈ calls cursor, P call) → activations cursor ≤ bound)
    (rounds : List Char) (cursor : Cursor)
    (hc : ∀ call ∈ repeatCalls step calls rounds cursor, P call) :
    repeatActivations step activations rounds cursor ≤ bound := by
  induction rounds generalizing cursor with
  | nil => exact Nat.zero_le _
  | cons c rounds ih =>
    rw [repeatActivations]
    rw [repeatCalls] at hc
    split
    · exact Nat.zero_le _
    · next hend =>
      rw [if_neg hend, List.forall_mem_append] at hc
      obtain ⟨hround, hrest⟩ := hc
      refine Nat.max_le.mpr ⟨h cursor hround, ?_⟩
      cases hs : step cursor with
      | mk outcome next =>
        rw [hs] at hrest
        cases outcome with
        | failed | broken => exact Nat.zero_le _
        | matched v =>
          simp only at hrest ⊢
          split
          · exact Nat.zero_le _
          · next hmoved =>
            rw [if_neg hmoved] at hrest
            exact ih next hrest

mutual

/-- A run has as many activations as its matcher is high, and those of its calls. -/
theorem activations_le : ∀ (matcher : Matcher) (cursor : Cursor),
    (∀ call ∈ matcher.calls follow cursor, inner call.owner call.kind call.cursor ≤ bound) →
      matcher.activations follow inner cursor ≤ matcher.height + bound
  | .literal _, _, _ | .pattern _, _, _ | .unrunnable, _, _ => by
    rw [activations, height]
    omega
  | .reference owner kind, cursor, h => by
    rw [calls, List.forall_mem_singleton] at h
    rw [activations, height]
    exact Nat.add_le_add_left h 1
  | .sequence parts, cursor, h => by
    rw [activations, height, Nat.add_assoc]
    exact Nat.add_le_add_left (activationsEach_le parts cursor (by rwa [calls] at h)) 1
  | .alternation options, cursor, h => by
    rw [activations, height, Nat.add_assoc]
    exact Nat.add_le_add_left (activationsFirst_le options cursor (by rwa [calls] at h)) 1
  | .repetition _ body, cursor, h => by
    rw [activations, height, Nat.add_assoc]
    rw [calls] at h
    exact Nat.add_le_add_left (repeatActivations_le (activations_le body) cursor.ahead cursor h) 1
  | .optional body, cursor, h => by
    rw [activations, height, Nat.add_assoc]
    exact Nat.add_le_add_left (activations_le body cursor (by rwa [calls] at h)) 1
  | .after skipped body, cursor, h => by
    rw [calls, List.forall_mem_append] at h
    obtain ⟨hskipped, hbody⟩ := h
    have hfirst := activations_le skipped cursor hskipped
    have hsecond : (match skipped.run follow cursor with
        | (.matched _, next) => body.activations follow inner next
        | _ => 0) ≤ body.height + bound := by
      cases hr : skipped.run follow cursor with
      | mk outcome next =>
        rw [hr] at hbody
        cases outcome with
        | failed | broken => exact Nat.zero_le _
        | matched v => exact activations_le body next hbody
    rw [activations, height]
    omega

theorem activationsEach_le : ∀ (parts : List Matcher) (cursor : Cursor),
    (∀ call ∈ callsEach follow parts cursor, inner call.owner call.kind call.cursor ≤ bound) →
      activationsEach follow inner parts cursor ≤ heights parts + bound
  | [], _, _ => Nat.zero_le _
  | part :: parts, cursor, h => by
    rw [callsEach, List.forall_mem_append] at h
    obtain ⟨hpart, hparts⟩ := h
    have hfirst := activations_le part cursor hpart
    have hrest : (match part.run follow cursor with
        | (.matched _, next) => activationsEach follow inner parts next
        | _ => 0) ≤ heights parts + bound := by
      cases hr : part.run follow cursor with
      | mk outcome next =>
        rw [hr] at hparts
        cases outcome with
        | failed | broken => exact Nat.zero_le _
        | matched v => exact activationsEach_le parts next hparts
    rw [activationsEach, heights]
    omega

theorem activationsFirst_le : ∀ (options : List Matcher) (cursor : Cursor),
    (∀ call ∈ callsFirst follow options cursor, inner call.owner call.kind call.cursor ≤ bound) →
      activationsFirst follow inner options cursor ≤ heights options + bound
  | [], _, _ => Nat.zero_le _
  | option :: options, cursor, h => by
    rw [callsFirst, List.forall_mem_append] at h
    obtain ⟨hoption, hoptions⟩ := h
    have hfirst := activations_le option cursor hoption
    have hrest : (match option.run follow cursor with
        | (.failed, next) => activationsFirst follow inner options (cursor.rewind next)
        | _ => 0) ≤ heights options + bound := by
      cases hr : option.run follow cursor with
      | mk outcome next =>
        rw [hr] at hoptions
        cases outcome with
        | matched | broken => exact Nat.zero_le _
        | failed => exact activationsFirst_le options (cursor.rewind next) hoptions
    rw [activationsFirst, heights]
    omega

end

variable {fault : Fault}

theorem repeatStep_ne_broken {step : Cursor → Outcome Value × Cursor}
    {calls : Cursor → List RuleCall} {P : RuleCall → Prop}
    (h : ∀ cursor, (∀ call ∈ calls cursor, P call) → (step cursor).1 ≠ .broken fault)
    (rounds : List Char) (cursor : Cursor)
    (hc : ∀ call ∈ repeatCalls step calls rounds cursor, P call) :
    (repeatStep step rounds cursor).1 ≠ .broken fault := by
  induction rounds generalizing cursor with
  | nil => exact nofun
  | cons c rounds ih =>
    rw [repeatStep]
    rw [repeatCalls] at hc
    split
    · exact nofun
    · next hend =>
      rw [if_neg hend, List.forall_mem_append] at hc
      obtain ⟨hround, hrest⟩ := hc
      have hstep := h cursor hround
      cases hs : step cursor with
      | mk outcome next =>
        rw [hs] at hrest hstep
        cases outcome with
        | failed => exact nofun
        | broken other => exact fun he => hstep (by cases he; rfl)
        | matched v =>
          simp only at hrest ⊢
          split
          · exact nofun
          · next hmoved =>
            rw [if_neg hmoved] at hrest
            have hlast := ih next hrest
            cases hl : repeatStep step rounds next with
            | mk outcome last =>
              rw [hl] at hlast
              cases outcome with
              | failed | matched => exact nofun
              | broken other => exact fun he => hlast (by cases he; rfl)

mutual

/-- A run ends in no fault that none of its calls ends in. -/
theorem run_ne_broken (hn : fault ≠ .nothingToRun) : ∀ (matcher : Matcher) (cursor : Cursor),
    (∀ call ∈ matcher.calls follow cursor,
      (follow call.owner call.kind call.cursor).1 ≠ .broken fault) →
      (matcher.run follow cursor).1 ≠ .broken fault
  | .literal expected, cursor, _ => by
    rw [run]
    split <;> exact nofun
  | .pattern expected, cursor, _ => by
    rw [run]
    split <;> exact nofun
  | .unrunnable, cursor, _ => by
    rw [run]
    exact fun he => hn (by cases he; rfl)
  | .reference owner kind, cursor, h => by
    rw [calls, List.forall_mem_singleton] at h
    rwa [run]
  | .sequence parts, cursor, h => by
    have hparts := runEach_ne_broken hn parts cursor (by rwa [calls] at h)
    rw [run]
    cases hr : runEach follow parts cursor with
    | mk outcome next =>
      rw [hr] at hparts
      cases outcome with
      | failed | matched => exact nofun
      | broken other => exact fun he => hparts (by cases he; rfl)
  | .alternation options, cursor, h => by
    rw [run]
    exact runFirst_ne_broken hn options cursor (by rwa [calls] at h)
  | .repetition atLeast body, cursor, h => by
    rw [calls] at h
    have hrounds := repeatStep_ne_broken (run_ne_broken hn body) cursor.ahead cursor h
    rw [run]
    cases hr : repeatStep (run follow body) cursor.ahead cursor with
    | mk outcome next =>
      rw [hr] at hrounds
      cases outcome with
      | failed => exact nofun
      | broken other => exact fun he => hrounds (by cases he; rfl)
      | matched items =>
        simp only
        split <;> exact nofun
  | .optional body, cursor, h => by
    have hbody := run_ne_broken hn body cursor (by rwa [calls] at h)
    rw [run]
    cases hr : run follow body cursor with
    | mk outcome next =>
      rw [hr] at hbody
      cases outcome with
      | failed | matched => exact nofun
      | broken other => exact fun he => hbody (by cases he; rfl)
  | .after skipped body, cursor, h => by
    rw [calls, List.forall_mem_append] at h
    obtain ⟨hskipped, hrest⟩ := h
    have hfirst := run_ne_broken hn skipped cursor hskipped
    rw [run]
    cases hr : run follow skipped cursor with
    | mk outcome next =>
      rw [hr] at hfirst hrest
      cases outcome with
      | failed => exact nofun
      | broken other => exact fun he => hfirst (by cases he; rfl)
      | matched v =>
        have hbody := run_ne_broken hn body next hrest
        simp only
        cases hl : run follow body next with
        | mk outcome last =>
          rw [hl] at hbody
          cases outcome with
          | failed | matched => exact nofun
          | broken other => exact fun he => hbody (by cases he; rfl)

theorem runEach_ne_broken (hn : fault ≠ .nothingToRun) :
    ∀ (parts : List Matcher) (cursor : Cursor),
      (∀ call ∈ callsEach follow parts cursor,
        (follow call.owner call.kind call.cursor).1 ≠ .broken fault) →
        (runEach follow parts cursor).1 ≠ .broken fault
  | [], _, _ => nofun
  | part :: parts, cursor, h => by
    rw [callsEach, List.forall_mem_append] at h
    obtain ⟨hpart, hparts⟩ := h
    have hfirst := run_ne_broken hn part cursor hpart
    rw [runEach]
    cases hr : run follow part cursor with
    | mk outcome next =>
      rw [hr] at hfirst hparts
      cases outcome with
      | failed => exact nofun
      | broken other => exact fun he => hfirst (by cases he; rfl)
      | matched v =>
        have hrest := runEach_ne_broken hn parts next hparts
        simp only
        cases hl : runEach follow parts next with
        | mk outcome last =>
          rw [hl] at hrest
          cases outcome with
          | failed | matched => exact nofun
          | broken other => exact fun he => hrest (by cases he; rfl)

theorem runFirst_ne_broken (hn : fault ≠ .nothingToRun) :
    ∀ (options : List Matcher) (cursor : Cursor),
      (∀ call ∈ callsFirst follow options cursor,
        (follow call.owner call.kind call.cursor).1 ≠ .broken fault) →
        (runFirst follow options cursor).1 ≠ .broken fault
  | [], _, _ => nofun
  | option :: options, cursor, h => by
    rw [callsFirst, List.forall_mem_append] at h
    obtain ⟨hoption, hoptions⟩ := h
    have hfirst := run_ne_broken hn option cursor hoption
    rw [runFirst]
    cases hr : run follow option cursor with
    | mk outcome next =>
      rw [hr] at hfirst hoptions
      cases outcome with
      | matched => exact nofun
      | broken other => exact fun he => hfirst (by cases he; rfl)
      | failed => exact runFirst_ne_broken hn options (cursor.rewind next) hoptions

end

end Matcher

end GatedExpr
