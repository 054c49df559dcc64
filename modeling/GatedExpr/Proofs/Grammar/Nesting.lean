import GatedExpr.Proofs.Grammar.Activations
import GatedExpr.Proofs.Grammar.Backtracking
import GatedExpr.Proofs.Grammar.Clear
import GatedExpr.Proofs.Grammar.References
import GatedExpr.Proofs.Grammar.Parsing

/-! # Nesting

How deep a run of the expression grammar nests is bounded by the number of characters of the source
that open something: brackets, prefix operators and question marks. Every call of a rule weighs
less than the call that leads to it, where the weight counts the opening characters ahead first and
the rank of the rule second; that each rule calls only rules of a lower rank before it has read an
opening character is checked on the table of rules.
-/

namespace GatedExpr

/-- The characters that rules are nested behind. -/
def isOpening (c : Char) : Bool :=
  ['(', '[', '\x7b', '!', '~', '+', '-', '?'].contains c

def openings (text : List Char) : Nat :=
  text.countP isOpening

/-- How far a rule is from the tokens and brackets that others begin with. -/
def ranks : List (String × Nat) :=
  [("Number", 0), ("String", 0), ("Keyword", 0), ("Identifier", 0), ("IdentifierName", 0),
    ("ArrayExpression", 0), ("ObjectExpression", 0), ("Parenthesized", 0), ("IndexSuffix", 0),
    ("Arguments", 0), ("UnaryOperation", 0), ("PropertyKey", 1), ("DotSuffix", 1), ("Primary", 1),
    ("Postfix", 2), ("Unary", 3), ("Expression", 3), ("Property", 4)]

/-- More than every rank. -/
def rankCount : Nat := 5

def rankOf (kind : String) : Nat :=
  (ranks.lookup kind).getD 0

def RuleCall.weight (call : RuleCall) : Nat :=
  rankCount * openings call.cursor.rest + rankOf call.kind

/-- A call of a rule from inside of the source that weighs less than a bound. -/
structure RuleCall.Below (call : RuleCall) (bound : Nat) : Prop where
  inSource : call.cursor.InSource
  isRule : ∃ rank, ranks.lookup call.kind = some rank
  weight_lt : call.weight < bound

theorem RuleCall.Below.mono {call : RuleCall} {m n : Nat} (h : call.Below m) (hle : m ≤ n) :
    call.Below n :=
  ⟨h.inSource, h.isRule, Nat.lt_of_lt_of_le h.weight_lt hle⟩

namespace Cursor

variable {start next : Cursor}

/-- Moving on leaves no more opening characters ahead. -/
theorem Progress.openings_le (h : start.Progress next) (hs : start.InSource) :
    openings next.rest ≤ openings start.rest := by
  have hrest : next.rest = start.rest.drop (next.position.toNat - start.position.toNat) := by
    have := h.forward
    have := hs.nonneg
    rw [rest_eq_drop hs, rest_eq_drop (h.inSource hs), h.source_eq, List.drop_drop]
    congr 1
    omega
  rw [hrest]
  exact (List.drop_sublist _ _).countP_le

end Cursor

namespace Matcher

/-! ## Matchers that open something -/

mutual

/-- The matcher cannot match without reading an opening character. -/
def opens : Matcher → Bool
  | .literal text => text.toList.any isOpening
  | .sequence parts => someOpens parts
  | .alternation options => eachOpens options
  | .after skipped body => opens skipped || opens body
  | .pattern _ => false
  | .reference _ _ => false
  | .repetition _ _ => false
  | .optional _ => false
  | .unrunnable => false

def someOpens : List Matcher → Bool
  | [] => false
  | part :: parts => opens part || someOpens parts

def eachOpens : List Matcher → Bool
  | [] => true
  | option :: options => opens option && eachOpens options

end

mutual

/-- Before the matcher has read an opening character, it calls only rules of a rank below the
bound. -/
def guarded : Matcher → Nat → Bool
  | .literal _, _ => true
  | .pattern _, _ => true
  | .reference _ kind, bound => (ranks.lookup kind).any (· < bound)
  | .sequence parts, bound => eachGuarded parts bound
  | .alternation options, bound => allGuarded options bound
  | .repetition _ body, bound => guarded body bound
  | .optional body, bound => guarded body bound
  | .after skipped body, bound =>
    guarded skipped bound && guarded body (if opens skipped then rankCount else bound)
  | .unrunnable, _ => true

def eachGuarded : List Matcher → Nat → Bool
  | [], _ => true
  | part :: parts, bound =>
    guarded part bound && eachGuarded parts (if opens part then rankCount else bound)

def allGuarded : List Matcher → Nat → Bool
  | [], _ => true
  | option :: options, bound => guarded option bound && allGuarded options bound

end

section Run

variable {follow : Follow} {start next : Cursor} {v : Value} {bound : Nat}

theorem openings_literal {text : String} (hs : start.InSource)
    (hr : (Matcher.literal text).run follow start = (.matched v, next)) :
    openings start.rest = openings text.toList + openings next.rest := by
  rw [run] at hr
  cases hl : start.readLiteral text.toList with
  | mk found last =>
    rw [hl] at hr
    cases found with
    | false => cases hr
    | true =>
      cases hr
      rw [(Cursor.readLiteral_eq_true hs hl).2, openings, List.countP_append]
      rfl

mutual

/-- A match of a matcher that opens something leaves fewer opening characters ahead. -/
theorem openings_lt (hf : ∀ owner kind, Backtracks (follow owner kind)) :
    ∀ (matcher : Matcher) {start next : Cursor} {v : Value}, start.InSource →
      matcher.run follow start = (.matched v, next) → matcher.opens = true →
        openings next.rest < openings start.rest
  | .literal text, start, next, v, hs, hr, ho => by
    rw [opens, List.any_eq_true] at ho
    have hpos : 0 < openings text.toList := List.countP_pos_iff.mpr ho
    rw [openings_literal hs hr]
    omega
  | .sequence parts, start, next, v, hs, hr, ho => by
    rw [opens] at ho
    rw [run] at hr
    cases he : runEach follow parts start with
    | mk outcome last =>
      rw [he] at hr
      cases outcome with
      | failed | broken => cases hr
      | matched vs =>
        cases hr
        exact openings_lt_each hf parts hs he ho
  | .alternation options, start, next, v, hs, hr, ho => by
    rw [opens] at ho
    rw [run] at hr
    exact openings_lt_first hf options hs hr ho
  | .after skipped body, start, next, v, hs, hr, ho => by
    rw [opens, Bool.or_eq_true] at ho
    rw [run] at hr
    cases hk : skipped.run follow start with
    | mk outcome middle =>
      rw [hk] at hr
      cases outcome with
      | failed | broken => cases hr
      | matched w =>
        have hp := (backtracks_run hf skipped start hs hk).1
        have hm := hp.inSource hs
        simp only at hr
        cases hb : body.run follow middle with
        | mk outcome last =>
          rw [hb] at hr
          cases outcome with
          | failed | broken => cases hr
          | matched u =>
            cases hr
            have hlast := (backtracks_run hf body middle hm hb).1.openings_le hm
            have hfirst := hp.openings_le hs
            rcases ho with ho | ho
            · have := openings_lt hf skipped hs hk ho
              omega
            · have := openings_lt hf body hm hb ho
              omega
  | .pattern _, _, _, _, _, _, ho | .reference _ _, _, _, _, _, _, ho
  | .repetition _ _, _, _, _, _, _, ho | .optional _, _, _, _, _, _, ho
  | .unrunnable, _, _, _, _, _, ho => by
    rw [opens] at ho
    cases ho

theorem openings_lt_each (hf : ∀ owner kind, Backtracks (follow owner kind)) :
    ∀ (parts : List Matcher) {start next : Cursor} {vs : List Value}, start.InSource →
      runEach follow parts start = (.matched vs, next) → someOpens parts = true →
        openings next.rest < openings start.rest
  | [], _, _, _, _, _, ho => by
    rw [someOpens] at ho
    cases ho
  | part :: parts, start, next, vs, hs, hr, ho => by
    rw [runEach] at hr
    rw [someOpens, Bool.or_eq_true] at ho
    cases hv : part.run follow start with
    | mk outcome middle =>
      rw [hv] at hr
      cases outcome with
      | failed | broken => cases hr
      | matched v =>
        have hp := (backtracks_run hf part start hs hv).1
        have hm := hp.inSource hs
        cases hrest : runEach follow parts middle with
        | mk outcome last =>
          simp only [hrest] at hr
          cases outcome with
          | failed | broken => cases hr
          | matched rest =>
            cases hr
            have hlast := (progress_runEach hf parts hm hrest).openings_le hm
            have hfirst := hp.openings_le hs
            rcases ho with ho | ho
            · have := openings_lt hf part hs hv ho
              omega
            · have := openings_lt_each hf parts hm hrest ho
              omega

theorem openings_lt_first (hf : ∀ owner kind, Backtracks (follow owner kind)) :
    ∀ (options : List Matcher) {start next : Cursor} {v : Value}, start.InSource →
      runFirst follow options start = (.matched v, next) → eachOpens options = true →
        openings next.rest < openings start.rest
  | [], _, _, _, _, hr, _ => by cases hr
  | option :: options, start, next, v, hs, hr, ho => by
    rw [runFirst] at hr
    rw [eachOpens, Bool.and_eq_true] at ho
    cases hv : option.run follow start with
    | mk outcome last =>
      rw [hv] at hr
      cases outcome with
      | broken => cases hr
      | failed =>
        have hback : (start.rewind last).InSource := Cursor.inSource_rewind hs
        have hlt := openings_lt_first hf options hback hr ho.2
        exact hlt
      | matched u =>
        cases hr
        exact openings_lt hf option hs hv ho.1

end

/-- What may be called after a match weighs no more than what may be called before it. -/
theorem weight_le (hf : ∀ owner kind, Backtracks (follow owner kind)) (hs : start.InSource)
    {matcher : Matcher} (hr : matcher.run follow start = (.matched v, next)) :
    rankCount * openings next.rest + (if matcher.opens then rankCount else bound) ≤
      rankCount * openings start.rest + bound := by
  simp only [rankCount]
  split
  · next ho =>
    have := openings_lt hf matcher hs hr ho
    omega
  · have := (backtracks_run hf matcher start hs hr).1.openings_le hs
    omega

theorem repeatCalls_below {step : Cursor → Outcome Value × Cursor} {calls : Cursor → List RuleCall}
    (hstep : Backtracks step)
    (h : ∀ cursor : Cursor, cursor.InSource →
      ∀ call ∈ calls cursor, call.Below (rankCount * openings cursor.rest + bound))
    (rounds : List Char) : ∀ cursor : Cursor, cursor.InSource →
      ∀ call ∈ repeatCalls step calls rounds cursor,
        call.Below (rankCount * openings cursor.rest + bound) := by
  induction rounds with
  | nil => exact fun _ _ => List.forall_mem_nil _
  | cons c rounds ih =>
    intro cursor hc
    rw [repeatCalls]
    split
    · exact List.forall_mem_nil _
    · refine List.forall_mem_append.mpr ⟨h cursor hc, ?_⟩
      cases hs : step cursor with
      | mk outcome next =>
        cases outcome with
        | failed | broken => exact List.forall_mem_nil _
        | matched v =>
          simp only
          split
          · exact List.forall_mem_nil _
          · have hp := (hstep cursor hc hs).1
            have hle := hp.openings_le hc
            simp only [rankCount] at ih ⊢
            exact fun call hm => (ih next (hp.inSource hc) call hm).mono (by omega)

mutual

/-- What a guarded matcher calls weighs less than what stands before it and its guard. -/
theorem calls_below (hf : ∀ owner kind, Backtracks (follow owner kind)) :
    ∀ (matcher : Matcher) (bound : Nat), matcher.guarded bound = true →
      ∀ cursor : Cursor, cursor.InSource → ∀ call ∈ matcher.calls follow cursor,
        call.Below (rankCount * openings cursor.rest + bound)
  | .literal _, _, _, _, _ | .pattern _, _, _, _, _ | .unrunnable, _, _, _, _ => by
    rw [calls]
    exact nofun
  | .reference owner kind, bound, hg, cursor, hc => by
    rw [guarded, Option.any_eq_true] at hg
    obtain ⟨rank, hrank, hlt⟩ := hg
    rw [calls, List.forall_mem_singleton]
    refine ⟨hc, ⟨rank, hrank⟩, ?_⟩
    simp only [RuleCall.weight, rankOf, hrank, Option.getD_some]
    exact Nat.add_lt_add_left (of_decide_eq_true hlt) _
  | .sequence parts, bound, hg, cursor, hc => by
    rw [calls]
    exact calls_below_each hf parts bound (by rwa [guarded] at hg) cursor hc
  | .alternation options, bound, hg, cursor, hc => by
    rw [calls]
    exact calls_below_first hf options bound (by rwa [guarded] at hg) cursor hc
  | .repetition _ body, bound, hg, cursor, hc => by
    rw [calls]
    exact repeatCalls_below (backtracks_run hf body)
      (calls_below hf body bound (by rwa [guarded] at hg)) cursor.ahead cursor hc
  | .optional body, bound, hg, cursor, hc => by
    rw [calls]
    exact calls_below hf body bound (by rwa [guarded] at hg) cursor hc
  | .after skipped body, bound, hg, cursor, hc => by
    rw [guarded, Bool.and_eq_true] at hg
    rw [calls]
    refine List.forall_mem_append.mpr ⟨calls_below hf skipped bound hg.1 cursor hc, ?_⟩
    cases hr : skipped.run follow cursor with
    | mk outcome next =>
      cases outcome with
      | failed | broken => exact nofun
      | matched v =>
        have hn := (backtracks_run hf skipped cursor hc hr).1.inSource hc
        exact fun call hm => (calls_below hf body _ hg.2 next hn call hm).mono (weight_le hf hc hr)

theorem calls_below_each (hf : ∀ owner kind, Backtracks (follow owner kind)) :
    ∀ (parts : List Matcher) (bound : Nat), eachGuarded parts bound = true →
      ∀ cursor : Cursor, cursor.InSource → ∀ call ∈ callsEach follow parts cursor,
        call.Below (rankCount * openings cursor.rest + bound)
  | [], _, _, _, _ => by
    rw [callsEach]
    exact nofun
  | part :: parts, bound, hg, cursor, hc => by
    rw [eachGuarded, Bool.and_eq_true] at hg
    rw [callsEach]
    refine List.forall_mem_append.mpr ⟨calls_below hf part bound hg.1 cursor hc, ?_⟩
    cases hr : part.run follow cursor with
    | mk outcome next =>
      cases outcome with
      | failed | broken => exact nofun
      | matched v =>
        have hn := (backtracks_run hf part cursor hc hr).1.inSource hc
        exact fun call hm =>
          (calls_below_each hf parts _ hg.2 next hn call hm).mono (weight_le hf hc hr)

theorem calls_below_first (hf : ∀ owner kind, Backtracks (follow owner kind)) :
    ∀ (options : List Matcher) (bound : Nat), allGuarded options bound = true →
      ∀ cursor : Cursor, cursor.InSource → ∀ call ∈ callsFirst follow options cursor,
        call.Below (rankCount * openings cursor.rest + bound)
  | [], _, _, _, _ => by
    rw [callsFirst]
    exact nofun
  | option :: options, bound, hg, cursor, hc => by
    rw [allGuarded, Bool.and_eq_true] at hg
    rw [callsFirst]
    refine List.forall_mem_append.mpr ⟨calls_below hf option bound hg.1 cursor hc, ?_⟩
    cases hr : option.run follow cursor with
    | mk outcome next =>
      cases outcome with
      | matched | broken => exact nofun
      | failed =>
        exact calls_below_first hf options bound hg.2 (cursor.rewind next)
          (Cursor.inSource_rewind hc)

end

end Run

end Matcher

/-! ## The rules of the grammar -/

namespace ExpressionGrammar

/-- What the rule of a name is like: it is guarded by its rank, its matcher is not high, and what
it makes of a match never lacks depth. -/
def RuleFits (kind : String) (rank : Nat) : Prop :=
  ∃ matcher onMatch, withOperators.rules.lookup kind =
      some { kind, rule := some matcher, onMatch, fallback := none } ∧
    matcher.guarded rank = true ∧ matcher.height ≤ 8 ∧
    ∀ transform ∈ onMatch, ∀ items, Clear (transform items)

theorem ruleFits {kind : String} {rank : Nat} (h : ranks.lookup kind = some rank) :
    RuleFits kind rank := by
  have fits {kind : String} {rank : Nat} {matcher : Matcher} {onMatch : Option Transform}
      (hl : withOperators.rules.lookup kind =
        some { kind, rule := some matcher, onMatch, fallback := none })
      (hg : matcher.guarded rank = true ∧ matcher.height ≤ 8)
      (hc : ∀ transform ∈ onMatch, ∀ items, Clear (transform items)) : RuleFits kind rank :=
    ⟨matcher, onMatch, hl, hg.1, hg.2, hc⟩
  have some {transform : Transform} (h : ∀ items, Clear (transform items)) :
      ∀ t ∈ some transform, ∀ items, Clear (t items) := by
    rintro _ ⟨⟩
    exact h
  have hall : ∀ entry ∈ ranks, RuleFits entry.1 entry.2 := by
    simp only [ranks, List.forall_mem_cons]
    exact ⟨fits rfl (by decide) (some clear_onNumber), fits rfl (by decide) (some clear_onString),
      fits rfl (by decide) (some clear_onKeyword), fits rfl (by decide) (some clear_onIdentifier),
      fits rfl (by decide) (some clear_onIdentifierName),
      fits rfl (by decide) (some clear_onArray), fits rfl (by decide) (some clear_onObject),
      fits rfl (by decide) (some clear_onParenthesized),
      fits rfl (by decide) (some clear_onIndexSuffix),
      fits rfl (by decide) (some clear_onArguments), fits rfl (by decide) (some clear_onUnary),
      fits rfl (by decide) nofun, fits rfl (by decide) (some clear_onDotSuffix),
      fits rfl (by decide) nofun, fits rfl (by decide) (some clear_onPostfix),
      fits rfl (by decide) nofun, fits rfl (by decide) (some clear_onExpression),
      fits rfl (by decide) (some clear_onProperty), nofun⟩
  exact hall (kind, rank) (Table.mem_of_lookup h)

end ExpressionGrammar

namespace Family

open ExpressionGrammar

variable {depth : Nat} {call next last : RuleCall}

/-- Inside of the expression grammar a reference leads to the rule of its name, whoever made it. -/
theorem resolve?_expression_eq (owner : GrammarId) (kind : String) :
    expression.resolve? (some 0) owner kind = (withOperators.rules.lookup kind).map (0, ·) := by
  have hzero : expression.rule? 0 kind = withOperators.rules.lookup kind := by
    rw [rule?, get?_expression, Option.bind_some]
  simp only [resolve?, Option.getD_some, hzero]
  cases hl : withOperators.rules.lookup kind with
  | some descriptor => rfl
  | none =>
    cases owner with
    | zero => rw [hzero, hl]
    | succ owner => rfl

theorem lookup_ranks_of_rule {kind : String} {descriptor : Descriptor}
    (h : withOperators.rules.lookup kind = some descriptor) :
    ∃ rank, ranks.lookup kind = some rank := by
  have hall : ∀ entry ∈ withOperators.rules, (ranks.lookup entry.1).isSome = true := by decide
  exact Option.isSome_iff_exists.mp (hall (kind, descriptor) (Table.mem_of_lookup h))

/-- The rule of a call, whose own calls weigh less. -/
theorem rule_of_call {rank : Nat} (hc : call.cursor.InSource)
    (hrank : ranks.lookup call.kind = some rank) (depth : Nat) :
    ∃ matcher onMatch,
      expression.resolve? (some 0) call.owner call.kind =
        some (0, { kind := call.kind, rule := some matcher, onMatch, fallback := none }) ∧
      matcher.height ≤ 8 ∧ (∀ transform ∈ onMatch, ∀ items, Clear (transform items)) ∧
      ∀ next ∈ matcher.calls (expression.follow depth (some 0)) call.cursor,
        next.Below call.weight := by
  obtain ⟨matcher, onMatch, hrule, hguarded, hheight, hclear⟩ := ruleFits hrank
  refine ⟨matcher, onMatch, ?_, hheight, hclear, fun next hm => ?_⟩
  · rw [resolve?_expression_eq, hrule, Option.map_some]
  · have hbelow := Matcher.calls_below (backtracks_follow expression depth (some 0)) matcher rank
      hguarded call.cursor hc next hm
    rwa [RuleCall.weight, rankOf, hrank]

/-- A call leads to calls that weigh less. -/
theorem below_of_mem_callsOf (hc : call.cursor.InSource)
    (h : next ∈ expression.callsOf depth (some 0) call) : next.Below call.weight := by
  cases depth with
  | zero => cases h
  | succ depth =>
    rw [callsOf] at h
    cases hl : withOperators.rules.lookup call.kind with
    | none =>
      rw [resolve?_expression_eq, hl] at h
      cases h
    | some descriptor =>
      obtain ⟨rank, hrank⟩ := lookup_ranks_of_rule hl
      obtain ⟨matcher, onMatch, hresolve, -, -, hcalls⟩ := rule_of_call hc hrank depth
      rw [hresolve] at h
      simp only [Descriptor.calls, List.append_nil] at h
      exact hcalls next h

/-- Whatever a call leads to weighs less. -/
theorem below_of_reaches (hc : call.cursor.InSource)
    (h : expression.Reaches depth (some 0) call last) : last.Below call.weight := by
  generalize hactive : some 0 = active at h
  induction h with
  | direct hm =>
    subst hactive
    exact below_of_mem_callsOf hc hm
  | @through depth active call next last home descriptor hresolve hm _ ih =>
    subst hactive
    rw [resolve?_expression_eq, Option.map_eq_some_iff] at hresolve
    obtain ⟨_, -, he⟩ := hresolve
    cases he
    have hnext := below_of_mem_callsOf hc hm
    exact (ih hnext.inSource rfl).mono (Nat.le_of_lt hnext.weight_lt)

/-- A call nests no more activations than its weight allows, however deep references may be
followed. -/
theorem activationsOf_le (depth : Nat) : ∀ {call : RuleCall} {bound : Nat}, call.Below bound →
    expression.activationsOf depth (some 0) call.owner call.kind call.cursor ≤ 9 * bound := by
  induction depth with
  | zero => exact fun _ => Nat.zero_le _
  | succ depth ih =>
    intro call bound h
    obtain ⟨rank, hrank⟩ := h.isRule
    obtain ⟨matcher, onMatch, hresolve, hheight, -, hcalls⟩ := rule_of_call h.inSource hrank depth
    have hmatcher : matcher.activations (expression.follow depth (some 0))
        (expression.activationsOf depth (some 0)) call.cursor ≤
          matcher.height + 9 * call.weight :=
      Matcher.activations_le matcher call.cursor fun next hm => ih (hcalls next hm)
    have hlt := h.weight_lt
    simp only [activationsOf, hresolve, Descriptor.activations]
    omega

/-- A call never lacks depth if references may be followed deeper than it weighs. -/
theorem follow_clear (depth : Nat) : ∀ {call : RuleCall}, call.Below depth →
    (expression.follow depth (some 0) call.owner call.kind call.cursor).1 ≠
      .broken .nestedTooDeeply := by
  induction depth with
  | zero => exact fun h => absurd h.weight_lt (Nat.not_lt_zero _)
  | succ depth ih =>
    intro call h
    obtain ⟨rank, hrank⟩ := h.isRule
    obtain ⟨matcher, onMatch, hresolve, -, hclear, hcalls⟩ := rule_of_call h.inSource hrank depth
    have hother : Fault.nestedTooDeeply ≠ .nothingToRun := by rintro ⟨⟩
    have hrun : (matcher.run (expression.follow depth (some 0)) call.cursor).1 ≠
        .broken .nestedTooDeeply :=
      Matcher.run_ne_broken hother matcher call.cursor fun next hm =>
        ih ((hcalls next hm).mono (Nat.le_of_lt_succ h.weight_lt))
    have htransformed := @Descriptor.clear_transformed call.kind (some matcher) none onMatch hclear
    simp only [follow, hresolve, Descriptor.run]
    cases hr : matcher.run (expression.follow depth (some 0)) call.cursor with
    | mk outcome next =>
      rw [hr] at hrun
      cases outcome with
      | failed => rintro ⟨⟩
      | broken fault => exact fun he => hrun (by cases he; rfl)
      | matched value =>
        have hvalue := htransformed value
        simp only
        split
        · next fault heq =>
          exact fun he => hvalue (by cases he; exact heq)
        · rintro ⟨⟩
        · rintro ⟨⟩

end Family

/-! ## The bound -/

namespace Matcher

/-- The rounds of a repetition end by themselves: allowing more of them changes nothing. -/
theorem repeatStep_append {step : Cursor → Outcome Value × Cursor} (hstep : Backtracks step)
    (more : List Char) : ∀ (rounds : List Char) (cursor : Cursor), cursor.InSource →
      cursor.rest.length ≤ rounds.length →
        repeatStep step (rounds ++ more) cursor = repeatStep step rounds cursor := by
  intro rounds
  induction rounds with
  | nil =>
    intro cursor hc hlength
    have hend : cursor.atEnd = true := by
      rw [Family.atEnd_iff hc]
      exact List.eq_nil_of_length_eq_zero (Nat.le_zero.mp hlength)
    cases more with
    | nil => rfl
    | cons c more => simp [repeatStep, hend]
  | cons c rounds ih =>
    intro cursor hc hlength
    rw [List.cons_append, repeatStep, repeatStep]
    split
    · rfl
    · cases hs : step cursor with
      | mk outcome next =>
        cases outcome with
        | failed | broken => rfl
        | matched v =>
          simp only
          split
          · rfl
          · next hmoved =>
            have hp := (hstep cursor hc hs).1
            have hn := hp.inSource hc
            have hforward := hp.forward
            have hbefore := Cursor.length_rest hc
            have hafter := Cursor.length_rest hn
            rw [hp.source_eq] at hafter
            rw [ih next hn (by rw [List.length_cons] at hlength; omega)]

end Matcher

namespace Family

open ExpressionGrammar

/-- The call that parses a source. -/
def rootCall (source : List Char) : RuleCall :=
  ⟨0, Grammar.rootKind, .start source 0⟩

theorem below_rootCall (source : List Char) :
    (rootCall source).Below (rankCount * (1 + openings source)) := by
  refine ⟨Cursor.inSource_start source, ⟨3, rfl⟩, ?_⟩
  have hweight : (rootCall source).weight = rankCount * openings source + 3 := rfl
  rw [hweight, rankCount]
  omega

/-- There is a bound on how many activations a parse of the expression grammar nests, in
proportion to the opening characters of the source and whatever the limit on references is. Beyond
it the limit decides nothing, no rule comes to run inside of itself without an opening character
having been read, and every repetition ends by itself. -/
theorem nesting_bounded : ∃ bound : Nat,
    (∀ source limit,
      expression.activationsOf limit (some 0) 0 Grammar.rootKind (.start source 0) ≤
        bound * (1 + openings source)) ∧
    (∀ source limit, bound * (1 + openings source) ≤ limit →
      (expression.follow limit (some 0) 0 Grammar.rootKind (.start source 0)).1 ≠
          .broken .nestedTooDeeply ∧
        ∀ more, limit ≤ more →
          expression.follow more (some 0) 0 Grammar.rootKind (.start source 0) =
            expression.follow limit (some 0) 0 Grammar.rootKind (.start source 0)) ∧
    (∀ limit call last, call.cursor.InSource → expression.Reaches limit (some 0) call last →
      last.kind = call.kind → openings last.cursor.rest < openings call.cursor.rest) ∧
    ∀ limit (body : Matcher) (cursor : Cursor) (more : List Char), cursor.InSource →
      Matcher.repeatStep (body.run (expression.follow limit (some 0))) (cursor.ahead ++ more)
          cursor =
        Matcher.repeatStep (body.run (expression.follow limit (some 0))) cursor.ahead cursor := by
  refine ⟨9 * rankCount, fun source limit => ?_, fun source limit hlimit => ?_,
    fun limit call last hc hr hkind => ?_, fun limit body cursor more hc => ?_⟩
  · rw [Nat.mul_assoc]
    exact activationsOf_le limit (below_rootCall source)
  · have hclear := follow_clear limit ((below_rootCall source).mono (by
      simp only [rankCount] at hlimit ⊢
      omega))
    refine ⟨hclear, fun more hmore => ?_⟩
    refine (agree_follow_of_le expression (some 0) hmore 0 Grammar.rootKind
      (.start source 0)).elim (fun fault next hbroken hfault => ?_) id
    exact absurd (by rw [rootCall, hbroken, hfault]) hclear
  · have hlt := (below_of_reaches hc hr).weight_lt
    simp only [RuleCall.weight, hkind, rankCount] at hlt
    omega
  · refine Matcher.repeatStep_append
      (Matcher.backtracks_run (backtracks_follow expression limit (some 0)) body) more cursor.ahead
      cursor hc ?_
    rw [Cursor.ahead_eq hc]

/-- Parentheses nest a fixed number of activations more. -/
example : expression.activationsOf 60 (some 0) 0 Grammar.rootKind (.start "a".toList 0) = 14 ∧
    expression.activationsOf 60 (some 0) 0 Grammar.rootKind (.start "(a)".toList 0) = 27 := by
  decide +kernel

end Family

end GatedExpr
