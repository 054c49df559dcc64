import GatedExpr.Proofs.Builtin.Effects
import GatedExpr.Proofs.Runner.Transparency
import GatedExpr.Proofs.Session.Turns
import GatedExpr.Proofs.Value.AlikePrinting

/-! # What a session depends on

Of all the lines of a session only those that bind a name matter to the later ones. If functions
have no effects, the others can be left out: what remains says the same, and the same is bound.
Two such sessions hand out different identities, so what they bind corresponds.
-/

namespace GatedExpr

open GatedExpr.Computation Semantics

/-- The source that a line has evaluated. -/
def TypedLine.source? : TypedLine → Option String
  | .command (.bind _ source) | .expression source => some source
  | _ => none

/-- Nothing that evaluating the source may use has effects. -/
def Runner.HasNoEffects (n : Identity) (runner : Runner) (source : String) : Prop :=
  ∀ id node, runner.parse source = .ok (.node id node) →
    runner.whitelist.HasNoEffectsFor n (.node (.root node))

/-- No source holds identities that are still to be handed out when `n` is the next one, nor does
what is built in. -/
structure Runner.StartsFrom (n : Identity) (runner : Runner) : Prop where
  builtIn : World.firstFreeId ≤ n
  trees : ∀ source, ∀ id ∈ runner.treeIds source, id < n

namespace Repl

variable {n : Identity} {runner : Runner} {bindings others : List (String × Value)}
  {world other : World} {source : String} {typed : TypedLine}

/-! ## Single evaluations -/

theorem eq_ok_of_reported {result : Except Failure Value} {value : Value}
    (h : Runner.reported source result = .ok (.success value)) : result = .ok value := by
  cases result with
  | ok v =>
    cases h
    rfl
  | error failure =>
    unfold Runner.reported at h
    cases hreport : failure.report source <;> simp [hreport, Except.map] at h

theorem handsOut_evaluateAnew (hn : runner.StartsFrom n) (h : runner.HasNoEffects n source)
    {m : Identity} (hle : n ≤ m) {env : Env} (henv : env.Below m) :
    (runner.evaluateAnew source env).HandsOut m Value.Below := by
  unfold Runner.evaluateAnew
  rcases runner.form_cases source with
    ⟨failure, hform⟩ | ⟨id, node, closure, hp, hform, hcompiled, hsub⟩
  · rw [hform]
    exact .throw
  · rw [hform]
    have hids : ∀ i ∈ Task.ids (.node (.root node)), i < n :=
      fun i hm => hn.trees source i (hsub hm)
    exact (h id node hp).handsOut hn.builtIn hcompiled hids m env hle henv

theorem handsOut_handled (hn : runner.StartsFrom n) (h : runner.HasNoEffects n source)
    (hle : n ≤ world.nextId) (hb : Value.EntriesBelow world.nextId bindings) :
    world.nextId ≤ (handled runner bindings world source).2.nextId ∧
      ∀ value, (handled runner bindings world source).1 = .ok (.success value) →
        value.Below (handled runner bindings world source).2.nextId := by
  have henv : Env.Below world.nextId { bindings, options := [] } :=
    List.forall_mem_append.mpr ⟨hb, nofun⟩
  obtain ⟨hnext, hvalue⟩ := handsOut_evaluateAnew hn h hle henv world rfl
  refine ⟨hnext, fun value hs => hvalue value ?_⟩
  exact eq_ok_of_reported hs

theorem alike_handled {c : Correspondence} (hn : runner.StartsFrom n) (hc : c.KeepsBelow n)
    (h : runner.HasNoEffects n source) (hw : c.Worlds world other)
    (hb : c.AlikeEntries Correspondence.nothing bindings others) :
    Agree Eq c.AlikeReport (handled runner bindings world source).1
        (handled runner others other source).1 ∧
      c.Worlds (handled runner bindings world source).2 (handled runner others other source).2 := by
  have henv : c.AlikeEnv { bindings, options := [] } { bindings := others, options := [] } :=
    ⟨hb, .nil⟩
  have hrun := Runner.runsAlike_evaluateAnew (fun id node hp => (h id node hp).respectsFor hc)
    (fun id hm => hc.same id (hn.trees source id hm)) henv world other hw
  exact ⟨Correspondence.agree_reported hrun.1 source, hrun.2⟩

/-! ## Single lines -/

/-- Alike values are shown in the same words. -/
theorem valueLine_eq {c : Correspondence} {v w : Value} (h : c.Alike v w) :
    valueLine v = valueLine w := by
  have hprinted := h.printAny
  unfold valueLine
  revert hprinted
  generalize v.printAny = printed, w.printAny = printed'
  rintro (htext | hfault)
  · exact congrArg OutputLine.out htext.displayPlain
  · exact congrArg faultLine hfault

/-- No turn takes identities back, and whatever is bound has been handed out. -/
theorem handsOut_turn (hn : runner.StartsFrom n)
    (h : ∀ source ∈ typed.source?, runner.HasNoEffects n source) (hle : n ≤ world.nextId)
    (hb : Value.EntriesBelow world.nextId bindings) :
    world.nextId ≤ (turn runner bindings world typed).world.nextId ∧
      Value.EntriesBelow (turn runner bindings world typed).world.nextId
        (turn runner bindings world typed).bindings := by
  let P (turn : Turn) : Prop :=
    world.nextId ≤ turn.world.nextId ∧ Value.EntriesBelow turn.world.nextId turn.bindings
  rcases typed with _ | _ | (_ | ⟨name, source⟩ | _ | _ | _) | source
  case command.bind =>
    obtain ⟨hnext, hvalue⟩ := handsOut_handled hn (h source rfl) hle hb
    refine Turn.of_outcome (P := P) (fun value hs => ⟨hnext, ?_⟩) fun _ => ⟨hnext, hb.mono hnext⟩
    exact (hb.mono hnext).set (hvalue value hs) name
  case expression =>
    obtain ⟨hnext, -⟩ := handsOut_handled hn (h source rfl) hle hb
    exact Turn.of_outcome (P := P) (fun _ _ => ⟨hnext, hb.mono hnext⟩) fun _ =>
      ⟨hnext, hb.mono hnext⟩
  all_goals exact ⟨Nat.le_refl _, hb⟩

/-- The turns leave the same behind and say the same. -/
structure AlikeTurns (c : Correspondence) (turn other : Turn) : Prop where
  bindings : c.AlikeEntries Correspondence.nothing turn.bindings other.bindings
  worlds : c.Worlds turn.world other.world
  said : turn.said = other.said

theorem AlikeTurns.of_outcomes {c : Correspondence} {outcome outcome' : Except Fault Report × World}
    {ofValue ofValue' : Value → World → Turn} (h : Agree Eq c.AlikeReport outcome.1 outcome'.1)
    (hw : c.Worlds outcome.2 outcome'.2)
    (hb : c.AlikeEntries Correspondence.nothing bindings others)
    (hvalue : ∀ v w, c.Alike v w →
      AlikeTurns c (ofValue v outcome.2) (ofValue' w outcome'.2)) :
    AlikeTurns c (.ofOutcome bindings outcome ofValue) (.ofOutcome others outcome' ofValue') := by
  obtain ⟨result, next⟩ := outcome
  obtain ⟨result', next'⟩ := outcome'
  cases h with
  | error he =>
    cases he
    exact ⟨hb, hw, rfl⟩
  | ok hreport =>
    cases hreport with
    | success hv => exact hvalue _ _ hv
    | error => exact ⟨hb, hw, rfl⟩

/-- Alike sessions stay alike and say the same. -/
theorem alike_turn {c : Correspondence} (hn : runner.StartsFrom n) (hc : c.KeepsBelow n)
    (h : ∀ source ∈ typed.source?, runner.HasNoEffects n source) (hw : c.Worlds world other)
    (hb : c.AlikeEntries Correspondence.nothing bindings others) :
    AlikeTurns c (turn runner bindings world typed) (turn runner others other typed) := by
  rcases typed with _ | _ | (_ | ⟨name, source⟩ | _ | _ | _) | source
  case command.bind =>
    obtain ⟨hresult, hnext⟩ := alike_handled hn hc (h source rfl) hw hb
    exact .of_outcomes hresult hnext hb fun v w hv => ⟨hb.set hv name, hnext, rfl⟩
  case expression =>
    obtain ⟨hresult, hnext⟩ := alike_handled hn hc (h source rfl) hw hb
    exact .of_outcomes hresult hnext hb fun v w hv => ⟨hb, hnext, congrArg some (valueLine_eq hv)⟩
  case command.bindings =>
    have hprint := (Correspondence.Alike.map Correspondence.same_zero hb).print
    exact ⟨hb, hw, congrArg (fun text => some (OutputLine.out text)) hprint⟩
  all_goals exact ⟨hb, hw, rfl⟩

end Repl

/-! ## Worlds that move apart -/

namespace Correspondence

/-- What is below both numbers keeps its counterpart, and what comes from them on corresponds in
its order. -/
def HandedOutOrNew (same : Nat → Nat → Prop) (n n' i j : Nat) : Prop :=
  same i j ∧ i < n ∧ j < n' ∨ ∃ k, i = n + k ∧ j = n' + k

theorem handedOutOrNew_unique {same : Nat → Nat → Prop} {n n' i j i' j' : Nat}
    (hsame : same i i' → same j j' → (i = j ↔ i' = j')) (h : HandedOutOrNew same n n' i i')
    (h' : HandedOutOrNew same n n' j j') : i = j ↔ i' = j' := by
  rcases h with ⟨hi, hlt, hlt'⟩ | ⟨k, rfl, rfl⟩ <;> rcases h' with ⟨hj, hlt₁, hlt₁'⟩ | ⟨m, rfl, rfl⟩
  · exact hsame hi hj
  all_goals omega

/-- What the worlds have handed out keeps its counterparts, and what they hand out from now on
corresponds in its order. -/
def onward (c : Correspondence) {world other : World} (h : World.firstFreeId ≤ world.nextId)
    (h' : World.firstFreeId ≤ other.nextId) : Correspondence where
  same := HandedOutOrNew c.same world.nextId other.nextId
  unique := handedOutOrNew_unique c.unique
  builtIn hid := .inl ⟨c.builtIn hid, Nat.lt_of_lt_of_le hid h, Nat.lt_of_lt_of_le hid h'⟩
  hidden := nothing
  hidden_private := nothing_private
  seeds _ _ := True
  calls := world.calls
  otherCalls := other.calls

variable {c : Correspondence} {n : Identity} {world other : World}
  {h : World.firstFreeId ≤ world.nextId} {h' : World.firstFreeId ≤ other.nextId}

theorem worlds_onward : (c.onward h h').Worlds world other where
  free := h
  fresh k := .inr ⟨k, rfl, rfl⟩
  seeds := trivial
  calls := ⟨[], [], rfl, rfl, .nil⟩

theorem KeepsBelow.onward (hc : c.KeepsBelow n) (hle : n ≤ world.nextId) (hle' : n ≤ other.nextId) :
    (c.onward h h').KeepsBelow n where
  same id hlt := .inl ⟨hc.same id hlt, Nat.lt_of_lt_of_le hlt hle, Nat.lt_of_lt_of_le hlt hle'⟩
  hidesNothing _ := id
  seeds _ _ := trivial

theorem AlikeEntries.onward (hc : c.KeepsBelow n) {bindings others : List (String × Value)}
    (hb : c.AlikeEntries nothing bindings others)
    (hbelow : Value.EntriesBelow world.nextId bindings)
    (hbelow' : Value.EntriesBelow other.nextId others) :
    (c.onward h h').AlikeEntries nothing bindings others :=
  hb.transfer hc.hidesNothing (fun _ => id) fun hij hi hj => .inl ⟨hij, hbelow _ hi, hbelow' _ hj⟩

end Correspondence

namespace Repl

variable {n : Identity} {runner : Runner} {state state' : SessionState} {line : String}
  {c : Correspondence}

/-! ## Two sessions -/

/-- What is kept compiled is right, and whatever is bound has been handed out since `n` was next. -/
structure InOrder (n : Identity) (runner : Runner) (state : SessionState) : Prop where
  keeps : runner.Keeps state.running.cache
  le : n ≤ state.running.world.nextId
  below : Value.EntriesBelow state.running.world.nextId state.bindings

/-- Both sessions are in order, and they differ in corresponding identities only. -/
structure Matches (c : Correspondence) (n : Identity) (runner : Runner)
    (state other : SessionState) : Prop where
  keepsBelow : c.KeepsBelow n
  worlds : c.Worlds state.running.world other.running.world
  bindings : c.AlikeEntries Correspondence.nothing state.bindings other.bindings
  inOrder : InOrder n runner state
  otherInOrder : InOrder n runner other

theorem InOrder.next (h : InOrder n runner state) (hn : runner.StartsFrom n)
    (hline : ∀ source ∈ (TypedLine.ofText line).source?, runner.HasNoEffects n source) :
    InOrder n runner (next runner state line) ∧
      state.running.world.nextId ≤ (next runner state line).running.world.nextId := by
  obtain ⟨hbindings, hworld, -, hkeeps⟩ := leads_next h.keeps line
  obtain ⟨hnext, hbelow⟩ := handsOut_turn hn hline h.le h.below
  rw [← hworld] at hnext hbelow
  exact ⟨⟨hkeeps, Nat.le_trans h.le hnext, hbindings ▸ hbelow⟩, hnext⟩

/-- Sessions that match answer a line alike and match afterwards. -/
theorem Matches.next (h : Matches c n runner state state') (hn : runner.StartsFrom n)
    (hline : ∀ source ∈ (TypedLine.ofText line).source?, runner.HasNoEffects n source) :
    Matches c n runner (next runner state line) (next runner state' line) ∧
      said runner state line = said runner state' line := by
  obtain ⟨hbindings, hworlds, hsaid⟩ := alike_turn hn h.keepsBelow hline h.worlds h.bindings
  have hleads := leads_next h.inOrder.keeps line
  have hleads' := leads_next h.otherInOrder.keeps line
  rw [said_eq h.inOrder.keeps, said_eq h.otherInOrder.keeps, hsaid]
  have hinOrder := (h.inOrder.next hn hline).1
  have hotherInOrder := (h.otherInOrder.next hn hline).1
  refine ⟨⟨h.keepsBelow, ?_, ?_, hinOrder, hotherInOrder⟩, rfl⟩
  · rw [hleads.world, hleads'.world]
    exact hworlds
  · rw [hleads.bindings, hleads'.bindings]
    exact hbindings

/-- Sessions that match still do when one of them reads a line that binds nothing. -/
theorem Matches.skip (h : Matches c n runner state state') (hn : runner.StartsFrom n)
    (hline : ∀ source ∈ (TypedLine.ofText line).source?, runner.HasNoEffects n source)
    (hbinds : binds runner state line = false) :
    ∃ c', Matches c' n runner (Repl.next runner state line) state' := by
  obtain ⟨hinOrder, hnext⟩ := h.inOrder.next hn hline
  have hfree := Nat.le_trans hn.builtIn hinOrder.le
  have hfree' := Nat.le_trans hn.builtIn h.otherInOrder.le
  refine ⟨c.onward hfree hfree', ?_, Correspondence.worlds_onward, ?_, hinOrder, h.otherInOrder⟩
  · exact h.keepsBelow.onward hinOrder.le h.otherInOrder.le
  · have hbelow := hinOrder.below
    rw [bindings_next h.inOrder.keeps hbinds] at hbelow ⊢
    exact h.bindings.onward h.keepsBelow hbelow h.otherInOrder.below

/-! ## Lines that are left out -/

/-- The session before its first line. -/
def opening (world : World) : SessionState :=
  ((greeting.forM Session.print).run (.initial world)).2

theorem keeps_after (hk : runner.Keeps state.running.cache) (lines : List String) :
    runner.Keeps (after runner state lines).running.cache := by
  induction lines generalizing state with
  | nil => exact hk
  | cons line rest ih => exact ih (keeps_next hk line)

end Repl

end GatedExpr
