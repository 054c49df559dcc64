import GatedExpr.Proofs.Closure.RunsAlike
import GatedExpr.Proofs.Expr.Identities
import GatedExpr.Proofs.Grammar.Parsing
import GatedExpr.Proofs.Runner.Serving

/-! # Runners answer as if they kept nothing

What a runner answers after any requests is what a runner that keeps nothing answers to the same
request alone, up to the identities of new values, provided that functions depend on nothing but
their arguments. Which sources are kept is determined by the sources that were used.
-/

namespace GatedExpr

open GatedExpr.Computation Semantics

/-! ## Reports -/

namespace Correspondence

variable {c : Correspondence}

theorem AlikeEach.hostText {arguments others : List Value} (h : c.AlikeEach arguments others)
    (cls : FaultClass) : Fault.hostText cls arguments = Fault.hostText cls others := by
  cases h with
  | nil => rfl
  | cons h hs =>
    cases hs with
    | nil => cases cls <;> simp only [Fault.hostText, h.display, h.displayPlain]
    | cons h' hs =>
      have ht := (Alike.tuple same_zero (.cons h (.cons h' hs))).display
      cases cls <;> exact ht

theorem AlikeFault.kindAndText_eq {fault other : Fault} (h : c.AlikeFault fault other) :
    Failure.kindAndText fault = Failure.kindAndText other := by
  cases h with
  | same => rfl
  | @host cls arguments others h =>
    have ht := h.hostText cls
    cases h with
    | nil => rfl
    | cons h hs =>
      cases cls with
      | key => exact congrArg (Prod.mk "PathNotFound") h.displayPlain
      | _ => exact congrArg (Prod.mk _) ht

/-- Failures that are alike are reported in the same words. -/
theorem AlikeFailure.report_eq {failure other : Failure} (h : c.AlikeFailure failure other)
    (source : String) : failure.report source = other.report source := by
  have hplace : failure.placeAndNode = other.placeAndNode := by
    have hoffset : Failure.parseOffset? failure.fault = Failure.parseOffset? other.fault := by
      obtain ⟨hfault, _⟩ := h
      revert hfault
      generalize failure.fault = fault, other.fault = fault'
      rintro (_ | _) <;> rfl
    unfold Failure.placeAndNode
    rw [hoffset, h.node]
  unfold Failure.report
  rw [h.fault.kindAndText_eq, hplace]

/-! ## Answers -/

inductive AlikeReport (c : Correspondence) : Report → Report → Prop where
  | success {v w : Value} : c.Alike v w → AlikeReport c (.success v) (.success w)
  | error {report : ErrorReport} : AlikeReport c (.error report) (.error report)

theorem agree_reported {r r' : Except Failure Value} (h : Agree c.AlikeFailure c.Alike r r')
    (source : String) :
    Agree Eq c.AlikeReport (Runner.reported source r) (Runner.reported source r') := by
  cases h with
  | ok hv => exact .ok (.success hv)
  | error he =>
    simp only [Runner.reported, he.report_eq source]
    cases Failure.report _ source with
    | ok report => exact .ok .error
    | error fault => exact .error rfl

end Correspondence

/-- Compiled sources that differ in their serials at most. -/
structure Compiled.Same (compiled other : Compiled) : Prop where
  source : compiled.source = other.source
  tree : compiled.tree = other.tree
  closure : compiled.closure = other.closure

/-- The answers are the same up to corresponding identities and to serials. -/
inductive Correspondence.AlikeAnswer (c : Correspondence) : Answer → Answer → Prop where
  | parsed {result : Except Fault Value} : AlikeAnswer c (.parsed result) (.parsed result)
  | compiled {result other : Except Failure Compiled} : Agree Eq Compiled.Same result other →
      AlikeAnswer c (.compiled result) (.compiled other)
  | evaluated {result other : Except Failure Value} : Agree c.AlikeFailure c.Alike result other →
      AlikeAnswer c (.evaluated result) (.evaluated other)
  | handled {result other : Except Fault Report} : Agree Eq c.AlikeReport result other →
      AlikeAnswer c (.handled result) (.handled other)

/-! ## Correspondences between worlds -/

namespace Correspondence

/-- The first identity that a world can hand out. -/
def first (world : World) : Identity :=
  max World.firstFreeId world.nextId

/-- What is below both numbers is kept, and what comes from them on corresponds in its order. -/
def KeptOrNew (n n' i j : Nat) : Prop :=
  i = j ∧ i < n ∧ i < n' ∨ ∃ k, i = n + k ∧ j = n' + k

theorem keptOrNew_unique {n n' i j i' j' : Nat} (h : KeptOrNew n n' i i')
    (h' : KeptOrNew n n' j j') : i = j ↔ i' = j' := by
  rcases h with ⟨rfl, _, _⟩ | ⟨k, rfl, rfl⟩ <;> rcases h' with ⟨rfl, _, _⟩ | ⟨m, rfl, rfl⟩ <;> omega

/-- Identities that either world has handed out keep their meaning, and those that the worlds
hand out from now on correspond in their order. The random numbers need not agree. -/
def since (world other : World) : Correspondence where
  same := KeptOrNew (first world) (first other)
  unique := keptOrNew_unique
  builtIn h := .inl ⟨rfl, lt_max_of_lt_left h, lt_max_of_lt_left h⟩
  hidden := nothing
  hidden_private := nothing_private
  seeds _ _ := True
  calls := world.calls
  otherCalls := other.calls

theorem worlds_since {world other : World} (h : World.firstFreeId ≤ world.nextId)
    (h' : World.firstFreeId ≤ other.nextId) : (since world other).Worlds world other where
  free := h
  fresh k := .inr ⟨k, by rw [first, max_eq_right h], by rw [first, max_eq_right h']⟩
  seeds := trivial
  calls := ⟨[], [], rfl, rfl, .nil⟩

/-- Every identity stands for itself. -/
def unmoved (world : World) : Correspondence where
  same := Eq
  unique := eq_unique
  builtIn _ := rfl
  hidden := nothing
  hidden_private := nothing_private
  seeds _ _ := True
  calls := world.calls
  otherCalls := world.calls

theorem worlds_unmoved {world : World} (h : World.firstFreeId ≤ world.nextId) :
    (unmoved world).Worlds world world where
  free := h
  fresh _ := rfl
  seeds := trivial
  calls := ⟨[], [], rfl, rfl, .nil⟩

end Correspondence

/-- The functions and objects of the whitelist depend on what they are applied to only: neither on
how many identities were handed out before, nor on the calls that were made, nor on the random
numbers. -/
def Whitelist.DependsOnArguments (whitelist : Whitelist) : Prop :=
  ∀ c : Correspondence, (∀ name, ¬ c.hidden name) → (∀ seed other, c.seeds seed other) →
    c.RespectsAll whitelist

/-- The identities of the bindings and options of a request. -/
def Request.ids : Request → List Identity
  | .parse _ | .compile _ => []
  | .evaluate _ env | .handle _ env => env.ids

namespace Runner

variable {runner : Runner} {state : RunnerState}

/-- The identities in the tree of a source. There is none in a tree of the expression grammar. -/
def treeIds (runner : Runner) (source : String) : List Identity :=
  match runner.parse source with
  | .ok tree => tree.ids
  | .error _ => []

/-- The identities of whatever a request brings along. -/
def idsOf (runner : Runner) (request : Request) : List Identity :=
  request.ids ++ request.source?.elim [] runner.treeIds

theorem idsOf_handle (runner : Runner) (source : String) (env : Env) :
    runner.idsOf (.handle source env) = env.ids ++ runner.treeIds source :=
  rfl

theorem treeIds_ofWhitelist (whitelist : Whitelist) (capacity : Int) (source : String) :
    ∀ id ∈ (ofWhitelist whitelist capacity).treeIds source, id = .unassigned := by
  unfold treeIds
  split
  · next tree hp =>
    obtain ⟨e, hd⟩ := Family.depicts_of_parse hp
    exact hd.isNew
  · exact nofun

/-- The same runner when it keeps nothing. -/
def keepingNothing (runner : Runner) : Runner :=
  { runner with capacity := 0 }

theorem compiledFrom_of_form {source : String} {tree : Value} {closure : Closure}
    (h : runner.form source = .ok (tree, closure)) :
    runner.parse source = .ok tree ∧
      ∃ id node, tree = .node id node ∧
        CompiledFrom runner.whitelist closure (.node (.root node)) := by
  cases hp : runner.parse source with
  | error fault =>
    rw [form_of_parse_error hp] at h
    cases h
  | ok other =>
    rw [form_of_parse hp] at h
    obtain ⟨r, more, hgate, hcompiled⟩ := runner.whitelist.yields_compileTree other
    rw [hgate] at h
    cases r with
    | error failure => cases h
    | ok _ =>
      cases h
      exact ⟨rfl, hcompiled _ rfl⟩

/-- A source is refused, or its closure is compiled from its tree. -/
theorem form_cases (runner : Runner) (source : String) :
    (∃ failure, runner.form source = .error failure) ∨
      ∃ id node closure, runner.parse source = .ok (.node id node) ∧
        runner.form source = .ok (.node id node, closure) ∧
        CompiledFrom runner.whitelist closure (.node (.root node)) ∧
        Value.idsNode node ⊆ runner.treeIds source := by
  cases hform : runner.form source with
  | error failure => exact .inl ⟨failure, rfl⟩
  | ok form =>
    obtain ⟨tree, closure⟩ := form
    obtain ⟨hp, id, node, rfl, hcompiled⟩ := compiledFrom_of_form hform
    refine .inr ⟨id, node, closure, hp, rfl, hcompiled, fun i hm => ?_⟩
    rw [treeIds, hp]
    exact .tail _ hm

/-- Evaluations of a source run alike. -/
theorem runsAlike_evaluateAnew {c : Correspondence} {source : String}
    (hw : ∀ id node, runner.parse source = .ok (.node id node) →
      c.RespectsFor runner.whitelist (.node (.root node)))
    (hids : ∀ id ∈ runner.treeIds source, c.same id id) {env other : Env}
    (henv : c.AlikeEnv env other) :
    c.RunsAlike c.Alike (runner.evaluateAnew source env) (runner.evaluateAnew source other) := by
  unfold evaluateAnew
  rcases runner.form_cases source with
    ⟨failure, hform⟩ | ⟨id, node, closure, hp, hform, hcompiled, hsub⟩
  · rw [hform]
    exact fun _ _ hworlds => ⟨.error ⟨.same, rfl⟩, hworlds⟩
  · rw [hform]
    exact Correspondence.respects_of_compiledFrom hcompiled (hw id node hp)
      (fun i hm => hids i (hsub hm)) env other henv

/-- No evaluation makes a world hand out identities that are built in. -/
theorem free_evaluateAnew (hw : runner.whitelist.DependsOnArguments) (source : String) (env : Env)
    {world : World} (hfree : World.firstFreeId ≤ world.nextId) :
    World.firstFreeId ≤ ((runner.evaluateAnew source env).run world).2.nextId := by
  have hrespects := hw (.unmoved world) (fun _ => id) fun _ _ => trivial
  have henv : (Correspondence.unmoved world).AlikeEnv env env :=
    Correspondence.alikeEnv_self fun _ _ => rfl
  exact (runsAlike_evaluateAnew (fun _ _ _ => hrespects.respectsFor _) (fun _ _ => rfl) henv world
    world (Correspondence.worlds_unmoved hfree)).2.free

theorem free_serve (hw : runner.whitelist.DependsOnArguments) (hk : runner.Keeps state.cache)
    (hfree : World.firstFreeId ≤ state.world.nextId) (request : Request) :
    World.firstFreeId ≤ ((runner.serve request).run state).2.world.nextId := by
  cases request with
  | parse source => exact hfree
  | compile source =>
    obtain ⟨r, state', hrun, _, _, hworld⟩ := run_compile hk source
    rw [serve_compile, hrun, hworld]
    exact hfree
  | evaluate source env =>
    obtain ⟨state', hrun, _, hworld⟩ := run_evaluate hk source env
    rw [serve_evaluate, hrun, hworld]
    exact free_evaluateAnew hw source env hfree
  | handle source env =>
    obtain ⟨state', hrun, _, hworld⟩ := run_evaluate hk source env
    rw [serve_handle, hrun, hworld]
    exact free_evaluateAnew hw source env hfree

theorem free_after (hw : runner.whitelist.DependsOnArguments) (hk : runner.Keeps state.cache)
    (hfree : World.firstFreeId ≤ state.world.nextId) (requests : List Request) :
    World.firstFreeId ≤ (runner.after state requests).world.nextId := by
  induction requests generalizing state with
  | nil => exact hfree
  | cons request requests ih => exact ih (keeps_serve hk request) (free_serve hw hk hfree request)

theorem agree_of_form {source : String} {form : Except Failure (Value × Closure)}
    {r r' : Except Failure Compiled} (h : Agree Eq (IsForm source) form r)
    (h' : Agree Eq (IsForm source) form r') : Agree Eq Compiled.Same r r' := by
  cases h with
  | error he =>
    cases h' with
    | error he' => exact .error (he.symm.trans he')
  | ok h =>
    cases h' with
    | ok h' =>
      obtain ⟨hs, hf⟩ := h
      obtain ⟨hs', hf'⟩ := h'
      obtain ⟨ht, hc⟩ := Prod.mk.inj (hf.symm.trans hf')
      exact .ok ⟨hs.trans hs'.symm, ht, hc⟩

/-- A runner that keeps nothing answers alike in a corresponding world. -/
theorem serve_alike {c : Correspondence} (hw : c.RespectsAll runner.whitelist)
    (hk : runner.Keeps state.cache) {world : World} (hworlds : c.Worlds world state.world)
    {request : Request} (hids : ∀ id ∈ runner.idsOf request, c.same id id) :
    c.AlikeAnswer ((runner.keepingNothing.serve request).run (.initial world)).1
      ((runner.serve request).run state).1 := by
  have hnew : runner.keepingNothing.Keeps (RunnerState.initial world).cache := keeps_initial world
  have halike : ∀ source env, (∀ id ∈ env.ids ++ runner.treeIds source, c.same id id) →
      Agree c.AlikeFailure c.Alike ((runner.keepingNothing.evaluateAnew source env).run world).1
        ((runner.evaluateAnew source env).run state.world).1 := by
    intro source env h
    obtain ⟨henv, htree⟩ := List.forall_mem_append.mp h
    exact (runsAlike_evaluateAnew (fun _ _ _ => hw.respectsFor _) htree
      (Correspondence.alikeEnv_self henv) _ _ hworlds).1
  cases request with
  | parse source => exact .parsed
  | compile source =>
    obtain ⟨_, _, hrun, hr, _⟩ := run_compile hnew source
    obtain ⟨_, _, hrun', hr', _⟩ := run_compile hk source
    rw [serve_compile, serve_compile, hrun, hrun']
    exact .compiled (agree_of_form hr hr')
  | evaluate source env =>
    obtain ⟨_, hrun, _⟩ := run_evaluate hnew source env
    obtain ⟨_, hrun', _⟩ := run_evaluate hk source env
    rw [serve_evaluate, serve_evaluate, hrun, hrun']
    exact .evaluated (halike source env hids)
  | handle source env =>
    obtain ⟨_, hrun, _⟩ := run_evaluate hnew source env
    obtain ⟨_, hrun', _⟩ := run_evaluate hk source env
    rw [serve_handle, serve_handle, hrun, hrun']
    exact .handled (Correspondence.agree_reported (halike source env hids) source)

/-- After any requests the cache holds the sources that were used last, the least recently used
one first, as many as there is room for. If functions depend on nothing but their arguments, then
any further request is answered as a runner that keeps nothing answers it alone, in any world in
which what the request brings along exists as well. -/
theorem cache_is_recent_and_unseen (runner : Runner) (start : World) (requests : List Request) :
    let state := runner.after (.initial start) requests
    (state.cache.names = Cache.recent runner.capacity.toNat (runner.uses requests) ∧
      (runner.capacity ≤ 0 → state.cache.names = [])) ∧
    (runner.whitelist.DependsOnArguments → World.firstFreeId ≤ start.nextId →
      ∀ (request : Request) (world : World), World.firstFreeId ≤ world.nextId →
        (∀ id ∈ runner.idsOf request, id < world.nextId ∧ id < state.world.nextId) →
        (Correspondence.since world state.world).AlikeAnswer
          ((runner.keepingNothing.serve request).run (.initial world)).1
          ((runner.serve request).run state).1) := by
  intro state
  have hkeeps : runner.Keeps (RunnerState.initial start).cache := keeps_initial start
  have hempty : Cache.recent runner.capacity.toNat [] = [] := List.rtake_nil _
  have hnames : state.cache.names = Cache.recent runner.capacity.toNat (runner.uses requests) :=
    names_after hkeeps hempty.symm requests
  refine ⟨⟨hnames, fun hcapacity => ?_⟩, fun hw hstart request world hworld hids => ?_⟩
  · rw [hnames, Int.toNat_of_nonpos hcapacity]
    exact List.rtake_zero _
  · have hfree : World.firstFreeId ≤ state.world.nextId := free_after hw hkeeps hstart requests
    refine serve_alike (hw _ (fun _ => id) fun _ _ => trivial) (keeps_after hkeeps requests)
      (Correspondence.worlds_since hworld hfree) fun id hm => ?_
    obtain ⟨hlt, hlt'⟩ := hids id hm
    exact .inl ⟨rfl, lt_max_of_lt_right hlt, lt_max_of_lt_right hlt'⟩

/-- The function that makes a list of its arguments. -/
def collect : Function :=
  { name := "collect", apply := fun arguments => pure (.ofList arguments) }

def collecting : Whitelist :=
  { objects := [], callees := [("collect", collect)], custom := [] }

theorem dependsOnArguments_collecting : collecting.DependsOnArguments := by
  intro c _ _
  refine ⟨nofun, fun signature function hl arguments others h => ?_⟩
  have hfunction : function = collect := by
    rw [collecting, List.lookup_cons] at hl
    split at hl
    · exact (Option.some.inj hl).symm
    · cases hl
  rw [hfunction]
  exact .pure (.list Correspondence.same_zero h)

def sharedList : Env :=
  { bindings := [("a", .list 7 [])], options := [] }

/-- A source is used twice, with another one in between and failures at the end. -/
def session : List Request :=
  [.evaluate "collect(a)" sharedList, .compile "a", .handle "collect(a)" sharedList, .parse "b",
    .compile "("]

theorem cache_is_recent_and_unseen_session :
    let runner := ofWhitelist collecting 1
    let state := runner.after (.initial (.initial 0)) session
    let request := Request.handle "collect(a) == a" sharedList
    let world : World := { nextId := 2000, calls := [], seed := 1 }
    (state.cache.names = Cache.recent 1 (runner.uses session) ∧
      ((1 : Int) ≤ 0 → state.cache.names = [])) ∧
    (Correspondence.since world state.world).AlikeAnswer
      ((runner.keepingNothing.serve request).run (.initial world)).1
      ((runner.serve request).run state).1 := by
  have hids : ∀ id ∈ (ofWhitelist collecting 1).idsOf (.handle "collect(a) == a" sharedList),
      id < World.firstFreeId := by
    have htree := treeIds_ofWhitelist collecting 1 "collect(a) == a"
    rw [idsOf_handle]
    refine List.forall_mem_append.mpr ⟨by decide, fun id hm => ?_⟩
    rw [htree id hm]
    decide
  have hfree : World.firstFreeId ≤
      ((ofWhitelist collecting 1).after (.initial (.initial 0)) session).world.nextId :=
    free_after dependsOnArguments_collecting (keeps_initial _) (Nat.le_refl _) session
  have h := cache_is_recent_and_unseen (ofWhitelist collecting 1) (.initial 0) session
  refine ⟨h.1, h.2 dependsOnArguments_collecting (Nat.le_refl _) _ _ (by decide) ?_⟩
  exact fun id hm => ⟨Nat.lt_trans (hids id hm) (by decide), Nat.lt_of_lt_of_le (hids id hm) hfree⟩

end Runner

end GatedExpr
