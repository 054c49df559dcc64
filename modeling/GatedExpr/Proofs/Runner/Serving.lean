import GatedExpr.Proofs.Closure.CompiledFrom
import GatedExpr.Proofs.Runner.Cache
import GatedExpr.Runner.Basic

/-! # Serving requests

A runner serves one request after the other. What it keeps is what parsing and compiling a source
anew would yield, so a source that is kept already is answered as if it were new.
-/

namespace GatedExpr

open GatedExpr.Computation

/-- What a runner can be asked for. -/
inductive Request where
  | parse (source : String)
  | compile (source : String)
  | evaluate (source : String) (env : Env)
  | handle (source : String) (env : Env)

/-- The source that a request has compiled. -/
def Request.source? : Request → Option String
  | .parse _ => none
  | .compile source | .evaluate source _ | .handle source _ => some source

inductive Answer where
  | parsed (result : Except Fault Value)
  | compiled (result : Except Failure Compiled)
  | evaluated (result : Except Failure Value)
  | handled (result : Except Fault Report)

namespace Runner

def serve (runner : Runner) : Request → StateM RunnerState Answer
  | .parse source => return .parsed (runner.parse source)
  | .compile source => return .compiled (← (runner.compile source).run)
  | .evaluate source env => return .evaluated (← (runner.evaluate source env).run)
  | .handle source env => return .handled (← runner.handle source env)

/-- The state after requests were served in their order. -/
def after (runner : Runner) (state : RunnerState) (requests : List Request) : RunnerState :=
  requests.foldl (fun state request => ((runner.serve request).run state).2) state

/-- The tree and the closure of a source when nothing is kept. -/
def form (runner : Runner) (source : String) : Except Failure (Value × Closure) := do
  let tree ← (runner.parse source).mapError .bare
  let closure ← ((runner.whitelist.compileTree tree).run []).1
  return (tree, closure)

/-- What an evaluation does when nothing is kept. -/
def evaluateAnew (runner : Runner) (source : String) (env : Env) : Eval Value :=
  match runner.form source with
  | .error failure => throw failure
  | .ok (_, closure) => closure env

/-- The sources that requests had compiled with success, in the order of the requests. -/
def uses (runner : Runner) (requests : List Request) : List String :=
  (requests.filterMap (·.source?)).filter fun source => (runner.form source).isOk

/-- A compiled source is what the source yields when nothing is kept. -/
def IsForm (source : String) (form : Value × Closure) (compiled : Compiled) : Prop :=
  compiled.source = source ∧ form = (compiled.tree, compiled.closure)

/-- Whatever is kept is kept under its source and as the source would be compiled now. -/
def Keeps (runner : Runner) (cache : Cache Compiled) : Prop :=
  ∀ entry ∈ cache.entries, ∃ form, runner.form entry.1 = .ok form ∧ IsForm entry.1 form entry.2

/-- What a request does to the cache: it uses a source that compiles, and nothing else. -/
inductive CacheStep (runner : Runner) (source : String) (cache : Cache Compiled) :
    Cache Compiled → Prop where
  | fails {failure : Failure} : runner.form source = .error failure →
      CacheStep runner source cache cache
  | compiles {form : Value × Closure} {compiled : Compiled} : runner.form source = .ok form →
      IsForm source form compiled →
      CacheStep runner source cache (cache.use runner.capacity source compiled)

variable {runner : Runner} {state : RunnerState} {source : String} {env : Env}

theorem keeps_initial (world : World) : runner.Keeps (RunnerState.initial world).cache :=
  nofun

namespace CacheStep

variable {cache cache' : Cache Compiled}

theorem keeps (h : CacheStep runner source cache cache') (hk : runner.Keeps cache) :
    runner.Keeps cache' := by
  cases h with
  | fails _ => exact hk
  | compiles hform his =>
    intro entry hm
    rcases Cache.mem_use hm with hm | rfl
    · exact hk entry hm
    · exact ⟨_, hform, his⟩

theorem names (h : CacheStep runner source cache cache') {used : List String}
    (hn : cache.names = Cache.recent runner.capacity.toNat used) :
    cache'.names = Cache.recent runner.capacity.toNat
      (used ++ [source].filter fun source => (runner.form source).isOk) := by
  cases h with
  | fails hform =>
    rw [List.filter_cons_of_neg (by rw [hform]; nofun), List.filter_nil, List.append_nil, hn]
  | compiles hform _ =>
    rw [List.filter_cons_of_pos (by rw [hform]; rfl), List.filter_nil]
    exact Cache.names_use hn _ _

theorem stores {form : Value × Closure} {compiled : Compiled} (hf : cache.find? source = none)
    (hform : runner.form source = .ok form) (his : IsForm source form compiled) :
    CacheStep runner source cache (cache.store runner.capacity source compiled) := by
  have huse : cache.use runner.capacity source compiled =
      cache.store runner.capacity source compiled := by
    rw [Cache.use, hf]
  exact huse ▸ .compiles hform his

theorem touches {form : Value × Closure} {compiled : Compiled}
    (hf : cache.find? source = some compiled) (hform : runner.form source = .ok form)
    (his : IsForm source form compiled) :
    CacheStep runner source cache (cache.touch source) := by
  have huse : cache.use runner.capacity source compiled = cache.touch source := by
    rw [Cache.use, hf]
  exact huse ▸ .compiles hform his

end CacheStep

/-! ## Single requests -/

theorem run_ofGate {α : Type} (gate : Gate α) (state : RunnerState) :
    (Run.ofGate gate).run state =
      ((gate.run state.warnings).1, { state with warnings := (gate.run state.warnings).2 }) :=
  rfl

theorem form_of_parse_error {fault : Fault} (h : runner.parse source = .error fault) :
    runner.form source = .error (.bare fault) := by
  unfold form
  rw [h]
  rfl

theorem form_of_parse {tree : Value} (h : runner.parse source = .ok tree) :
    runner.form source =
      (((runner.whitelist.compileTree tree).run []).1 >>= fun closure => .ok (tree, closure)) := by
  unfold form
  rw [h]
  rfl

theorem run_compileAnew (hf : state.cache.find? source = none) : ∃ r state',
    (runner.compileAnew source).run state = (r, state') ∧
      Agree Eq (IsForm source) (runner.form source) r ∧
      runner.CacheStep source state.cache state'.cache ∧ state'.world = state.world := by
  unfold compileAnew
  cases hp : runner.parse source with
  | error fault =>
    have hform := form_of_parse_error hp
    exact ⟨_, _, rfl, hform ▸ .error rfl, .fails hform, rfl⟩
  | ok tree =>
    have hform := form_of_parse hp
    obtain ⟨r, more, hgate, _⟩ := runner.whitelist.yields_compileTree tree
    rw [hgate] at hform
    change ∃ r state', (Run.ofGate (runner.whitelist.compileTree tree) >>= _).run state = _ ∧ _
    rw [run_bind, run_ofGate, hgate]
    cases r with
    | error failure => exact ⟨_, _, rfl, hform ▸ .error rfl, .fails hform, rfl⟩
    | ok closure =>
      exact ⟨_, _, rfl, hform ▸ .ok ⟨rfl, rfl⟩, .stores hf hform ⟨rfl, rfl⟩, rfl⟩

theorem run_compile_eq (runner : Runner) (source : String) (state : RunnerState) :
    (runner.compile source).run state =
      match state.cache.find? source with
      | some compiled => (.ok compiled, { state with cache := state.cache.touch source })
      | none => (runner.compileAnew source).run state := by
  have hget : (get : Run RunnerState).run state = (.ok state, state) := rfl
  unfold compile
  rw [run_bind, hget]
  dsimp only
  cases state.cache.find? source <;> rfl

/-- A source is compiled to its form, whether it is kept or not. -/
theorem run_compile (hk : runner.Keeps state.cache) (source : String) : ∃ r state',
    (runner.compile source).run state = (r, state') ∧
      Agree Eq (IsForm source) (runner.form source) r ∧
      runner.CacheStep source state.cache state'.cache ∧ state'.world = state.world := by
  rw [run_compile_eq]
  cases hf : state.cache.find? source with
  | none => exact run_compileAnew hf
  | some compiled =>
    obtain ⟨form, hform, his⟩ := hk _ (Cache.mem_entries_of_find? hf)
    exact ⟨_, _, rfl, hform ▸ .ok his, .touches hf hform his, rfl⟩

/-- A source evaluates as if it were compiled anew. -/
theorem run_evaluate (hk : runner.Keeps state.cache) (source : String) (env : Env) : ∃ state',
    (runner.evaluate source env).run state =
        (((runner.evaluateAnew source env).run state.world).1, state') ∧
      runner.CacheStep source state.cache state'.cache ∧
      state'.world = ((runner.evaluateAnew source env).run state.world).2 := by
  obtain ⟨r, state₁, hrun, hr, hstep, hworld⟩ := run_compile hk source
  unfold evaluate evaluateAnew
  rw [run_bind, hrun, ← hworld]
  revert hr
  generalize runner.form source = form
  rintro (⟨_, rfl⟩ | rfl)
  · exact ⟨{ state₁ with world := _ }, rfl, hstep, rfl⟩
  · exact ⟨state₁, rfl, hstep, rfl⟩

/-- The report of an outcome. -/
def reported (source : String) : Except Failure Value → Except Fault Report
  | .ok value => .ok (.success value)
  | .error failure => (failure.report source).map .error

/-- Handling a source evaluates it and reports the outcome. -/
theorem run_handle (runner : Runner) (source : String) (env : Env) (state : RunnerState) :
    (runner.handle source env).run state =
      (reported source ((runner.evaluate source env).run state).1,
        ((runner.evaluate source env).run state).2) := by
  have hrun : StateT.run (runner.evaluate source env).run state =
      (runner.evaluate source env).run state := rfl
  unfold handle
  rw [StateT.run_bind, hrun]
  obtain ⟨r, state'⟩ := (runner.evaluate source env).run state
  cases r <;> rfl

/-! ## Runs of requests -/

theorem serve_compile (runner : Runner) (source : String) (state : RunnerState) :
    (runner.serve (.compile source)).run state =
      (.compiled ((runner.compile source).run state).1,
        ((runner.compile source).run state).2) :=
  rfl

theorem serve_evaluate (runner : Runner) (source : String) (env : Env) (state : RunnerState) :
    (runner.serve (.evaluate source env)).run state =
      (.evaluated ((runner.evaluate source env).run state).1,
        ((runner.evaluate source env).run state).2) :=
  rfl

theorem serve_handle (runner : Runner) (source : String) (env : Env) (state : RunnerState) :
    (runner.serve (.handle source env)).run state =
      (.handled (reported source ((runner.evaluate source env).run state).1),
        ((runner.evaluate source env).run state).2) := by
  have hserve : (runner.serve (.handle source env)).run state =
      (.handled ((runner.handle source env).run state).1,
        ((runner.handle source env).run state).2) := rfl
  rw [hserve, run_handle]

/-- A request has its source used if the source compiles, and changes nothing else in the cache. -/
theorem serve_cache (hk : runner.Keeps state.cache) (request : Request) :
    let cache' := ((runner.serve request).run state).2.cache
    match request.source? with
    | some source => runner.CacheStep source state.cache cache'
    | none => cache' = state.cache := by
  cases request with
  | parse source => rfl
  | compile source =>
    obtain ⟨r, state', hrun, _, hstep, _⟩ := run_compile hk source
    rw [serve_compile, hrun]
    exact hstep
  | evaluate source env =>
    obtain ⟨state', hrun, hstep, _⟩ := run_evaluate hk source env
    rw [serve_evaluate, hrun]
    exact hstep
  | handle source env =>
    obtain ⟨state', hrun, hstep, _⟩ := run_evaluate hk source env
    rw [serve_handle, hrun]
    exact hstep

theorem keeps_serve (hk : runner.Keeps state.cache) (request : Request) :
    runner.Keeps ((runner.serve request).run state).2.cache := by
  have h := serve_cache hk request
  revert h
  cases request.source? with
  | none => exact fun h => h ▸ hk
  | some source => exact fun h => h.keeps hk

theorem names_serve (hk : runner.Keeps state.cache) {used : List String}
    (hn : state.cache.names = Cache.recent runner.capacity.toNat used) (request : Request) :
    ((runner.serve request).run state).2.cache.names =
      Cache.recent runner.capacity.toNat (used ++ runner.uses [request]) := by
  have h := serve_cache hk request
  unfold uses
  rw [List.filterMap_cons]
  revert h
  cases request.source? with
  | none =>
    intro h
    rw [h, hn]
    simp
  | some source => exact fun h => h.names hn

theorem uses_append (requests others : List Request) :
    runner.uses (requests ++ others) = runner.uses requests ++ runner.uses others := by
  simp only [uses, List.filterMap_append, List.filter_append]

/-- Whatever is asked for, what is kept is right. -/
theorem keeps_after (hk : runner.Keeps state.cache) (requests : List Request) :
    runner.Keeps (runner.after state requests).cache := by
  induction requests generalizing state with
  | nil => exact hk
  | cons request requests ih => exact ih (keeps_serve hk request)

/-- Whatever is asked for, the cache holds the sources that were used last. -/
theorem names_after (hk : runner.Keeps state.cache) {used : List String}
    (hn : state.cache.names = Cache.recent runner.capacity.toNat used) (requests : List Request) :
    (runner.after state requests).cache.names =
      Cache.recent runner.capacity.toNat (used ++ runner.uses requests) := by
  induction requests generalizing state used with
  | nil =>
    rw [show runner.uses [] = [] from rfl, List.append_nil]
    exact hn
  | cons request requests ih =>
    have h := ih (keeps_serve hk request) (names_serve hk hn request)
    rw [List.append_assoc, ← uses_append] at h
    exact h

end Runner

end GatedExpr
