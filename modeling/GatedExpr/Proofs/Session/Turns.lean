import GatedExpr.Proofs.Runner.Serving
import GatedExpr.Session.Repl

/-! # Turns of a session

What a typed line does is determined by what is bound and by the world: it changes these and says
one line at most, whatever is kept compiled. A session is one turn after the other, up to `exit`.
-/

namespace GatedExpr

open GatedExpr.Computation

namespace Repl

/-- What a typed line leaves behind and what it says. -/
structure Turn where
  bindings : List (String × Value)
  world : World
  said : Option OutputLine

/-- What `:ast` says. -/
def treeLine (runner : Runner) (source : String) : OutputLine :=
  match (do Value.printAny (← runner.parse source)) with
  | .ok text => .out text.displayPlain
  | .error fault => faultLine fault

/-- The report of a source and the world after its evaluation when nothing is kept compiled. -/
def handled (runner : Runner) (bindings : List (String × Value)) (world : World) (source : String) :
    Except Fault Report × World :=
  let run := (runner.evaluateAnew source { bindings, options := [] }).run world
  (Runner.reported source run.1, run.2)

/-- The turn of a line whose source was handled: a failure is all that it says. -/
def Turn.ofOutcome (bindings : List (String × Value)) (outcome : Except Fault Report × World)
    (ofValue : Value → World → Turn) : Turn :=
  match outcome with
  | (.ok (.success value), world) => ofValue value world
  | (.ok (.error report), world) => { bindings, world, said := some (.err report.text) }
  | (.error fault, world) => { bindings, world, said := some (faultLine fault) }

/-- What a typed line does when nothing is kept compiled. -/
def turn (runner : Runner) (bindings : List (String × Value)) (world : World) : TypedLine → Turn
  | .blank | .exit => { bindings, world, said := none }
  | .command (.tree source) => { bindings, world, said := some (treeLine runner source) }
  | .command .malformedBind => { bindings, world, said := some (.err "usage: :let NAME = EXPR") }
  | .command (.bind name source) =>
    .ofOutcome bindings (handled runner bindings world source) fun value world =>
      { bindings := Table.set name value bindings, world, said := none }
  | .command .bindings => { bindings, world, said := some (.out (Value.map 0 bindings).print) }
  | .command (.unknown word) => { bindings, world, said := some (.err s!"Unknown command {word}") }
  | .expression source =>
    .ofOutcome bindings (handled runner bindings world source) fun value world =>
      { bindings, world, said := some (valueLine value) }

/-- The session `next` is the session `state` after the turn. -/
structure Turn.Leads (turn : Turn) (runner : Runner) (state next : SessionState) : Prop where
  bindings : next.bindings = turn.bindings
  world : next.running.world = turn.world
  printed : next.printed = turn.said.toList ++ state.printed
  keeps : runner.Keeps next.running.cache

/-- What holds of the turn of a value and of whatever a failure says holds of the turn. -/
theorem Turn.of_outcome {P : Turn → Prop} {bindings : List (String × Value)}
    {outcome : Except Fault Report × World} {ofValue : Value → World → Turn}
    (hvalue : ∀ value, outcome.1 = .ok (.success value) → P (ofValue value outcome.2))
    (hfails : ∀ text, P { bindings, world := outcome.2, said := some (.err text) }) :
    P (.ofOutcome bindings outcome ofValue) := by
  obtain ⟨result, world⟩ := outcome
  rcases result with fault | (value | report)
  · exact hfails _
  · exact hvalue value rfl
  · exact hfails report.text

variable {runner : Runner} {state : SessionState} {line : String}

theorem run_handle (hk : runner.Keeps state.running.cache) (source : String) : ∃ running,
    (Session.handle runner source).run state =
        ((handled runner state.bindings state.running.world source).1, { state with running }) ∧
      running.world = (handled runner state.bindings state.running.world source).2 ∧
      runner.Keeps running.cache := by
  let env : Env := { bindings := state.bindings, options := [] }
  obtain ⟨running, hrun, hstep, hworld⟩ := Runner.run_evaluate hk source env
  have h := Runner.run_handle runner source env state.running
  rw [hrun] at h
  have hhandle : (Session.handle runner source).run state =
      (((runner.handle source env).run state.running).1,
        { state with running := ((runner.handle source env).run state.running).2 }) := rfl
  refine ⟨running, ?_, hworld, hstep.keeps hk⟩
  rw [hhandle, h]
  rfl

theorem leads_tree (hk : runner.Keeps state.running.cache) (source : String) : ∃ next,
    (runCommand runner (.tree source)).run state = ((), next) ∧
      (turn runner state.bindings state.running.world (.command (.tree source))).Leads
        runner state next := by
  have hrun : runCommand runner (.tree source) = Session.print (treeLine runner source) := by
    unfold runCommand treeLine
    dsimp only
    generalize (do Value.printAny (← runner.parse source)) = printed
    cases printed <;> rfl
  rw [hrun]
  exact ⟨_, rfl, rfl, rfl, rfl, hk⟩

/-- Handling a source leads to the turn of its outcome if what follows does so for a value and says
whatever a failure says. -/
theorem leads_outcome (hk : runner.Keeps state.running.cache) (source : String)
    {act : Except Fault Report → Session Unit} {ofValue : Value → World → Turn}
    (hvalue : ∀ value running, runner.Keeps running.cache → ∃ next,
      (act (.ok (.success value))).run { state with running } = ((), next) ∧
        (ofValue value running.world).Leads runner state next)
    (herror : ∀ report, act (.ok (.error report)) = Session.print (.err report.text))
    (hfault : ∀ fault, act (.error fault) = Session.print (faultLine fault)) : ∃ next,
    (Session.handle runner source >>= act).run state = ((), next) ∧
      (Turn.ofOutcome state.bindings (handled runner state.bindings state.running.world source)
        ofValue).Leads runner state next := by
  obtain ⟨running, hrun, hworld, hkeeps⟩ := run_handle hk source
  rw [StateT.run_bind, hrun]
  generalize handled runner state.bindings state.running.world source = outcome at hworld ⊢
  obtain ⟨result, world⟩ := outcome
  cases hworld
  rcases result with fault | (value | report)
  · refine ⟨{ state with running, printed := faultLine fault :: state.printed }, ?_, rfl, rfl, rfl,
      hkeeps⟩
    exact congrArg (StateT.run · { state with running }) (hfault fault)
  · exact hvalue value running hkeeps
  · refine ⟨{ state with running, printed := .err report.text :: state.printed }, ?_, rfl, rfl, rfl,
      hkeeps⟩
    exact congrArg (StateT.run · { state with running }) (herror report)

theorem leads_bind (hk : runner.Keeps state.running.cache) (name source : String) : ∃ next,
    (runCommand runner (.bind name source)).run state = ((), next) ∧
      (turn runner state.bindings state.running.world (.command (.bind name source))).Leads
        runner state next :=
  leads_outcome hk source (fun _ _ hkeeps => ⟨_, rfl, rfl, rfl, rfl, hkeeps⟩) (fun _ => rfl)
    fun _ => rfl

theorem leads_expression (hk : runner.Keeps state.running.cache) (source : String) : ∃ next,
    (runExpression runner source).run state = ((), next) ∧
      (turn runner state.bindings state.running.world (.expression source)).Leads
        runner state next :=
  leads_outcome hk source (fun _ _ hkeeps => ⟨_, rfl, rfl, rfl, rfl, hkeeps⟩) (fun _ => rfl)
    fun _ => rfl

/-- A line takes its turn, and the session goes on unless the line is `exit`. -/
theorem run_runLine (hk : runner.Keeps state.running.cache) (line : String) : ∃ next,
    (runLine runner line).run state = (decide (TypedLine.ofText line ≠ .exit), next) ∧
      (turn runner state.bindings state.running.world (.ofText line)).Leads runner state next := by
  unfold runLine
  cases TypedLine.ofText line with
  | blank => exact ⟨state, rfl, rfl, rfl, rfl, hk⟩
  | exit => exact ⟨state, rfl, rfl, rfl, rfl, hk⟩
  | command command =>
    dsimp only
    rw [StateT.run_bind]
    cases command with
    | tree source =>
      obtain ⟨next, hrun, hleads⟩ := leads_tree hk source
      rw [hrun]
      exact ⟨next, rfl, hleads⟩
    | bind name source =>
      obtain ⟨next, hrun, hleads⟩ := leads_bind hk name source
      rw [hrun]
      exact ⟨next, rfl, hleads⟩
    | malformedBind => exact ⟨_, rfl, rfl, rfl, rfl, hk⟩
    | bindings => exact ⟨_, rfl, rfl, rfl, rfl, hk⟩
    | unknown word => exact ⟨_, rfl, rfl, rfl, rfl, hk⟩
  | expression source =>
    dsimp only
    rw [StateT.run_bind]
    obtain ⟨next, hrun, hleads⟩ := leads_expression hk source
    rw [hrun]
    exact ⟨next, rfl, hleads⟩

/-! ## Lines one after the other -/

/-- The session after a line. -/
def next (runner : Runner) (state : SessionState) (line : String) : SessionState :=
  ((runLine runner line).run state).2

/-- The session after lines none of which ends it. -/
def after (runner : Runner) (state : SessionState) (lines : List String) : SessionState :=
  lines.foldl (next runner) state

/-- What a line prints. -/
def said (runner : Runner) (state : SessionState) (line : String) : List OutputLine :=
  (next runner { state with printed := [] } line).printed.reverse

/-- What each of the lines prints. -/
def answers (runner : Runner) (state : SessionState) : List String → List (List OutputLine)
  | [] => []
  | line :: rest => said runner state line :: answers runner (next runner state line) rest

/-- Whether a line binds a name. -/
def binds (runner : Runner) (state : SessionState) (line : String) : Bool :=
  match TypedLine.ofText line with
  | .command (.bind _ source) =>
    match ((Session.handle runner source).run state).1 with
    | .ok (.success _) => true
    | _ => false
  | _ => false

/-- The lines that are read before the session ends. -/
def untilExit (lines : List String) : List String :=
  lines.takeWhile fun line => TypedLine.ofText line ≠ .exit

/-- What is printed when the lines have been read. -/
def ending (lines : List String) : List OutputLine :=
  if untilExit lines = lines then farewell else []

theorem leads_next (hk : runner.Keeps state.running.cache) (line : String) :
    (turn runner state.bindings state.running.world (.ofText line)).Leads runner state
      (next runner state line) := by
  obtain ⟨next, hrun, hleads⟩ := run_runLine hk line
  rw [Repl.next, hrun]
  exact hleads

theorem keeps_next (hk : runner.Keeps state.running.cache) (line : String) :
    runner.Keeps (next runner state line).running.cache :=
  (leads_next hk line).keeps

/-- A line says what its turn says, whatever was printed before. -/
theorem said_eq (hk : runner.Keeps state.running.cache) (line : String) :
    said runner state line =
      (turn runner state.bindings state.running.world (.ofText line)).said.toList := by
  have hunprinted : runner.Keeps { state with printed := [] }.running.cache := hk
  have hprinted := (leads_next hunprinted line).printed
  rw [said, hprinted, List.append_nil]
  cases (turn runner state.bindings state.running.world (.ofText line)).said <;> rfl

/-- Only a binding whose expression evaluates changes what is bound. -/
theorem bindings_next (hk : runner.Keeps state.running.cache)
    (h : binds runner state line = false) :
    (next runner state line).bindings = state.bindings := by
  rw [(leads_next hk line).bindings]
  unfold binds at h
  generalize TypedLine.ofText line = typed at h ⊢
  rcases typed with _ | _ | (_ | ⟨name, source⟩ | _ | _ | _) | source
  case command.bind =>
    obtain ⟨running, hrun, -⟩ := run_handle hk source
    refine Turn.of_outcome (P := fun turn => turn.bindings = state.bindings) ?_ fun _ => rfl
    intro value hvalue
    dsimp only at h
    rw [hrun, hvalue] at h
    cases h
  case expression =>
    exact Turn.of_outcome (P := fun turn => turn.bindings = state.bindings) (fun _ _ => rfl)
      fun _ => rfl
  all_goals rfl

end Repl

end GatedExpr
