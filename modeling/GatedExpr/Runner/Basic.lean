import GatedExpr.Closure.Compile
import GatedExpr.Grammar.Expression
import GatedExpr.Runner.Cache
import GatedExpr.Runner.Report

/-! # Runners

A runner parses, compiles and evaluates sources against one whitelist. Compiled expressions are
kept by source, so that a source that is evaluated again is not compiled again. Only sources that
compile are kept.
-/

namespace GatedExpr

/-- A source that was parsed and compiled, to be evaluated any number of times. The serial tells
compiled expressions apart. -/
structure Compiled where
  serial : Nat
  source : String
  tree : Value
  closure : Closure

/-- A compiled expression in diagnostics. -/
def Compiled.display (compiled : Compiled) : String :=
  s!"<CompiledExpression {quote compiled.source}>"

structure Runner where
  whitelist : Whitelist
  family : Family
  /-- The grammar of the family that sources are parsed with. -/
  grammar : GrammarId
  /-- How many compiled expressions are kept. -/
  capacity : Int

/-- What running expressions changes. -/
structure RunnerState where
  cache : Cache Compiled
  /-- How many expressions have been compiled. -/
  compiled : Nat
  /-- The warnings of the gate in their order. -/
  warnings : List Warning
  world : World

/-- A computation of a runner. -/
abbrev Run := ExceptT Failure (StateM RunnerState)

namespace RunnerState

def initial (world : World) : RunnerState :=
  { cache := .empty, compiled := 0, warnings := [], world }

end RunnerState

namespace Run

def ofExcept {α : Type} : Except Fault α → Run α
  | .ok a => pure a
  | .error fault => throw (.bare fault)

/-- Keeps the warnings of a compilation, failed or not. -/
def ofGate {α : Type} (gate : Gate α) : Run α := fun state =>
  let (result, warnings) := gate.run state.warnings
  (result, { state with warnings })

/-- Keeps what an evaluation did, failed or not. -/
def ofEval {α : Type} (eval : Eval α) : Run α := fun state =>
  let (result, world) := eval.run state.world
  (result, { state with world })

end Run

namespace Runner

/-- A runner for the expression grammar. -/
def ofWhitelist (whitelist : Whitelist) (capacity : Int) : Runner :=
  { whitelist, family := .expression, grammar := 0, capacity }

/-- How many compiled expressions a runner keeps unless it is told otherwise. -/
def defaultCapacity : Int := 256

def parse (runner : Runner) (source : String) : Except Fault Value :=
  runner.family.parse runner.grammar source.toList Grammar.rootKind

/-- Parses and compiles a source and keeps the result. -/
def compileAnew (runner : Runner) (source : String) : Run Compiled := do
  let tree ← Run.ofExcept (runner.parse source)
  let closure ← Run.ofGate (runner.whitelist.compileTree tree)
  let serial := (← get).compiled
  let compiled : Compiled := { serial, source, tree, closure }
  modify fun state =>
    { state with
      cache := state.cache.store runner.capacity source compiled
      compiled := serial + 1 }
  return compiled

/-- The compiled form of a source, made anew only if it is not kept. -/
def compile (runner : Runner) (source : String) : Run Compiled := do
  match (← get).cache.find? source with
  | some compiled =>
    modify fun state => { state with cache := state.cache.touch source }
    return compiled
  | none => runner.compileAnew source

/-- Evaluates a compiled expression. -/
def call (compiled : Compiled) (env : Env) : Run Value :=
  Run.ofEval (compiled.closure env)

def evaluate (runner : Runner) (source : String) (env : Env) : Run Value := do
  call (← runner.compile source) env

/-- Evaluates a source and reports the outcome. The result is a fault only if a failure could not
be reported. -/
def handle (runner : Runner) (source : String) (env : Env) :
    StateM RunnerState (Except Fault Report) := do
  match ← (runner.evaluate source env).run with
  | .ok value => return .ok (.success value)
  | .error failure =>
    return (failure.report source).map .error

end Runner

end GatedExpr
