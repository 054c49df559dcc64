import GatedExpr.Builtin.Library
import GatedExpr.Runner.Basic

/-! # Sessions

A session evaluates one source after the other with the same runner and the same bindings, and
prints as it goes.
-/

namespace GatedExpr

/-- A line on one of the two output streams. -/
inductive OutputLine where
  | out (text : String)
  | err (text : String)
  deriving DecidableEq, Repr

structure SessionState where
  bindings : List (String × Value)
  running : RunnerState
  /-- What has been printed, the latest line first. -/
  printed : List OutputLine

def SessionState.initial (world : World) : SessionState :=
  { bindings := [], running := .initial world, printed := [] }

abbrev Session := StateM SessionState

namespace Session

def print (line : OutputLine) : Session Unit :=
  modify fun state => { state with printed := line :: state.printed }

/-- Handles a source under the bindings of the session. -/
def handle (runner : Runner) (source : String) : Session (Except Fault Report) := fun state =>
  let env : Env := { bindings := state.bindings, options := [] }
  let (result, running) := (runner.handle source env).run state.running
  (result, { state with running })

/-- Binds a name from now on. -/
def bind (name : String) (value : Value) : Session Unit :=
  modify fun state => { state with bindings := Table.set name value state.bindings }

end Session

end GatedExpr
