import GatedExpr.Gate.Config
import GatedExpr.Session.Files
import GatedExpr.Session.Repl
import GatedExpr.Session.Script

/-! # The command line

The arguments may name a whitelist file, which adds to the standard whitelist, and a script. With
a script the session runs that, and otherwise the lines that are typed.
-/

namespace GatedExpr

/-- What the arguments ask for. -/
structure Invocation where
  whitelist : Option String
  /-- What is left of the arguments. Only the first one counts. -/
  rest : List String
  deriving DecidableEq, Repr

inductive Task where
  | usage
  | script (path : String)
  | interactive
  deriving DecidableEq, Repr

namespace Invocation

/-- Takes the whitelist option with its file out of the arguments. Without a file the arguments
are wrong. -/
def ofArguments : List String → Option Invocation
  | [] => some { whitelist := none, rest := [] }
  | first :: others =>
    if first == "--whitelist" then
      match others with
      | [] => none
      | path :: rest => some { whitelist := some path, rest }
    else (ofArguments others).map fun invocation =>
      { invocation with rest := first :: invocation.rest }

/-- The file to read a whitelist from; an empty path is none. -/
def whitelistPath? (invocation : Invocation) : Option String :=
  invocation.whitelist.filter (· != "")

def task (invocation : Invocation) : Task :=
  match invocation.rest with
  | [] => .interactive
  | first :: _ => if first.toList.head? = some '-' then .usage else .script first

end Invocation

/-- How a run ends. -/
inductive Ending where
  | finished
  | exit (status : Nat)
  | unreadable (fault : FileFault)
  | failed (fault : Fault)

structure RunResult where
  /-- In the order of printing. -/
  printed : List OutputLine
  ending : Ending

namespace RunResult

def out (result : RunResult) : List String :=
  result.printed.filterMap fun
    | .out text => some text
    | .err _ => none

def err (result : RunResult) : List String :=
  result.printed.filterMap fun
    | .out _ => none
    | .err text => some text

end RunResult

namespace CommandLine

def usage : OutputLine :=
  .err "usage: sandex_repl.py [--whitelist FILE.yaml] [EXPRESSIONS_FILE]"

def missingScript (path : String) : OutputLine :=
  .err s!"Error: file not found: {path}"

/-- The runner for the standard whitelist, merged with that of a configuration if there is one. -/
def runnerOf (config : Option String) : StateM World (Except Fault Runner) := do
  match config with
  | none => return .ok (.ofWhitelist .standard Runner.defaultCapacity)
  | some text =>
    let (result, nextId) := (Whitelist.ofConfigText text).run (← get).nextId
    modify fun world => { world with nextId }
    return result.map fun added =>
      .ofWhitelist (Whitelist.standard.merged added) Runner.defaultCapacity

/-- The result of what a session has printed. -/
def resultOf (state : SessionState) (ending : Ending) : RunResult :=
  { printed := state.printed.reverse, ending }

/-- How a script ends: with status one if a line failed. -/
def scriptEnding : Except Fault Bool → Ending
  | .error fault => .failed fault
  | .ok true => .exit 1
  | .ok false => .finished

def runScript (runner : Runner) (world : World) (path : String) :
    Except FileFault String → RunResult
  | .error .notFound => { printed := [missingScript path], ending := .exit 1 }
  | .error fault => { printed := [], ending := .unreadable fault }
  | .ok text =>
    let (result, state) := (Script.run runner text).run (.initial world)
    resultOf state (scriptEnding result)

def runTyped (runner : Runner) (world : World) (lines : List String) : RunResult :=
  resultOf ((Repl.run runner lines).run (.initial world)).2 .finished

def runTask (runner : Runner) (world : World) (files : Files) (lines : List String) :
    Task → RunResult
  | .usage => { printed := [usage], ending := .exit 2 }
  | .script path => runScript runner world path (files.read path)
  | .interactive => runTyped runner world lines

/-- A whole run: with arguments, in the presence of files, and with lines being typed. -/
def run (arguments : List String) (files : Files) (lines : List String) (world : World) :
    RunResult :=
  match Invocation.ofArguments arguments with
  | none => { printed := [usage], ending := .exit 2 }
  | some invocation =>
    match invocation.whitelistPath?.mapM files.read with
    | .error fault => { printed := [], ending := .unreadable fault }
    | .ok config =>
      match (runnerOf config).run world with
      | (.error fault, _) => { printed := [], ending := .failed fault }
      | (.ok runner, world) => runTask runner world files lines invocation.task

end CommandLine

end GatedExpr
