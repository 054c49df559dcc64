import GatedExpr.Session.Basic

/-! # Typed lines

A typed line is an expression to evaluate or a command, which begins with a colon: `:ast` prints
the canonical form of an expression, `:let` binds a name, and `:bindings` shows what is bound.
Nothing but `exit` ends a session, and nothing but `:let` changes its bindings.
-/

namespace GatedExpr

inductive Command where
  | tree (source : String)
  | bind (name source : String)
  /-- A binding without a name or without an expression. -/
  | malformedBind
  | bindings
  | unknown (word : String)
  deriving DecidableEq, Repr

namespace Command

/-- A binding is written `NAME = EXPR`. -/
def ofBinding (rest : List Char) : Command :=
  let (name, found, source) := Text.cutAt '=' rest
  let name := Text.trim name
  if !found || name.isEmpty then .malformedBind
  else .bind (String.ofList name) (String.ofList (Text.trim source))

/-- The command on a trimmed line that begins with a colon. -/
def ofLine (line : List Char) : Command :=
  let (word, _, rest) := Text.cutAt ' ' line
  match String.ofList word with
  | ":ast" => .tree (String.ofList rest)
  | ":let" => ofBinding rest
  | ":bindings" => .bindings
  | word => .unknown word

end Command

inductive TypedLine where
  | blank
  | exit
  | command (command : Command)
  | expression (source : String)
  deriving DecidableEq, Repr

/-- What a typed line asks for. -/
def TypedLine.ofText (text : String) : TypedLine :=
  let line := Text.trim text.toList
  if line.isEmpty then .blank
  else if line = "exit".toList then .exit
  else if line.head? = some ':' then .command (.ofLine line)
  else .expression (String.ofList line)

namespace Repl

/-- What is said about a fault that no report was made of. -/
def faultLine (fault : Fault) : OutputLine :=
  .err ("Error: " ++ fault.text)

def runCommand (runner : Runner) : Command → Session Unit
  | .tree source => do
    match (do Value.printAny (← runner.parse source)) with
    | .ok text => Session.print (.out text.displayPlain)
    | .error fault => Session.print (faultLine fault)
  | .malformedBind => Session.print (.err "usage: :let NAME = EXPR")
  | .bind name source => do
    match ← Session.handle runner source with
    | .ok (.success value) => Session.bind name value
    | .ok (.error report) => Session.print (.err report.text)
    | .error fault => Session.print (faultLine fault)
  | .bindings => do
    Session.print (.out (Value.map 0 (← get).bindings).print)
  | .unknown word => Session.print (.err s!"Unknown command {word}")

/-- The line that shows a value. -/
def valueLine (value : Value) : OutputLine :=
  match value.printAny with
  | .ok text => .out text.displayPlain
  | .error fault => faultLine fault

def runExpression (runner : Runner) (source : String) : Session Unit := do
  match ← Session.handle runner source with
  | .ok (.success value) => Session.print (valueLine value)
  | .ok (.error report) => Session.print (.err report.text)
  | .error fault => Session.print (faultLine fault)

/-- Runs a typed line and tells whether the session goes on. -/
def runLine (runner : Runner) (text : String) : Session Bool := do
  match TypedLine.ofText text with
  | .blank => return true
  | .exit => return false
  | .command command =>
    runCommand runner command
    return true
  | .expression source =>
    runExpression runner source
    return true

/-- What is printed before the first prompt. -/
def greeting : List OutputLine :=
  [.out "Sandex REPL v0.1", .out "Type 'exit' or press Ctrl+D to quit."]

/-- What is printed at the end of the input. -/
def farewell : List OutputLine :=
  [.out "", .out "Exiting."]

/-- Runs typed lines up to `exit` or the end of the input. -/
def runLines (runner : Runner) : List String → Session Unit
  | [] => farewell.forM Session.print
  | line :: rest => do
    if ← runLine runner line then runLines runner rest

def run (runner : Runner) (lines : List String) : Session Unit := do
  greeting.forM Session.print
  runLines runner lines

end Repl

end GatedExpr
