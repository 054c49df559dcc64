import GatedExpr.Node.Access
import GatedExpr.Value.Identity

/-! # Evaluation

An evaluation reads bindings and options and yields a value or a failure. On the way it hands out
identities to the values that it makes, and it keeps a trace of the functions that it applied.
Neither is undone by a failure.
-/

namespace GatedExpr

/-- The application of a function to its arguments. -/
structure Call where
  function : String
  arguments : List Value

/-- What evaluation changes. -/
structure World where
  nextId : Identity
  /-- The latest call comes first. -/
  calls : List Call
  /-- The state of the random numbers. -/
  seed : Nat

namespace World

/-- Identities below this one belong to the values that are built in. -/
def firstFreeId : Identity := 1000

def initial (seed : Nat) : World :=
  { nextId := firstFreeId, calls := [], seed }

/-- The calls in the order in which they were made. -/
def trace (world : World) : List Call :=
  world.calls.reverse

end World

/-- A computation with a value that may fail. -/
abbrev Eval := ExceptT Failure (StateM World)

namespace Eval

def fail {α : Type} (fault : Fault) : Eval α :=
  throw (.bare fault)

def ofExcept {α : Type} : Except Fault α → Eval α
  | .ok a => pure a
  | .error fault => fail fault

def ofNumeric {α : Type} : Except NumberFault α → Eval α
  | .ok a => pure a
  | .error cause => fail (.number cause)

/-- Gives a new value its identity. -/
def settle (value : Value) : Eval Value :=
  modifyGet fun world =>
    let (value, nextId) := value.adopt.run world.nextId
    (value, { world with nextId })

def newList (items : List Value) : Eval Value :=
  settle (.ofList items)

def newMap (entries : List (String × Value)) : Eval Value :=
  settle (.ofEntries entries)

/-- Attaches a node to a failure that has none. -/
def located {α : Type} (node : Node) (act : Eval α) : Eval α :=
  tryCatch act fun failure => throw (failure.locate node)

/-- Adds a call to the trace. -/
def note (call : Call) : Eval Unit :=
  modify fun world => { world with calls := call :: world.calls }

/-- The next random number, at least zero and below one. -/
def random : Eval Float :=
  modifyGet fun world =>
    let seed := (world.seed * 0x5deece66d + 11) % twoTo 48
    (Binary64.ofDecimal seed 0 / Binary64.ofDecimal (twoTo 48) 0, { world with seed })

end Eval

/-- What an evaluation reads. -/
structure Env where
  bindings : List (String × Value)
  options : List Value

/-- A compiled expression. -/
abbrev Closure := Env → Eval Value

/-- Reads the object that a name stands for. -/
abbrev Accessor := Env → Eval Value

namespace Accessor

/-- Always the same value. -/
def constant (value : Value) : Accessor :=
  fun _ => pure value

/-- Looks a key up among the bindings. Only texts can be found there. -/
def fromBindings (key : Value) : Accessor :=
  fun env =>
    match key with
    | .text name =>
      match env.bindings.lookup name with
      | some value => pure value
      | none => Eval.fail (.unbound key)
    | key => Eval.fail (if key.isKey then .unbound key else .unhashable)

end Accessor

/-- A function that expressions may call. -/
structure Function where
  name : String
  apply : List Value → Eval Value

/-- Applies a function and leaves a trace of it. -/
def Function.call (function : Function) (arguments : List Value) : Eval Value := do
  Eval.note { function := function.name, arguments }
  function.apply arguments

end GatedExpr
