import GatedExpr.Evaluation
import GatedExpr.Table
import GatedExpr.Value.Equality

/-! # The capability gate

A whitelist says which names may root a member chain and which functions may be called. Both are
looked up while an expression is compiled, so that nothing outside of the whitelist is in reach
once it runs. Every rejection leaves a warning.
-/

namespace GatedExpr

/-- What a whitelist allows. -/
structure Whitelist where
  objects : List (String × Accessor)
  /-- Functions by call signature: `name`, `Object.method` or `*.method`. -/
  callees : List (String × Function)
  /-- Objects whose methods have signatures of their own. -/
  custom : List Value

/-- A rejection by the gate. -/
inductive Warning where
  | objectRoot (name : Value)
  | call (signature : Value)
  | callShape (shape : String)

def Warning.text : Warning → String
  | .objectRoot name => s!"Rejected object root {name.display}"
  | .call signature => s!"Rejected call {signature.display}"
  | .callShape shape => s!"Rejected call shape {shape}"

/-- A computation that passes the gate or fails. Warnings are kept in their order. -/
abbrev Gate := ExceptT Failure (StateM (List Warning))

namespace Gate

def fail {α : Type} (fault : Fault) : Gate α :=
  throw (.bare fault)

def failAt {α : Type} (node : Option Node) (fault : Fault) : Gate α :=
  throw { fault, node }

def ofExcept {α : Type} : Except Fault α → Gate α
  | .ok a => pure a
  | .error fault => fail fault

def warn (warning : Warning) : Gate Unit :=
  modify (· ++ [warning])

/-- An entry of a table. Only texts can name one, and only keys can be looked up. -/
def find? {α : Type} (table : List (String × α)) (name : Value) : Except Fault (Option α) :=
  match name with
  | .text name => .ok (table.lookup name)
  | name => if name.isKey then .ok none else .error .unhashable

end Gate

namespace Whitelist

/-- A whitelist that allows nothing. -/
def empty : Whitelist :=
  { objects := [], callees := [], custom := [] }

/-- The values without those that equal an earlier one. -/
def distinct (values : List Value) : List Value :=
  values.foldl (fun kept v => if v.isAmong kept then kept else kept ++ [v]) []

/-- A whitelist from its parts. An object or function that is `none` is something that cannot be
called. -/
def build (objects : List (String × Option Accessor)) (callees : List (String × Option Function))
    (custom : List Value) : Except Fault Whitelist := do
  let objects ← objects.mapM fun (name, accessor) =>
    match accessor with
    | some accessor => .ok (name, accessor)
    | none => .error (.config (.objectNotCallable name))
  let callees ← callees.mapM fun (signature, function) =>
    match function with
    | some function => .ok (signature, function)
    | none => .error (.config (.calleeNotCallable signature))
  if custom.all Value.isKey then return { objects, callees, custom := distinct custom }
  else throw .unhashable

/-- Both whitelists in one. The second one wins where both have a name. -/
def merged (left right : Whitelist) : Whitelist :=
  { objects := Table.merge left.objects right.objects
    callees := Table.merge left.callees right.callees
    custom := distinct (left.custom ++ right.custom) }

/-- Whether the methods of the object of that name have signatures of their own. -/
def isCustom (whitelist : Whitelist) (name : Value) : Except Fault Bool :=
  if name.isKey then .ok (name.isAmong whitelist.custom) else .error .unhashable

/-- The object of that name as the root of a member chain. -/
def objectRoot (whitelist : Whitelist) (name : Value) (node : Option Node) : Gate Accessor := do
  match ← Gate.ofExcept (Gate.find? whitelist.objects name) with
  | some accessor => return accessor
  | none =>
    Gate.warn (.objectRoot name)
    Gate.failAt node (.unauthorizedIdentifier name)

/-- The function with that signature. -/
def callee (whitelist : Whitelist) (signature : Value) (call : Node) : Gate Function := do
  match ← Gate.ofExcept (Gate.find? whitelist.callees signature) with
  | some function => return function
  | none =>
    Gate.warn (.call signature)
    Gate.failAt (some call) (.unauthorizedCall signature)

/-- Whether the first of two values of one type comes before the second. -/
def isBefore : Value → Value → Bool
  | .text s, .text t => s < t
  | v, w => v.number?.any fun m => w.number?.any fun n => m.below n

/-- The custom objects in order. There is none between texts and numbers. -/
def sortedCustom (whitelist : Whitelist) : Except Fault (List Value) :=
  let names := whitelist.custom
  if names.length < 2 || names.all (·.isText) || names.all (·.number?.isSome) then
    .ok (names.mergeSort fun v w => !isBefore w v)
  else .error .unordered

/-- A whitelist in diagnostics. -/
def display (whitelist : Whitelist) : Except Fault String := do
  let names ← whitelist.sortedCustom
  return s!"<Whitelist objects={whitelist.objects.length} callees={whitelist.callees.length} "
    ++ "custom_objects=[" ++ ", ".intercalate (names.map (·.display)) ++ "]>"

end Whitelist

end GatedExpr
