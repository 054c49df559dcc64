import GatedExpr.Builtin.Reference
import GatedExpr.Gate.ConfigText

/-! # Configurations

A whitelist can be given as data: objects that are read from the bindings, held as constants or
taken from the standard library, functions from the standard library, and the names of custom
objects.
-/

namespace GatedExpr

namespace Library

/-- The parts of a text between its dots. -/
def dotted (text : List Char) : List String :=
  (Text.splitOn ['.'] (by simp) text).map String.ofList

/-- Resolves a reference, a text of the form `module:attribute`. -/
def resolve (spec : Value) : Except Fault Imported :=
  match spec with
  | .text reference =>
    let (module, found, path) := Text.cutAt ':' reference.toList
    if !found then .error (.config (.notAReference spec))
    else if module.isEmpty then .error .emptyModuleName
    else if module.head? = some '.' then .error .relativeModuleName
    else
      let target? := if module = moduleName.toList then attributePath? (dotted path) else none
      match target? with
      | some target => .ok target
      | none => .error (.config (.cannotImport reference))
  | spec => .error (.config (.notAReference spec))

end Library

namespace Whitelist

/-- The keys that a configuration may have. -/
def configKeys : List String :=
  ["objects", "callees", "custom_objects", "include_builtins"]

/-- A part of a configuration; one that is missing or unset is null. -/
def part (config : List (String × Value)) (name : String) : Value :=
  match config.lookup name with
  | some v => if v.isSet then v else .null
  | none => .null

/-- The entries of a part, of which there are none if it is not set. -/
def entriesOf : Value → Except Fault (List (String × Value))
  | .null => .ok []
  | .map _ entries => .ok entries
  | _ => .error (.noAttribute "items")

/-- The accessor that a single-entry map describes. -/
def accessorOf (name : String) (spec : Value) : Except Fault Accessor :=
  match spec with
  | .map _ [(source, argument)] =>
    if source == "binding" then
      .ok (.fromBindings (if argument.isSet then argument else .text name))
    else if source == "value" then .ok (.constant argument)
    else if source == "import" then do return .constant (← Library.resolve argument).value
    else .error (.config (.objectSource source name))
  | _ => .error (.config (.objectSpec name))

/-- The function that a reference, or a map with one, describes. -/
def functionOf (signature : String) (spec : Value) : Except Fault (Option Function) :=
  match spec with
  | .map _ entries =>
    match entries.lookup "import" with
    | some reference => do return (← Library.resolve reference).function?
    | none => .error (.config (.calleeSpec signature))
  | reference => do return (← Library.resolve reference).function?

/-- Names of custom objects. -/
def namesOf : Value → Except Fault (List Value)
  | .null => .ok []
  | .list _ names => .ok names
  | _ => .error (.config .customObjects)

/-- The whitelist that a configuration describes. -/
def ofConfig (config : Value) : Except Fault Whitelist := do
  match config with
  | .map _ parts =>
    let unknown := (parts.map (·.1)).filter (!configKeys.contains ·)
    if !unknown.isEmpty then
      throw (.config (.unknownKeys (unknown.mergeSort fun s t => !(t < s : Bool))))
    let objects ← (← entriesOf (part parts "objects")).mapM fun (name, spec) => do
      return (name, some (← accessorOf name spec))
    let callees ← (← entriesOf (part parts "callees")).mapM fun (signature, spec) => do
      return (signature, ← functionOf signature spec)
    let whitelist ← build objects callees (← namesOf (part parts "custom_objects"))
    match part parts "include_builtins" with
    | .null => return whitelist
    | _ => return standard.merged whitelist
  | _ => throw (.config .notAMapping)

/-- The whitelist that the text of a configuration file describes. Whatever is unset allows
nothing. -/
def ofConfigText (text : String) : StateM Identity (Except Fault Whitelist) := do
  match ConfigText.read text.toList with
  | .error problem => return .error (.configText problem)
  | .ok config =>
    if config.isSet then return ofConfig (← config.adopt) else return .ok Whitelist.empty

end Whitelist

end GatedExpr
