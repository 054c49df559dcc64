import GatedExpr.Number.Basic

/-! # Values

The values of the expression language, among them the nodes of syntax trees. Everything but
texts and truth values carries an identity: two lists are one and the same exactly when their
identities agree, whatever they hold. A value that has just been made has no identity yet.
-/

namespace GatedExpr

/-- What tells two objects with the same content apart. -/
abbrev Identity := Nat

/-- The identity of what has not been given one yet. -/
def Identity.unassigned : Identity := 0

/-- The offsets between which a node was matched. -/
structure Span where
  start : Int
  stop : Int
  deriving DecidableEq, Repr

mutual

inductive Value where
  | null
  | bool (b : Bool)
  | number (id : Identity) (n : Number)
  | text (s : String)
  | list (id : Identity) (items : List Value)
  /-- A sequence of the host's that is not a list. -/
  | tuple (id : Identity) (items : List Value)
  /-- Entries keep the order in which their keys were first set. -/
  | map (id : Identity) (entries : List (String × Value))
  /-- An opaque object of the host's with readable attributes. -/
  | object (id : Identity) (attributes : List (String × Value))
  /-- A function as a value can only be printed. -/
  | function (id : Identity) (name : String)
  /-- A function that was read off a number or truth value. -/
  | method (id : Identity) (receiver : Value) (name : String)
  | node (id : Identity) (tree : Node)
  | span (id : Identity) (range : Span)
  /-- What an optional part yields that was not there. -/
  | absent

/-- A syntax node: what a grammar rule makes of the text it matched. The kind says how to read
the fields; a leaf keeps the matched text, and a node without fields of its own keeps the results
of its parts as children. -/
structure Node where
  kind : Option String
  span : Option Span
  raw : Option String
  children : Option (List Value)
  fields : List (String × Value)

end

instance : Inhabited Value :=
  ⟨.null⟩

instance : Inhabited Node :=
  ⟨{ kind := none, span := none, raw := none, children := none, fields := [] }⟩

namespace Value

/-! ## New values -/

def ofNumber (n : Number) : Value := .number .unassigned n

def int (n : Int) : Value := ofNumber (.int n)

def float (x : Float) : Value := ofNumber (.float x)

def ofList (items : List Value) : Value := .list .unassigned items

def ofEntries (entries : List (String × Value)) : Value := .map .unassigned entries

def ofTree (tree : Node) : Value := .node .unassigned tree

/-- A text that may be missing. -/
def ofText? : Option String → Value
  | some s => .text s
  | none => .null

/-! ## Shapes -/

def isNull : Value → Bool
  | .null => true
  | _ => false

def isAbsent : Value → Bool
  | .absent => true
  | _ => false

def isText : Value → Bool
  | .text _ => true
  | _ => false

/-- Whether a value is a list or a map. -/
def isContainer : Value → Bool
  | .list .. | .map .. => true
  | _ => false

def isInteger : Value → Bool
  | .number _ (.int _) => true
  | _ => false

def node? : Value → Option Node
  | .node _ tree => some tree
  | _ => none

/-- A boolean or a number as a number. -/
def number? : Value → Option Number
  | .bool b => some (.int (if b then 1 else 0))
  | .number _ n => some n
  | _ => none

/-- The name of the type of a value, as diagnostics give it. -/
def typeName : Value → String
  | .null => "NoneType"
  | .bool _ => "bool"
  | .number _ (.int _) => "int"
  | .number _ (.float _) => "float"
  | .text _ => "str"
  | .list .. => "list"
  | .tuple .. => "tuple"
  | .map .. => "dict"
  | .object .. => "HostObject"
  | .function .. => "function"
  | .method .. => "builtin_function_or_method"
  | .node .. => "Node"
  | .span .. => "Range"
  | .absent => "_Absent"

/-- Whether two values are of one type; integers and doubles are of different types. -/
def isSameType (v w : Value) : Bool :=
  v.typeName == w.typeName

/-- Whether a value counts as set: null, zero, false and whatever is empty does not. -/
def isSet : Value → Bool
  | .null | .absent => false
  | .bool b => b
  | .number _ n => !n.isZero
  | .text s => s != ""
  | .list _ items | .tuple _ items => !items.isEmpty
  | .map _ entries => !entries.isEmpty
  | .span _ range => range.start != range.stop
  | .object .. | .function .. | .method .. | .node .. => true

mutual

/-- Whether a value can be a key. -/
def isKey : Value → Bool
  | .list .. | .map .. => false
  | .tuple _ items => areKeys items
  | _ => true

def areKeys : List Value → Bool
  | [] => true
  | v :: rest => isKey v && areKeys rest

end

end Value

end GatedExpr
