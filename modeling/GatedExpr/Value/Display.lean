import GatedExpr.Text.Quoted
import GatedExpr.Value.Basic

/-! # Values in diagnostics

Texts are quoted and the types of numbers are kept apart. A node is shown by its kind and
whatever it holds.
-/

namespace GatedExpr

/-- `true` and `false` in diagnostics. -/
def displayBool (b : Bool) : String :=
  if b then "True" else "False"

def displayKind : Option String → String
  | none => "None"
  | some kind => quote kind

mutual

/-- A value in diagnostics. -/
def Value.display : Value → String
  | .null => "None"
  | .bool b => displayBool b
  | .number _ n => n.display
  | .text s => quote s
  | .list _ items => "[" ++ ", ".intercalate (Value.displayEach items) ++ "]"
  | .tuple _ [item] => "(" ++ Value.display item ++ ",)"
  | .tuple _ items => "(" ++ ", ".intercalate (Value.displayEach items) ++ ")"
  | .map _ entries => "\x7b" ++ ", ".intercalate (Value.displayEntries entries) ++ "\x7d"
  | .object .. => "<host object>"
  | .function _ name => "<function " ++ name ++ ">"
  | .method _ _ name => "<function " ++ name ++ ">"
  | .node _ tree => Node.display tree
  | .span _ range => s!"Range(start={range.start}, end={range.stop})"
  | .absent => "ABSENT"

def Value.displayEach : List Value → List String
  | [] => []
  | item :: items => Value.display item :: Value.displayEach items

def Value.displayEntries : List (String × Value) → List String
  | [] => []
  | (key, value) :: entries =>
    (quote key ++ ": " ++ Value.display value) :: Value.displayEntries entries

def Node.display : Node → String
  | ⟨kind, _, raw, children, fields⟩ =>
    let rawPart := match raw with
      | none => []
      | some text => ["raw=" ++ quote text]
    "Node(" ++ ", ".intercalate
        (displayKind kind :: rawPart ++ Value.displayFields fields
          ++ Value.displayChildren children)
      ++ ")"

def Value.displayChildren : Option (List Value) → List String
  | none => []
  | some items => ["children=[" ++ ", ".intercalate (Value.displayEach items) ++ "]"]

def Value.displayFields : List (String × Value) → List String
  | [] => []
  | (name, value) :: fields =>
    (name ++ "=" ++ Value.display value) :: Value.displayFields fields

end

/-- A value in diagnostics, with a text shown as it is. -/
def Value.displayPlain : Value → String
  | .text s => s
  | value => value.display

end GatedExpr
