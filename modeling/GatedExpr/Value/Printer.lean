import GatedExpr.Value.Display

/-! # Printed values

Values are printed as literals of the language. Tuples are printed like lists, and what has no
literal is shown as diagnostics show it.
-/

namespace GatedExpr.Value

/-- A text as a string literal. -/
def printText (s : String) : String :=
  String.ofList (Text.literal s.toList)

mutual

def print : Value → String
  | .null => "null"
  | .bool b => if b then "true" else "false"
  | .number _ n => n.text
  | .text s => printText s
  | .list _ items => "[" ++ ", ".intercalate (printEach items) ++ "]"
  | .tuple _ items => "[" ++ ", ".intercalate (printEach items) ++ "]"
  | .map _ entries => "\x7b" ++ ", ".intercalate (printEntries entries) ++ "\x7d"
  | value => value.display

def printEach : List Value → List String
  | [] => []
  | item :: items => print item :: printEach items

def printEntries : List (String × Value) → List String
  | [] => []
  | (key, value) :: entries => (printText key ++ ": " ++ print value) :: printEntries entries

end

end GatedExpr.Value
