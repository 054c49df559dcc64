import GatedExpr.Fault
import GatedExpr.Node.Basic
import GatedExpr.Value.Coercion

/-! # Member reads

Maps are read by key, lists, tuples and texts by index or `length`. Of everything else only
public attributes can be read, and whatever is missing reads as null.
-/

namespace GatedExpr.Value

/-- The attributes of a number, or of a truth value as a number. -/
def numberAttribute? (value : Value) (n : Number) (name : String) : Option Value :=
  let real := match value with
    | .number .. => value
    | _ => ofNumber n
  match n, name with
  | _, "real" => some real
  | .int _, "imag" => some (.int 0)
  | .float _, "imag" => some (.float (Float.ofBits 0))
  | .int _, "numerator" => some real
  | .int _, "denominator" => some (.int 1)
  | .int _, "bit_length" => some (.method .unassigned value "bit_length")
  | .float _, "is_integer" => some (.method .unassigned value "is_integer")
  | _, _ => none

/-- An attribute that a value has. -/
def attribute? (value : Value) (name : String) : Option Value :=
  match value with
  | .object _ attributes => attributes.lookup name
  | .node id tree => tree.attribute? id name
  | .span _ range =>
    if name == "start" then some (.int range.start)
    else if name == "end" then some (.int range.stop)
    else none
  | .bool b => numberAttribute? value (.int (if b then 1 else 0)) name
  | .number _ n => numberAttribute? value n name
  | _ => none

/-- A public attribute. Names that begin with an underscore are not public. -/
def publicAttribute (value : Value) (name : String) : Value :=
  if name.toList.head? = some '_' then .null else (value.attribute? name).getD .null

/-- The number that a key is as an index: numbers stand for themselves, and the texts of other
keys count when they are runs of ASCII digits. -/
def indexNumber? : Value → Option Number
  | .number _ n => some n
  | key =>
    let digits := key.toText.toList
    let values := digits.map fun c => (Text.asciiDigitValue? c).filter (· < 10)
    if digits.isEmpty then none
    else (values.mapM id).map fun values => .int (Text.valueOfDigits 10 values)

/-- The offset that a key selects among `length` items. -/
def index? (key : Value) (length : Nat) : Except NumberFault (Option Nat) :=
  match key.indexNumber? with
  | none => .ok none
  | some n => do
    if ← n.isInteger then
      match n.truncate with
      | .ok i => return if 0 ≤ i ∧ i < length then some i.toNat else none
      | .error _ => return none
    else return none

def isLengthKey : Value → Bool
  | .text s => s == "length"
  | _ => false

/-- Reads `target[key]`. -/
def getMember (target key : Value) : Except Fault Value :=
  let readItems (items : List Value) : Except Fault Value :=
    if key.isLengthKey then .ok (.int items.length)
    else
      match key.index? items.length with
      | .ok position => .ok ((position.bind (items[·]?)).getD .null)
      | .error cause => .error (.number cause)
  match target with
  | .null => .error (.nullMember key.toText)
  | .map _ entries => .ok ((entries.lookup key.toText).getD .null)
  | .list _ items | .tuple _ items => readItems items
  | .text s => readItems (s.toList.map fun c => .text (String.singleton c))
  | value => .ok (value.publicAttribute key.toText)

/-- The items that a value holds when it is iterated over: of a text its characters, of a map its
keys. -/
def iterate : Value → Except Fault (List Value)
  | .list _ items | .tuple _ items => .ok items
  | .text s => .ok (s.toList.map fun c => .text (String.singleton c))
  | .map _ entries => .ok (entries.map fun entry => .text entry.1)
  | _ => .error .notIterable

/-- A value that holds two items as these. -/
def asPair (value : Value) : Except Fault (Value × Value) := do
  match ← value.iterate with
  | [first, second] => return (first, second)
  | _ => throw .notAPair

end GatedExpr.Value
