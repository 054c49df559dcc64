import GatedExpr.Number.Numeral
import GatedExpr.Text.Blank
import GatedExpr.Value.Display

/-! # Coercions

How values become numbers, texts and truth values.
-/

namespace GatedExpr.Value

/-- Not-a-number as the result of coercions and functions, which is always the same object. -/
def notANumber : Value := .number 1 Number.nan

/-- The number that a value stands for. A list stands for what its only item stands for. -/
def toNumber : Value → Number
  | .null => .int 0
  | .bool b => .int (if b then 1 else 0)
  | .number _ n => n
  | .text s =>
    let trimmed := Text.trim s.toList
    if trimmed.isEmpty then .int 0 else Number.ofText trimmed
  | .list _ [] => .int 0
  | .list _ [item] => toNumber item
  | _ => Number.nan

/-- A result of a coercion or function as a value. -/
def ofResult (n : Number) : Value :=
  if n.isNaN then notANumber else ofNumber n

/-- The number that a value stands for, as a value. A number stays the object that it is. -/
def asNumber : Value → Value
  | .number id n => .number id n
  | .list _ [item] => asNumber item
  | value => ofResult value.toNumber

mutual

/-- The text of a value. Lists join the texts of their items, a null item counting as empty. -/
def toText : Value → String
  | .null => "null"
  | .bool b => if b then "true" else "false"
  | .number _ n => n.text
  | .text s => s
  | .list _ items => ",".intercalate (itemTexts items)
  | .map .. => "[object Object]"
  | value => value.display

def itemTexts : List Value → List String
  | [] => []
  | .null :: items => "" :: itemTexts items
  | item :: items => toText item :: itemTexts items

end

/-- Lists and maps become texts, other values stay. -/
def primitive (value : Value) : Value :=
  if value.isContainer then .text value.toText else value

/-- Whether a value counts as true. Testing an integer that no double can hold fails. -/
def isTruthy : Value → Except NumberFault Bool
  | .null => .ok false
  | .bool b => .ok b
  | .number _ n =>
    if n.isZero then .ok false
    else do return !Binary64.isNaN (← n.toFloat)
  | .text s => .ok (s != "")
  | _ => .ok true

/-- A signed 32 bit integer: not-a-number and infinities give zero, other numbers are truncated
and wrapped around. -/
def toInt32 (value : Value) : Int :=
  match value.toNumber.truncate with
  | .ok n => n.bmod (twoTo 32)
  | .error _ => 0

end GatedExpr.Value
