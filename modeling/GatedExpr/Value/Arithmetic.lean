import GatedExpr.Value.Coercion
import GatedExpr.Value.Identity

/-! # Arithmetic and comparison of values

Operands are coerced first. Addition joins texts as soon as one operand is a text; comparison
orders two texts by their characters and everything else as numbers.
-/

namespace GatedExpr.Value

def add (left right : Value) : Except NumberFault Value :=
  let left := left.primitive
  let right := right.primitive
  if left.isText || right.isText then .ok (.text (left.toText ++ right.toText))
  else ofNumber <$> left.toNumber.add right.toNumber

def subtract (left right : Value) : Except NumberFault Value :=
  ofNumber <$> left.toNumber.subtract right.toNumber

def multiply (left right : Value) : Except NumberFault Value :=
  ofNumber <$> left.toNumber.multiply right.toNumber

/-- Where the divisor is zero, not-a-number is the one that coercions yield. -/
def divide (left right : Value) : Except NumberFault Value :=
  (if right.toNumber.isZero then ofResult else ofNumber)
    <$> left.toNumber.divide right.toNumber

/-- Where there is no remainder, not-a-number is the one that coercions yield. -/
def remainder (left right : Value) : Except NumberFault Value :=
  (if right.toNumber.isZero || left.toNumber.isInfinite then ofResult else ofNumber)
    <$> left.toNumber.remainder right.toNumber

/-- The order of two values; there is none when a number is needed and one is not-a-number. -/
def compare? (left right : Value) : Option Ordering :=
  match left.primitive, right.primitive with
  | .text s, .text t => some (if s < t then .lt else if t < s then .gt else .eq)
  | left, right => left.toNumber.compare? right.toNumber

def less (left right : Value) : Bool :=
  compare? left right == some .lt

def greater (left right : Value) : Bool :=
  compare? left right == some .gt

def lessOrEqual (left right : Value) : Bool :=
  (compare? left right).any (·.isLE)

def greaterOrEqual (left right : Value) : Bool :=
  (compare? left right).any (·.isGE)

/-- Equality without coercion. Numbers are compared by size across integers and doubles. -/
def strictEquals : Value → Value → Bool
  | .number _ m, .number _ n => m.equals n
  | left, right => left.isSame right

/-- Equality of values that are neither null nor booleans: a number and a text are compared as
numbers. -/
def equalsAcross (left right : Value) : Bool :=
  match left, right with
  | .number _ m, .text _ => m.equals right.toNumber
  | .text _, .number _ n => left.toNumber.equals n
  | _, _ => strictEquals left right

/-- A boolean as a number. -/
def unboxBool : Value → Value
  | .bool b => .int (if b then 1 else 0)
  | value => value

/-- Equality with coercion. Null equals null only, booleans count as numbers, and a list or map
is compared with anything else by its text. -/
def looseEquals (left right : Value) : Bool :=
  match left, right with
  | .null, .null => true
  | .null, _ => false
  | _, .null => false
  | _, _ =>
    let left := left.unboxBool
    let right := right.unboxBool
    match left.isContainer, right.isContainer with
    | true, false => equalsAcross (.text left.toText) right
    | false, true => equalsAcross left (.text right.toText)
    | _, _ => equalsAcross left right

end GatedExpr.Value
