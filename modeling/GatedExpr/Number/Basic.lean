import GatedExpr.Number.Shortest

/-! # Numbers

Integers are unbounded and kept apart from doubles, which they become when the two meet. An
integer beyond the range of the doubles cannot become one, and that is the only way in which
arithmetic fails.
-/

namespace GatedExpr

inductive Number where
  | int (n : Int)
  | float (x : Float)
  deriving DecidableEq

/-- Why an operation on numbers has no result. -/
inductive NumberFault where
  /-- An integer, or a quotient of integers, lies beyond the doubles. -/
  | tooLarge
  /-- Not-a-number was to become an integer. -/
  | notANumber
  /-- An infinity was to become an integer. -/
  | infinite
  | zeroDivisor
  deriving DecidableEq, Repr

namespace Number

/-- The number not-a-number. -/
def nan : Number := .float Binary64.notANumber

def infinity (negative : Bool) : Number :=
  .float (if negative then -Binary64.infinity else Binary64.infinity)

def toFloat : Number → Except NumberFault Float
  | .float x => .ok x
  | .int n =>
    match Binary64.ofInt? n with
    | some x => .ok x
    | none => .error .tooLarge

def isInt : Number → Bool
  | .int _ => true
  | .float _ => false

def isNaN : Number → Bool
  | .float x => Binary64.isNaN x
  | .int _ => false

def isInfinite : Number → Bool
  | .float x => Binary64.isInfinite x
  | .int _ => false

/-- The integer next to a number on the side of zero. -/
def truncate : Number → Except NumberFault Int
  | .int n => .ok n
  | .float x =>
    match Binary64.ofFloat x with
    | .nan => .error .notANumber
    | .infinite _ => .error .infinite
    | .finite negative mantissa exponent =>
      .ok (Binary64.dyadic negative mantissa exponent).truncate

/-- A number as a point of the extended line. -/
inductive Extended where
  | bottom
  | point (value : Binary64.Dyadic)
  | top

/-- The exact place of a number; not-a-number has none. -/
def extended? : Number → Option Extended
  | .int n => some (.point (.ofInt n))
  | .float x =>
    match Binary64.ofFloat x with
    | .nan => none
    | .infinite negative => some (if negative then .bottom else .top)
    | .finite negative mantissa exponent =>
      some (.point (Binary64.dyadic negative mantissa exponent))

def Extended.compare : Extended → Extended → Ordering
  | .bottom, .bottom => .eq
  | .bottom, _ => .lt
  | .top, .top => .eq
  | .top, _ => .gt
  | .point _, .bottom => .gt
  | .point _, .top => .lt
  | .point a, .point b => a.compare b

/-- The exact order of numbers, across integers and doubles. Not-a-number is not ordered. -/
def compare? (a b : Number) : Option Ordering :=
  match a.extended?, b.extended? with
  | some x, some y => some (x.compare y)
  | _, _ => none

def equals (a b : Number) : Bool :=
  compare? a b == some .eq

def below (a b : Number) : Bool :=
  compare? a b == some .lt

def isZero (a : Number) : Bool :=
  a.equals (.int 0)

/-- Whether the sign is negative; the zero of the doubles has one. -/
def isNegative : Number → Bool
  | .int n => n < 0
  | .float x => Binary64.isNegative x

def arithmetic (onInts : Int → Int → Int) (onFloats : Float → Float → Float) :
    Number → Number → Except NumberFault Number
  | .int m, .int n => .ok (.int (onInts m n))
  | a, b => do return .float (onFloats (← a.toFloat) (← b.toFloat))

def add : Number → Number → Except NumberFault Number :=
  arithmetic (· + ·) (· + ·)

def subtract : Number → Number → Except NumberFault Number :=
  arithmetic (· - ·) (· - ·)

def multiply : Number → Number → Except NumberFault Number :=
  arithmetic (· * ·) (· * ·)

def negate : Number → Number
  | .int n => .int (-n)
  | .float x => .float (-x)

/-- A quotient of integers is rounded once from its exact value. Division by zero gives an
infinity of the right sign, or not-a-number when there is none. -/
def divide (a b : Number) : Except NumberFault Number := do
  if b.isZero then
    if a.isZero then return nan
    let x ← a.toFloat
    if Binary64.isNaN x then return nan
    return infinity (a.isNegative != b.isNegative)
  match a, b with
  | .int m, .int n =>
    match Binary64.nearest? (decide (m < 0) != decide (n < 0)) m.natAbs n.natAbs with
    | some x => return .float x
    | none => throw .tooLarge
  | _, _ => return .float ((← a.toFloat) / (← b.toFloat))

/-- The remainder of division rounded toward zero, which has the sign of the dividend. -/
def remainder (a b : Number) : Except NumberFault Number := do
  if b.isZero || a.isInfinite then return nan
  match a, b with
  | .int m, .int n => return .int (m.tmod n)
  | _, _ => return .float (Binary64.remainder (← a.toFloat) (← b.toFloat))

/-- Whether a number, as a double, has no fractional part. -/
def isInteger (a : Number) : Except NumberFault Bool :=
  return Binary64.isInteger (← a.toFloat)

/-- Doubles are written positionally from `0.0001` to below `10 ^ 16`, and otherwise with a
signed exponent of at least two digits. -/
def floatLayout : Shortest.Layout :=
  { leastPositional := -4, leastScientific := 16, wholeEnding := ".0", exponentWidth := 2,
    notANumber := "nan", infinity := "inf" }

def signed (n : Int) : String :=
  String.ofList (if n < 0 then '-' :: Text.decimal n.natAbs else Text.decimal n.natAbs)

/-- A number in diagnostics: doubles stay recognisable as such. -/
def display : Number → String
  | .int n => signed n
  | .float x => floatLayout.write x

/-- A number as the language prints it. -/
def text : Number → String
  | .int n => signed n
  | .float x =>
    match Binary64.ofFloat x with
    | .nan => "NaN"
    | .infinite negative => if negative then "-Infinity" else "Infinity"
    | .finite negative mantissa exponent =>
      let value := Binary64.dyadic negative mantissa exponent
      if value.isInteger && value.numerator.natAbs < tenTo 21 * twoTo value.shift then
        signed value.floor
      else floatLayout.write x

end Number

end GatedExpr
