import GatedExpr.Evaluation

/-! # Functions of numbers

Arguments are coerced to numbers. Not-a-number among them is the result, and so is whatever lies
outside of the domain or the range of a function. Rounding yields integers, except that an
infinity stays as it is.
-/

namespace GatedExpr.Builtin

/-- Applies a function of numbers unless one of them is not-a-number. A number that does not
exist is not-a-number, too; only division by zero fails. -/
def guarded (f : List Number → Except Fault Number) (arguments : List Value) :
    Except Fault Value :=
  let numbers := arguments.map (·.toNumber)
  if numbers.any (·.isNaN) then .ok .notANumber
  else
    match f numbers with
    | .ok n => .ok (.ofNumber n)
    | .error (.number .zeroDivisor) => .error (.number .zeroDivisor)
    | .error (.number _) => .ok .notANumber
    | .error fault => .error fault

def liftNumeric {α : Type} : Except NumberFault α → Except Fault α
  | .ok a => .ok a
  | .error cause => .error (.number cause)

/-- A function of one number. -/
def ofOne (name : String) (f : Number → Except NumberFault Number) :
    List Number → Except Fault Number
  | [x] => liftNumeric (f x)
  | _ => .error (.argumentCount name)

/-- A function of two numbers. -/
def ofTwo (name : String) (f : Number → Number → Except NumberFault Number) :
    List Number → Except Fault Number
  | [x, y] => liftNumeric (f x y)
  | _ => .error (.argumentCount name)

/-- The integer that `part` selects for a number that a double can hold. -/
def integerPart (part : Binary64.Dyadic → Int) (x : Number) : Except NumberFault Number := do
  match x, Binary64.ofFloat (← x.toFloat) with
  | .int n, _ => return .int n
  | _, .nan => throw .notANumber
  | _, .infinite _ => return x
  | _, .finite negative mantissa exponent =>
    return .int (part (Binary64.dyadic negative mantissa exponent))

def floor : Number → Except NumberFault Number :=
  integerPart Binary64.Dyadic.floor

def ceil : Number → Except NumberFault Number :=
  integerPart Binary64.Dyadic.ceil

def trunc : Number → Except NumberFault Number :=
  integerPart Binary64.Dyadic.truncate

/-- The floor of a number that is a half larger. The sum is a double. -/
def round (x : Number) : Except NumberFault Number := do
  floor (← x.add (.float 0.5))

def abs : Number → Number
  | .int n => .int n.natAbs
  | .float x => .float x.abs

def sqrt (x : Number) : Except NumberFault Number := do
  let y ← x.toFloat
  if y < 0 then throw .notANumber else return .float y.sqrt

def isFinite (x : Float) : Bool :=
  !Binary64.isNaN x && !Binary64.isInfinite x

/-- Finite arguments never give an infinity, and the powers of zero to negative exponents are
undefined. -/
def pow (base exponent : Number) : Except NumberFault Number := do
  let x ← base.toFloat
  let y ← exponent.toFloat
  let power := x.pow y
  if !isFinite x || !isFinite y || isFinite power then return .float power
  else throw (if Binary64.isInfinite power && x != 0 then .tooLarge else .notANumber)

/-- The natural logarithm of an integer that no double holds: that of a mantissa from a half to
one, plus that of a power of two. -/
def logOfLarge (n : Nat) : Float :=
  let exponent := n.log2 + 1
  let mantissa := (Binary64.nearest? false n (twoTo exponent)).getD 1
  if mantissa < 1 then mantissa.log + Float.log 2 * exponent.toFloat
  else Float.log 0.5 + Float.log 2 * (exponent + 1).toFloat

/-- The natural logarithm of a positive number or of not-a-number. -/
def naturalLog : Number → Except NumberFault Float
  | .int n =>
    if n ≤ 0 then .error .notANumber
    else
      match Binary64.ofInt? n with
      | some x => .ok x.log
      | none => .ok (logOfLarge n.natAbs)
  | .float x => if 0 < x || Binary64.isNaN x then .ok x.log else .error .notANumber

/-- The natural logarithm, or the logarithm to a base. -/
def log : List Number → Except Fault Number
  | [x] => liftNumeric do return .float (← naturalLog x)
  | [x, base] => liftNumeric do
    let numerator ← naturalLog x
    let denominator ← naturalLog base
    if (Number.float denominator).isZero then throw .zeroDivisor
    else return .float (numerator / denominator)
  | _ => .error (.argumentCount "log")

/-- The first of the numbers that no other one is `better` than. -/
def best (better : Number → Number → Bool) (ifNone : Number) (arguments : List Value) : Value :=
  match arguments.map (·.asNumber) with
  | [] => .ofNumber ifNone
  | first :: rest =>
    if (first :: rest).any (·.toNumber.isNaN) then .notANumber
    else rest.foldl (fun kept x => if better x.toNumber kept.toNumber then x else kept) first

def max : List Value → Value :=
  best (fun x kept => kept.below x) (Number.infinity true)

def min : List Value → Value :=
  best (fun x kept => x.below kept) (Number.infinity false)

def isNaN (value : Value) : Bool :=
  value.toNumber.isNaN

def isFiniteNumber (value : Value) : Bool :=
  let n := value.toNumber
  !n.isNaN && !n.isInfinite

/-- Whether a value is the number not-a-number itself. -/
def isNumberNaN : Value → Bool
  | .number _ n => n.isNaN
  | _ => false

end GatedExpr.Builtin
