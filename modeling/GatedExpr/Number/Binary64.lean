import GatedExpr.Number.Power

/-! # Binary64 numbers as exact values

A finite double is `± mantissa * 2 ^ exponent`. Reading the bits gives this exact value, and
`nearest?` goes back from a quotient of natural numbers to the closest double, a half going to
the even neighbour. Truncation, comparison, remainder and printing all work on exact values.
-/

namespace GatedExpr

/-- The value of a double. The sign of a zero is kept. -/
inductive Binary64 where
  | nan
  | infinite (negative : Bool)
  | finite (negative : Bool) (mantissa : Nat) (exponent : Int)
  deriving DecidableEq, Repr

namespace Binary64

/-- The exponent of the smallest subnormal double. -/
def minExponent : Int := -1074

/-- The bits of positive infinity, one more than those of the largest finite double. -/
def infinityBits : Nat := 2047 * twoTo 52

def signBit : Nat := twoTo 63

/-- The value that a double stands for. -/
def ofFloat (x : Float) : Binary64 :=
  let bits := x.toBits.toNat
  let negative := signBit ≤ bits
  let field : Nat := bits / twoTo 52 % twoTo 11
  let fraction := bits % twoTo 52
  if field = 2047 then
    if fraction = 0 then .infinite negative else .nan
  else if field = 0 then .finite negative fraction minExponent
  else .finite negative (twoTo 52 + fraction) (field - 1075)

/-- The nearest natural number to `numerator / denominator`, a half going to the even one. -/
def roundQuotient (numerator denominator : Nat) : Nat :=
  let quotient := numerator / denominator
  let remainder := numerator % denominator
  if 2 * remainder > denominator ∨ 2 * remainder = denominator ∧ quotient % 2 = 1 then
    quotient + 1
  else quotient

/-- The exponent at which a positive quotient has a 53 bit mantissa, or the least exponent. -/
def quotientExponent (numerator denominator : Nat) : Int :=
  let guess : Int := numerator.log2 - denominator.log2 - 52
  let scaledDown := numerator * twoTo (-guess).toNat < twoTo 52 * (denominator * twoTo guess.toNat)
  max (if scaledDown then guess - 1 else guess) minExponent

/-- The bits of the double nearest to `numerator / denominator`. A carry out of the mantissa
runs into the exponent field, where it belongs. -/
def quotientBits (numerator denominator : Nat) : Nat :=
  if numerator = 0 then 0
  else
    let exponent := quotientExponent numerator denominator
    let mantissa :=
      roundQuotient (numerator * twoTo (-exponent).toNat) (denominator * twoTo exponent.toNat)
    (exponent - minExponent).toNat * twoTo 52 + mantissa

/-- The double nearest to `± numerator / denominator`, unless that lies beyond the largest
finite double. -/
def nearest? (negative : Bool) (numerator denominator : Nat) : Option Float :=
  let bits := quotientBits numerator denominator
  if bits < infinityBits then
    some (Float.ofBits (UInt64.ofNat (if negative then signBit + bits else bits)))
  else none

/-- The double nearest to an integer, unless that lies beyond the largest finite double. -/
def ofInt? (n : Int) : Option Float :=
  nearest? (n < 0) n.natAbs 1

def infinity : Float := Float.ofBits (UInt64.ofNat infinityBits)

def notANumber : Float := Float.ofBits 0x7ff8000000000000

/-- The double that reads `mantissa * 10 ^ exponent`: infinity when that is too large. -/
def ofDecimal (mantissa : Nat) (exponent : Int) : Float :=
  let magnitude : Int := (mantissa.log2 : Int) / 4 + exponent
  if mantissa = 0 ∨ (mantissa.log2 : Int) / 3 + exponent < -330 then Float.ofBits 0
  else if magnitude > 310 then infinity
  else
    (nearest? false (mantissa * tenTo exponent.toNat) (tenTo (-exponent).toNat)).getD infinity

/-- A signed numerator over a power of two. -/
structure Dyadic where
  numerator : Int
  shift : Nat

/-- The exact value of a finite double. -/
def dyadic (negative : Bool) (mantissa : Nat) (exponent : Int) : Dyadic :=
  let magnitude : Int := (mantissa * twoTo exponent.toNat : Nat)
  { numerator := if negative then -magnitude else magnitude, shift := (-exponent).toNat }

namespace Dyadic

def ofInt (n : Int) : Dyadic :=
  { numerator := n, shift := 0 }

def compare (a b : Dyadic) : Ordering :=
  Ord.compare (a.numerator * twoTo b.shift) (b.numerator * twoTo a.shift)

/-- The greatest integer that is not above the value. -/
def floor (a : Dyadic) : Int :=
  a.numerator.fdiv (twoTo a.shift)

/-- The least integer that is not below the value. -/
def ceil (a : Dyadic) : Int :=
  -((-a.numerator).fdiv (twoTo a.shift))

/-- The integer next to the value on the side of zero. -/
def truncate (a : Dyadic) : Int :=
  a.numerator.tdiv (twoTo a.shift)

def isInteger (a : Dyadic) : Bool :=
  a.numerator % twoTo a.shift == 0

end Dyadic

def isNaN (x : Float) : Bool :=
  match ofFloat x with
  | .nan => true
  | _ => false

def isInfinite (x : Float) : Bool :=
  match ofFloat x with
  | .infinite _ => true
  | _ => false

def isNegative (x : Float) : Bool :=
  match ofFloat x with
  | .nan => false
  | .infinite negative | .finite negative _ _ => negative

/-- Whether a double is finite and without a fractional part. -/
def isInteger (x : Float) : Bool :=
  match ofFloat x with
  | .finite negative mantissa exponent => (dyadic negative mantissa exponent).isInteger
  | _ => false

/-- The remainder of `x / y` with the quotient rounded toward zero. It is exact and has the
sign of `x`. -/
def remainder (x y : Float) : Float :=
  match ofFloat x, ofFloat y with
  | .finite negative m e, .finite _ n f =>
    if n = 0 then notANumber
    else
      let least := min e f
      let rest := (m * twoTo (e - least).toNat) % (n * twoTo (f - least).toNat)
      (nearest? negative (rest * twoTo least.toNat) (twoTo (-least).toNat)).getD notANumber
  | .finite .., .infinite _ => x
  | _, _ => notANumber

end Binary64

end GatedExpr
