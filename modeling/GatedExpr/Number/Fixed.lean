import GatedExpr.Number.Binary64
import GatedExpr.Text.Digit

/-! # Numerals with a fixed number of places

The exact value of a double is rounded to the wanted place, a half going to the even neighbour.
-/

namespace GatedExpr.Fixed

/-- The nearest multiple of `10 ^ -places`, as a natural number of such units. -/
def units (mantissa : Nat) (exponent : Int) (places : Nat) : Nat :=
  Binary64.roundQuotient (mantissa * twoTo exponent.toNat * tenTo places) (twoTo (-exponent).toNat)

/-- The numeral of `count * 10 ^ -places`. -/
def numeral (count places : Nat) : List Char :=
  let digits := Text.decimal count
  let padded := List.replicate (places + 1 - digits.length) '0' ++ digits
  let whole := padded.take (padded.length - places)
  if places = 0 then whole else whole ++ '.' :: padded.drop (padded.length - places)

/-- A finite double with `places` digits after the point. The sign of zero is kept. -/
def write (negative : Bool) (mantissa : Nat) (exponent : Int) (places : Nat) : String :=
  let text := numeral (units mantissa exponent places) places
  String.ofList (if negative then '-' :: text else text)

end GatedExpr.Fixed
