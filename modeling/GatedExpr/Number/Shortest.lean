import GatedExpr.Number.Binary64
import GatedExpr.Text.Digit

/-! # The shortest decimal that reads back

A double is printed with the fewest significant digits that still read back as itself, and
among those with the digits closest to its value. The reals that read back form an interval
around the value, so it suffices to look at the two neighbours of the value on each decimal
grid, from one digit on.
-/

namespace GatedExpr.Shortest

/-- The value `scaled`, its neighbours' midpoints and the grid, all as multiples of one unit:
`low` and `high` bound what reads back, ends included when `closed`. -/
structure Interval where
  low : Nat
  scaled : Nat
  high : Nat
  closed : Bool

/-- The interval of a positive double in units of `1 / unit`. -/
structure Scaled where
  interval : Interval
  unit : Nat

/-- Scales by four so that the midpoints are integers. The gap below a power of two is half
the gap above it. -/
def scale (mantissa : Nat) (exponent : Int) : Scaled :=
  let below := if mantissa = twoTo 52 ∧ Binary64.minExponent < exponent then 1 else 2
  let factor := twoTo exponent.toNat
  { interval :=
      { low := (4 * mantissa - below) * factor
        scaled := 4 * mantissa * factor
        high := (4 * mantissa + 2) * factor
        closed := mantissa % 2 = 0 }
    unit := 4 * twoTo (-exponent).toNat }

/-- Whether the grid point `point / den` (in units) reads back. -/
def Interval.contains (interval : Interval) (point den : Nat) : Bool :=
  if interval.closed then interval.low * den ≤ point && point ≤ interval.high * den
  else interval.low * den < point && point < interval.high * den

/-- The point of the grid of multiples of `10 ^ place` that reads back, if there is one: of the
two next to the value the nearer, and of two equally near the even one. -/
def onGrid? (value : Scaled) (place : Int) : Option Nat :=
  let num := value.unit * tenTo place.toNat
  let den := tenTo (-place).toNat
  let target := value.interval.scaled * den
  let lower := target / num
  let upper := lower + 1
  match value.interval.contains (lower * num) den, value.interval.contains (upper * num) den with
  | true, true =>
    let gap := 2 * (target % num)
    if gap < num ∨ gap = num ∧ lower % 2 = 0 then some lower else some upper
  | true, false => some lower
  | false, true => some upper
  | false, false => none

/-- The least `p` with the value below `10 ^ p`, looked for from `guess` on. -/
def magnitudeFrom (value : Scaled) : Nat → Int → Int
  | 0, guess => guess
  | tries + 1, guess =>
    if value.interval.scaled * tenTo (-guess).toNat < value.unit * tenTo guess.toNat then guess
    else magnitudeFrom value tries (guess + 1)

/-- A start for the search, at most two below the answer. -/
def magnitudeGuess (value : Scaled) : Int :=
  ((value.interval.scaled.log2 : Int) - value.unit.log2) * 1233 / 4096 - 1

/-- The value is below `10 ^ magnitude` and not below a tenth of that. -/
def magnitude (value : Scaled) : Int :=
  magnitudeFrom value 4 (magnitudeGuess value)

/-- Significant digits and the place of the decimal point: `0.digits * 10 ^ point`. -/
structure Digits where
  digits : List Char
  point : Int

def stripZeros (digits : List Char) : List Char :=
  (digits.reverse.dropWhile (· == '0')).reverse

/-- Tries grids of more and more digits. -/
def search (value : Scaled) (top : Int) : Nat → Nat → Digits
  | 0, _ => { digits := ['0'], point := 1 }
  | tries + 1, count =>
    match onGrid? value (top - count) with
    | some point =>
      let digits := Text.decimal point
      { digits := stripZeros digits, point := top - count + digits.length }
    | none => search value top tries (count + 1)

/-- The shortest digits of `mantissa * 2 ^ exponent`. Seventeen always suffice. -/
def digitsOf (mantissa : Nat) (exponent : Int) : Digits :=
  if mantissa = 0 then { digits := ['0'], point := 1 }
  else
    let value := scale mantissa exponent
    search value (magnitude value) 17 1

/-- How digits are laid out as a numeral. -/
structure Layout where
  /-- Decimal exponents below this one use scientific notation. -/
  leastPositional : Int
  /-- Decimal exponents from this one on use scientific notation. -/
  leastScientific : Int
  /-- What follows a positional numeral without fractional digits. -/
  wholeEnding : String
  /-- The least number of digits in a scientific exponent. -/
  exponentWidth : Nat
  notANumber : String
  infinity : String

def Layout.scientific (layout : Layout) (digits : List Char) (exponent : Int) : List Char :=
  let tail := digits.drop 1
  let written := Text.decimal exponent.natAbs
  digits.take 1 ++ (if tail.isEmpty then [] else '.' :: tail)
    ++ ['e', if exponent < 0 then '-' else '+']
    ++ List.replicate (layout.exponentWidth - written.length) '0' ++ written

def Layout.positional (layout : Layout) (digits : List Char) (point : Int) : List Char :=
  if point ≤ 0 then '0' :: '.' :: List.replicate (-point).toNat '0' ++ digits
  else if digits.length ≤ point then
    digits ++ List.replicate (point.toNat - digits.length) '0' ++ layout.wholeEnding.toList
  else digits.take point.toNat ++ '.' :: digits.drop point.toNat

def Layout.write (layout : Layout) (x : Float) : String :=
  match Binary64.ofFloat x with
  | .nan => layout.notANumber
  | .infinite negative => (if negative then "-" else "") ++ layout.infinity
  | .finite negative mantissa exponent =>
    let shortest := digitsOf mantissa exponent
    let leading := shortest.point - 1
    let numeral :=
      if leading < layout.leastPositional ∨ layout.leastScientific ≤ leading then
        layout.scientific shortest.digits leading
      else layout.positional shortest.digits shortest.point
    String.ofList (if negative then '-' :: numeral else numeral)

end GatedExpr.Shortest
