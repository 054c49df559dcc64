import GatedExpr.Builtin.Math
import GatedExpr.Number.Fixed
import GatedExpr.Text.Case

/-! # Numbers as texts

Reading the longest numeral at the start of a text, and writing numbers in other bases or with a
fixed number of places.
-/

namespace GatedExpr.Builtin

/-- An argument as an integer. -/
def integer (value : Value) : Except Fault Int :=
  liftNumeric value.toNumber.truncate

/-! ## Reading -/

/-- The value of a character as a digit of a base. Letters count in either case, and so does a
letter of another script whose lower case is an ASCII letter. -/
def digitValue? (base : Nat) (c : Char) : Option Nat :=
  match Text.lowerChar c with
  | [d] => (Text.asciiDigitValue? d).filter (· < base)
  | _ => none

/-- The number that a run of digits writes. Digits outside of ASCII are recognised as such, but
cannot be read. -/
def readDigits (base : Nat) (digits : List Char) : Except Fault Number :=
  if digits.all (·.toNat < 128) then
    .ok (.int (Text.valueOfDigits base (digits.filterMap (digitValue? base))))
  else .error .notANumeral

/-- Reads the digits of a base at the start of an unsigned text. A base of zero means ten, and
without a base a hexadecimal mark sets it. -/
def parseDigits (text : List Char) (radix : Option Int) : Except Fault Number := do
  let marked := (radix.isNone || radix == some 16) && Numeral.hasHexMark text
  let base := if marked then 16 else radix.getD 10
  let base := if base = 0 then 10 else base
  if base < 2 || 36 < base then return Number.nan
  let digits := (if marked then text.drop 2 else text).takeWhile fun c =>
    (digitValue? base.toNat c).isSome
  if digits.isEmpty then return Number.nan else readDigits base.toNat digits

/-- The integer at the start of a text, after blanks and a sign. -/
def parseIntText (text : List Char) (radix : Option Int) : Except Fault Number := do
  let (negative, unsigned) := Numeral.takeSign (Text.trim text)
  let size ← parseDigits unsigned radix
  return if negative && !size.isNaN then size.negate else size

/-- The integer at the start of the text of a value. -/
def parseInt (value radix : Value) : Except Fault Number := do
  match radix with
  | .null => parseIntText value.toText.toList none
  | radix => parseIntText value.toText.toList (some (← integer radix))

/-- The double at the start of the text of a value. -/
def parseFloat (value : Value) : Number :=
  let (negative, unsigned) := Numeral.takeSign (Text.trimLeft value.toText.toList)
  if "Infinity".toList.isPrefixOf unsigned then Number.infinity negative
  else
    match Numeral.read? Text.decimalValue? unsigned with
    | some (numeral, _) => .float (numeral.toSignedFloat negative)
    | none => Number.nan

/-! ## Writing -/

/-- The largest number of places that can be written down in a request. -/
def mostRequested : Int := 9223372036854775807

/-- The largest number of places that a double can be written with. -/
def mostPlaces : Int := 2147483647

/-- A finite double with a fixed number of places. -/
def writeFixed (x : Float) (places : Nat) : String :=
  match Binary64.ofFloat x with
  | .finite negative mantissa exponent => Fixed.write negative mantissa exponent places
  | _ => (Number.float x).text

/-- A number with a fixed number of places. -/
def toFixed (value places : Value) : Except Fault String := do
  let number := value.toNumber
  if number.isNaN || number.isInfinite then return number.text
  let count ← integer places
  if count < 0 || mostRequested < count then throw .placesOutOfRange
  let x ← liftNumeric number.toFloat
  if mostPlaces < count then throw .placesOutOfRange else return writeFixed x count.toNat

/-- The digit that stands for a remainder. Negative ones count from the end of the digits. -/
def radixDigit (remainder : Int) : Except Fault Char :=
  if 0 ≤ remainder ∧ remainder < 36 then .ok (Text.digitChar remainder.toNat)
  else if -36 ≤ remainder ∧ remainder < 0 then .ok (Text.digitChar (remainder + 36).toNat)
  else .error .digitOutOfRange

/-- Adds the digits of `n` before those written already. Quotients are rounded down. -/
def radixDigits (base : Int) : Nat → Int → List Char → Except Fault (List Char)
  | 0, _, written => .ok written
  | rounds + 1, n, written =>
    if n = 0 then .ok written
    else do
      let digit ← radixDigit (n.fmod base)
      radixDigits base rounds (n.fdiv base) (digit :: written)

/-- Every round at least halves the number, except that one may become minus one. -/
def radixRounds (n : Int) : Nat :=
  n.natAbs.log2 + 4

/-- An integer in a base. -/
def writeRadix (n base : Int) : Except Fault String := do
  if base = 10 || n = 0 then return Number.signed n
  if base = 0 then throw (.number .zeroDivisor)
  let digits ← radixDigits base (radixRounds n) n.natAbs []
  return String.ofList (if n < 0 then '-' :: digits else digits)

/-- The text of a value; that of a number without fractional part in the given base, if any. -/
def toString (value radix : Value) : Except Fault String := do
  match value, radix with
  | _, .null => return value.toText
  | .number _ n, radix =>
    if ← liftNumeric n.isInteger then
      let base ← integer radix
      writeRadix (← liftNumeric n.truncate) base
    else return value.toText
  | _, _ => return value.toText

end GatedExpr.Builtin
