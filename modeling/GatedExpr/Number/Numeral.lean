import GatedExpr.Number.Basic
import GatedExpr.Text.Blank

/-! # Reading numerals

A decimal numeral has digits with an optional point among, before or after them, and an
optional exponent. Which characters count as digits is up to the caller: the source language
takes decimal digits of every script, the conversion of strings ASCII digits only.
-/

namespace GatedExpr

/-- A decimal numeral without its sign. -/
structure Numeral where
  whole : List Nat
  /-- The digits after the point, if there is a point. -/
  fraction : Option (List Nat)
  exponent : Option Int

namespace Numeral

/-- The values of the longest run of digits, and the rest. -/
def takeDigits (digit? : Char → Option Nat) : List Char → List Nat × List Char
  | [] => ([], [])
  | c :: rest =>
    match digit? c with
    | some value =>
      let (values, after) := takeDigits digit? rest
      (value :: values, after)
    | none => ([], c :: rest)

/-- A sign, if there is one. -/
def takeSign : List Char → Bool × List Char
  | '-' :: rest => (true, rest)
  | '+' :: rest => (false, rest)
  | text => (false, text)

/-- An exponent mark with at least one digit; without digits the mark is not part of it. -/
def takeExponent (digit? : Char → Option Nat) (text : List Char) : Option Int × List Char :=
  match text with
  | [] => (none, text)
  | c :: rest =>
    if c == 'e' || c == 'E' then
      let (negative, unsigned) := takeSign rest
      match takeDigits digit? unsigned with
      | ([], _) => (none, text)
      | (values, after) =>
        let size : Int := Text.valueOfDigits 10 values
        (some (if negative then -size else size), after)
    else (none, text)

/-- The longest numeral at the start of `text`, and the rest. -/
def read? (digit? : Char → Option Nat) (text : List Char) : Option (Numeral × List Char) :=
  match takeDigits digit? text with
  | ([], '.' :: rest) =>
    match takeDigits digit? rest with
    | ([], _) => none
    | (fraction, after) =>
      let (exponent, after) := takeExponent digit? after
      some ({ whole := [], fraction := some fraction, exponent }, after)
  | ([], _) => none
  | (whole, '.' :: rest) =>
    let (fraction, after) := takeDigits digit? rest
    let (exponent, after) := takeExponent digit? after
    some ({ whole, fraction := some fraction, exponent }, after)
  | (whole, rest) =>
    let (exponent, after) := takeExponent digit? rest
    some ({ whole, fraction := none, exponent }, after)

/-- Whether the numeral is a plain run of digits. -/
def isPlain (numeral : Numeral) : Bool :=
  numeral.fraction.isNone && numeral.exponent.isNone

/-- The double nearest to the numeral. -/
def toFloat (numeral : Numeral) : Float :=
  let fraction := numeral.fraction.getD []
  Binary64.ofDecimal (Text.valueOfDigits 10 (numeral.whole ++ fraction))
    (numeral.exponent.getD 0 - fraction.length)

/-- The double nearest to the numeral with the given sign. -/
def toSignedFloat (numeral : Numeral) (negative : Bool) : Float :=
  if negative then -numeral.toFloat else numeral.toFloat

/-- The hexadecimal digits of a numeral that begins with `0x`, if that is all of `text`. -/
def hexDigits? : List Char → Option (List Nat)
  | '0' :: x :: digits =>
    if x == 'x' || x == 'X' then
      let values := digits.map fun c => (Text.asciiDigitValue? c).filter (· < 16)
      if digits.isEmpty then none else values.mapM id
    else none
  | _ => none

/-- A text without the underscores in it, each of which must stand between two digits. -/
def withoutSeparators? (isDigit : Char → Bool) (afterDigit : Bool) :
    List Char → Option (List Char)
  | [] => some []
  | '_' :: rest =>
    if afterDigit && rest.head?.any isDigit then withoutSeparators? isDigit false rest else none
  | c :: rest => (withoutSeparators? isDigit (isDigit c) rest).map (c :: ·)

/-- The values of digits with underscores between them, if that is all of `text`. -/
def separatedDigits? (digit? : Char → Option Nat) (afterDigit : Bool) (text : List Char) :
    Option (List Nat) := do
  let digits ← withoutSeparators? (fun c => (digit? c).isSome) afterDigit text
  if digits.isEmpty then none else digits.mapM digit?

/-- Whether `c` may stand around a numeral: any blank but the information separators. -/
def isPadding (c : Char) : Bool :=
  Text.isBlank c && !('\x1c' ≤ c && c ≤ '\x1f')

def withoutPadding (text : List Char) : List Char :=
  Text.dropLastWhile isPadding (text.dropWhile isPadding)

/-- An integer in decimal digits of any script, with a sign and padding around it. -/
def integer? (text : List Char) : Option Int := do
  let (negative, unsigned) := takeSign (withoutPadding text)
  let values ← separatedDigits? Text.decimalValue? false unsigned
  let size : Int := Text.valueOfDigits 10 values
  return if negative then -size else size

/-- A double in decimal digits of any script, with a sign and padding around it. -/
def float? (text : List Char) : Option Float := do
  let (negative, unsigned) := takeSign (withoutPadding text)
  let plain ← withoutSeparators? Text.isDecimal false unsigned
  match read? Text.decimalValue? plain with
  | some (numeral, []) => return numeral.toSignedFloat negative
  | _ => none

/-- The digits after the mark of a hexadecimal integer. -/
def hexInteger? (digits : List Char) : Option Int := do
  let digit? (c : Char) : Option Nat :=
    ((Text.asciiDigitValue? c).filter (· < 16)).or (Text.decimalValue? c)
  let unpadded := Text.dropLastWhile isPadding digits
  return Text.valueOfDigits 16 (← separatedDigits? digit? true unpadded)

/-- Whether a text begins with the mark of hexadecimal numbers. -/
def hasHexMark : List Char → Bool
  | '0' :: x :: _ => x == 'x' || x == 'X'
  | _ => false

end Numeral

namespace Number

/-- The value of a number token: hexadecimal, a double when written with a point or an
exponent, and otherwise an integer. -/
def ofToken? (raw : List Char) : Option Number :=
  if Numeral.hasHexMark raw then Number.int <$> Numeral.hexInteger? (raw.drop 2)
  else if raw.any fun c => c == '.' || c == 'e' || c == 'E' then
    Number.float <$> Numeral.float? raw
  else Number.int <$> Numeral.integer? raw

/-- The value of a trimmed string, or not-a-number. A plain run of digits is read as a double
first, so that its value is one a double can have. -/
def ofText (text : List Char) : Number :=
  match Numeral.hexDigits? text with
  | some values => .int (Text.valueOfDigits 16 values)
  | none =>
    let (negative, unsigned) := Numeral.takeSign text
    if unsigned = "Infinity".toList then infinity negative
    else
      match Numeral.read? (fun c => (Text.asciiDigitValue? c).filter (· < 10)) unsigned with
      | some (numeral, []) =>
        let x := numeral.toSignedFloat negative
        if numeral.isPlain then
          match Number.truncate (.float x) with
          | .ok n => .int n
          | .error _ => .float x
        else .float x
      | _ => nan

end Number

end GatedExpr
