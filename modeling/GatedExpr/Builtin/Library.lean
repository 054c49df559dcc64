import GatedExpr.Builtin.Sequence
import GatedExpr.Gate.Basic

/-! # The standard library

The functions and objects that the standard whitelist allows. Configurations can name each of
them on its own as well.
-/

namespace GatedExpr

namespace Library

/-! ## Constants -/

/-- Named constants. They and the map of them have the identities from `first` on. -/
def constants (first : Identity) (entries : List (String × Value)) : Value :=
  ((Value.ofEntries entries).adopt.run first).1

def mathMap : Value :=
  constants 10
    [("PI", .float 3.141592653589793), ("E", .float 2.718281828459045),
      ("LN2", .float 0.6931471805599453), ("LN10", .float 2.302585092994046),
      ("LOG2E", .float 1.4426950408889634), ("LOG10E", .float 0.43429448190325176),
      ("SQRT2", .float 1.4142135623730951), ("SQRT1_2", .float 0.7071067811865476)]

def numberMap : Value :=
  constants 20
    [("MAX_SAFE_INTEGER", .int 9007199254740991), ("MIN_SAFE_INTEGER", .int (-9007199254740991)),
      ("EPSILON", .float 2.220446049250313e-16),
      ("POSITIVE_INFINITY", .ofNumber (Number.infinity false)),
      ("NEGATIVE_INFINITY", .ofNumber (Number.infinity true)), ("NaN", .notANumber)]

/-! ## Functions -/

/-- A function that takes arguments in the ways that `body` knows, and refuses others. -/
def function (name : String) (body : List Value → Option (Eval Value)) : Function :=
  { name, apply := fun arguments => (body arguments).getD (Eval.fail (.argumentCount name)) }

/-- A function of one value. -/
def ofOne (name : String) (f : Value → Value) : Function :=
  function name fun
    | [value] => some (pure (f value))
    | _ => none

/-- A function of two values. -/
def ofTwo (name : String) (f : Value → Value → Value) : Function :=
  function name fun
    | [first, second] => some (pure (f first second))
    | _ => none

/-- A function of numbers that passes not-a-number on. -/
def numeric (name : String) (f : List Number → Except Fault Number) : Function :=
  { name, apply := fun arguments => Eval.ofExcept (Builtin.guarded f arguments) }

/-- A function of one number. Where the result is the argument itself and of a kind that `stays`,
it is the same object. -/
def numericOfOne (name : String) (stays : Number → Bool)
    (f : Number → Except NumberFault Number) : Function :=
  { name
    apply := fun arguments => do
      let result ← Eval.ofExcept (Builtin.guarded (Builtin.ofOne name f) arguments)
      match arguments with
      | [argument] =>
        let n := argument.toNumber
        return if stays n && result.number? == some n then argument.asNumber else result
      | _ => return result }

def mathMax : Function :=
  { name := "math_max", apply := fun arguments => pure (Builtin.max arguments) }

def mathMin : Function :=
  { name := "math_min", apply := fun arguments => pure (Builtin.min arguments) }

def mathRound : Function := numericOfOne "math_round" (·.isInfinite) Builtin.round

def mathFloor : Function := numericOfOne "math_floor" (fun _ => true) Builtin.floor

def mathCeil : Function := numericOfOne "math_ceil" (fun _ => true) Builtin.ceil

def mathTrunc : Function := numericOfOne "math_trunc" (fun _ => true) Builtin.trunc

def mathAbs : Function := numericOfOne "abs" (·.isInt) fun x => .ok (Builtin.abs x)

def mathSqrt : Function := numericOfOne "sqrt" (fun _ => false) Builtin.sqrt

def mathPow : Function := numeric "pow" (Builtin.ofTwo "pow" Builtin.pow)

def mathLog : Function := numeric "log" Builtin.log

def mathRandom : Function :=
  function "math_random" fun
    | [] => some do return .float (← Eval.random)
    | _ => none

def numberIsNaN : Function :=
  ofOne "<lambda>" fun value => .bool (Builtin.isNumberNaN value)

def parseFloat : Function :=
  ofOne "parse_float" fun value => .ofResult (Builtin.parseFloat value)

def parseInt : Function :=
  function "parse_int" fun
    | [value] => some do return .ofResult (← Eval.ofExcept (Builtin.parseInt value .null))
    | [value, radix] => some do return .ofResult (← Eval.ofExcept (Builtin.parseInt value radix))
    | _ => none

def isNaN : Function :=
  ofOne "is_nan" fun value => .bool (Builtin.isNaN value)

def isFinite : Function :=
  ofOne "is_finite" fun value => .bool (Builtin.isFiniteNumber value)

def toText : Function :=
  function "<lambda>" fun
    | [] => some (pure (.text ""))
    | [value] => some (pure (.text value.toText))
    | _ => none

def toNumber : Function :=
  function "<lambda>" fun
    | [] => some (pure (.int 0))
    | [value] => some (pure value.asNumber)
    | _ => none

def toBoolean : Function :=
  function "<lambda>" fun
    | [] => some (pure (.bool false))
    | [value] => some do return .bool (← Eval.ofNumeric value.isTruthy)
    | _ => none

def toUpperCase : Function := ofOne "to_upper_case" Builtin.toUpperCase

def toLowerCase : Function := ofOne "to_lower_case" Builtin.toLowerCase

def trim : Function := ofOne "trim" Builtin.trim

def charAt : Function :=
  function "char_at" fun
    | [value] => some (Eval.ofExcept (Builtin.charAt value (.int 0)))
    | [value, offset] => some (Eval.ofExcept (Builtin.charAt value offset))
    | _ => none

def startsWith : Function :=
  ofTwo "starts_with" fun value start => .bool (Builtin.startsWith value start)

def endsWith : Function :=
  ofTwo "ends_with" fun value ending => .bool (Builtin.endsWith value ending)

def split : Function :=
  function "split" fun
    | [value] => some do Eval.newList (← Eval.ofExcept (Builtin.split value .null))
    | [value, separator] => some do
      Eval.newList (← Eval.ofExcept (Builtin.split value separator))
    | _ => none

def replace : Function :=
  function "replace" fun
    | [value, old, new] => some (pure (Builtin.replace value old new))
    | _ => none

def indexOf : Function :=
  ofTwo "index_of" fun receiver item => .int (Builtin.indexOf receiver item)

def includes : Function :=
  ofTwo "includes" fun receiver item => .bool (Builtin.includes receiver item)

/-- The slice of a list is a new list, that of anything else a text. -/
def sliceOf (receiver start stop : Value) : Eval Value :=
  match receiver with
  | .list _ items => do Eval.newList (← Eval.ofExcept (Builtin.sliceItems items start stop))
  | receiver => Eval.ofExcept (Builtin.sliceText receiver start stop)

def slice : Function :=
  function "slice_" fun
    | [receiver] => some (sliceOf receiver (.int 0) .null)
    | [receiver, start] => some (sliceOf receiver start .null)
    | [receiver, start, stop] => some (sliceOf receiver start stop)
    | _ => none

def substring : Function :=
  function "substring" fun
    | [value] => some (Eval.ofExcept (Builtin.substring value (.int 0) .null))
    | [value, start] => some (Eval.ofExcept (Builtin.substring value start .null))
    | [value, start, stop] => some (Eval.ofExcept (Builtin.substring value start stop))
    | _ => none

def join : Function :=
  function "join" fun
    | [receiver] => some do return .text (← Eval.ofExcept (Builtin.join receiver (.text ",")))
    | [receiver, separator] => some do
      return .text (← Eval.ofExcept (Builtin.join receiver separator))
    | _ => none

def concat : Function :=
  function "concat" fun
    | .list _ items :: others => some (Eval.newList (items ++ others.flatMap Builtin.spread))
    | receiver :: others => some (pure (.text (Builtin.concatTexts (receiver :: others))))
    | [] => none

def toFixed : Function :=
  function "to_fixed" fun
    | [number] => some do return .text (← Eval.ofExcept (Builtin.toFixed number (.int 0)))
    | [number, places] => some do return .text (← Eval.ofExcept (Builtin.toFixed number places))
    | _ => none

def toString : Function :=
  function "to_string_method" fun
    | [value] => some do return .text (← Eval.ofExcept (Builtin.toString value .null))
    | [value, radix] => some do return .text (← Eval.ofExcept (Builtin.toString value radix))
    | _ => none

end Library

/-! ## The standard whitelist -/

/-- Constants, functions of numbers, and methods of texts and lists. -/
def Whitelist.standard : Whitelist :=
  { objects :=
      [("Math", .constant Library.mathMap), ("Number", .constant Library.numberMap)]
    callees :=
      [("Math.max", Library.mathMax), ("Math.min", Library.mathMin),
        ("Math.round", Library.mathRound), ("Math.floor", Library.mathFloor),
        ("Math.ceil", Library.mathCeil), ("Math.trunc", Library.mathTrunc),
        ("Math.abs", Library.mathAbs), ("Math.sqrt", Library.mathSqrt),
        ("Math.pow", Library.mathPow), ("Math.log", Library.mathLog),
        ("Math.random", Library.mathRandom), ("Number.isNaN", Library.numberIsNaN),
        ("Number.parseFloat", Library.parseFloat), ("Number.parseInt", Library.parseInt),
        ("parseInt", Library.parseInt), ("parseFloat", Library.parseFloat),
        ("isNaN", Library.isNaN), ("isFinite", Library.isFinite), ("String", Library.toText),
        ("Number", Library.toNumber), ("Boolean", Library.toBoolean),
        ("*.toUpperCase", Library.toUpperCase), ("*.toLowerCase", Library.toLowerCase),
        ("*.trim", Library.trim), ("*.charAt", Library.charAt),
        ("*.startsWith", Library.startsWith), ("*.endsWith", Library.endsWith),
        ("*.split", Library.split), ("*.replace", Library.replace),
        ("*.indexOf", Library.indexOf), ("*.includes", Library.includes),
        ("*.slice", Library.slice), ("*.substring", Library.substring),
        ("*.join", Library.join), ("*.concat", Library.concat), ("*.toFixed", Library.toFixed),
        ("*.toString", Library.toString)]
    custom := [.text "Math", .text "Number"] }

end GatedExpr
