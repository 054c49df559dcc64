import GatedExpr.Builtin.Library

/-! # References

Configurations refer to the functions and objects of the standard library by name. What a name
leads to has attributes, which a reference can follow.
-/

namespace GatedExpr.Library

/-- What a reference leads to, with what happens when that is called, if it can be. -/
structure Imported where
  value : Value
  function? : Option Function

namespace Imported

/-- Something that cannot be called. -/
def ofValue (value : Value) : Imported :=
  { value, function? := none }

def ofFunction (id : Identity) (function : Function) : Imported :=
  { value := .function id function.name, function? := some function }

end Imported

/-- The name by which configurations know the standard library. -/
def moduleName : String := "sandex.sandex_builtins"

/-! ## Plain functions of numbers -/

/-- A function of numbers that coerces nothing and fails outside of its domain. -/
def plain (name : String) (f : List Number → Except Fault Number) : Function :=
  { name
    apply := fun arguments =>
      match arguments.mapM (·.number?) with
      | some numbers => Value.ofNumber <$> Eval.ofExcept (f numbers)
      | none => Eval.fail (.argumentCount name) }

def plainOfOne (name : String) (f : Number → Except NumberFault Number) : Function :=
  plain name (Builtin.ofOne name f)

/-- A test of the double that a number stands for. -/
def plainTest (name : String) (test : Float → Bool) : Function :=
  { name
    apply := fun
      | [argument] =>
        match argument.number? with
        | some n => do return .bool (test (← Eval.ofNumeric n.toFloat))
        | none => Eval.fail (.argumentCount name)
      | _ => Eval.fail (.argumentCount name) }

/-- Rounding to an integer, which infinities have none of. -/
def finitely (f : Number → Except NumberFault Number) (x : Number) : Except NumberFault Number :=
  match x with
  | .int n => .ok (.int n)
  | .float y => if Binary64.isInfinite y then .error .infinite else f x

def plainFunctions : List Function :=
  [plainOfOne "floor" (finitely Builtin.floor), plainOfOne "ceil" (finitely Builtin.ceil),
    plainOfOne "trunc" (finitely Builtin.trunc), plainOfOne "sqrt" Builtin.sqrt,
    plainOfOne "fabs" fun x => do return .float (← x.toFloat).abs,
    plain "pow" (Builtin.ofTwo "pow" Builtin.pow), plain "log" Builtin.log,
    plainTest "isnan" Binary64.isNaN, plainTest "isinf" Binary64.isInfinite,
    plainTest "isfinite" Builtin.isFinite]

/-- The constants and functions that the functions of numbers build upon. -/
def plainMath : Value :=
  let attributes : List (String × Value) :=
    [("pi", .float 3.141592653589793), ("e", .float 2.718281828459045),
      ("tau", .float 6.283185307179586), ("inf", .ofNumber (Number.infinity false)),
      ("nan", .ofNumber Number.nan)]
      ++ plainFunctions.map fun function => (function.name, .function .unassigned function.name)
  ((Value.object .unassigned attributes).adopt.run 40).1

/-! ## Names -/

/-- Whether a value is a number and not a truth value. -/
def isNumber : Value → Bool
  | .number .. => true
  | _ => false

/-- A number as the language prints it, anything else as diagnostics show it. -/
def formatNumber : Value → String
  | .number _ n => n.text
  | value => value.displayPlain

/-- A function that makes accessors, which are functions in turn. -/
def makeConstant : Function :=
  function "constant" fun
    | [_] => some (Eval.settle (.function .unassigned "accessor"))
    | _ => none

/-- The functions by the names that configurations know them by. -/
def functions : List (String × Function) :=
  [("math_max", mathMax), ("math_min", mathMin), ("math_round", mathRound),
    ("math_floor", mathFloor), ("math_ceil", mathCeil), ("math_trunc", mathTrunc),
    ("math_abs", mathAbs), ("math_sqrt", mathSqrt), ("math_pow", mathPow), ("math_log", mathLog),
    ("math_random", mathRandom), ("parse_int", parseInt), ("parse_float", parseFloat),
    ("is_nan", isNaN), ("is_finite", isFinite), ("to_upper_case", toUpperCase),
    ("to_lower_case", toLowerCase), ("trim", trim), ("char_at", charAt),
    ("starts_with", startsWith), ("ends_with", endsWith), ("split", split), ("replace", replace),
    ("_clamp_index", function "_clamp_index" fun
      | [index, length] => some (Eval.ofExcept (Builtin.clampIndex index length))
      | _ => none),
    ("index_of", indexOf), ("includes", includes), ("slice_", slice), ("substring", substring),
    ("join", join), ("concat", concat), ("to_fixed", toFixed), ("to_string_method", toString),
    ("is_number", ofOne "is_number" fun value => .bool (isNumber value)),
    ("is_truthy", function "is_truthy" fun
      | [value] => some do return .bool (← Eval.ofNumeric value.isTruthy)
      | _ => none),
    ("to_number", ofOne "to_number" (·.asNumber)),
    ("to_string", ofOne "to_string" fun value => .text value.toText),
    ("format_number", ofOne "format_number" fun value => .text (formatNumber value)),
    ("constant", makeConstant)]

/-- The identity of the first function; the others follow in their order. -/
def firstFunctionId : Identity := 100

def functionNamed? (name : String) : Option Imported :=
  (functions.findIdx? (·.1 == name)).bind fun i =>
    functions[i]?.map fun entry => .ofFunction (firstFunctionId + i) entry.2

/-- What the library holds under a name. -/
def named? (name : String) : Option Imported :=
  if name == "MATH" then some (.ofValue mathMap)
  else if name == "NUMBER" then some (.ofValue numberMap)
  else if name == "NAN" then some (.ofValue .notANumber)
  else if name == "math" then some (.ofValue plainMath)
  else functionNamed? name

/-! ## Attributes -/

/-- Whether a double has no fractional part, to be asked of the double itself. -/
def isIntegerOf (n : Number) : Function :=
  function "is_integer" fun
    | [] => some do return .bool (← Eval.ofNumeric n.isInteger)
    | _ => none

/-- Looks a key up in a map, with a value to fall back on. -/
def lookupIn (entries : List (String × Value)) : Function :=
  let find (key fallback : Value) : Eval Value :=
    match key with
    | .text name => pure ((entries.lookup name).getD fallback)
    | key => if key.isKey then pure fallback else Eval.fail .unhashable
  function "get" fun
    | [key] => some (find key .null)
    | [key, fallback] => some (find key fallback)
    | _ => none

def copyOf (entries : List (String × Value)) : Function :=
  function "copy" fun
    | [] => some (Eval.newMap entries)
    | _ => none

/-- What happens when a function that was read off something is called. -/
def calledBy? (owner : Value) (name : String) : Option Function :=
  match owner with
  | .number _ n => if name == "is_integer" then some (isIntegerOf n) else none
  | _ => plainFunctions.find? (·.name == name)

/-- An attribute of what a reference leads to. -/
def Imported.attribute? (imported : Imported) (name : String) : Option Imported :=
  match imported.value with
  | .function .. =>
    if name == "__name__" then imported.function?.map fun f => .ofValue (.text f.name) else none
  | .map _ entries =>
    [lookupIn entries, copyOf entries].find? (·.name == name) |>.map fun f =>
      { value := .method .unassigned imported.value name, function? := some f }
  | owner =>
    (owner.attribute? name).map fun value => { value, function? := calledBy? owner name }

/-- Follows the attributes of a reference. -/
def attributePath? : List String → Option Imported
  | [] => none
  | first :: rest =>
    rest.foldl (fun found name => found.bind (·.attribute? name)) (named? first)

end GatedExpr.Library
