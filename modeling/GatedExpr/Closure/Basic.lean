import GatedExpr.Evaluation
import GatedExpr.Operator
import GatedExpr.Table

/-! # Closures

What each kind of expression does when it runs, given what its parts do. Operands run from left
to right. A failed look-up, member read or call is about its own node, unless the failure is
about an inner node already.
-/

namespace GatedExpr.Closure

/-- Always the same value. -/
def constant (value : Value) : Closure :=
  fun _ => Eval.settle value

/-- A name among the bindings. -/
def lookup (node : Node) (name : Value) : Closure :=
  fun env => Eval.located node (Accessor.fromBindings name env)

/-- Only one of the branches runs. -/
def choice (test consequent alternate : Closure) : Closure :=
  fun env => do
    if ← Eval.ofNumeric (← test env).isTruthy then consequent env else alternate env

/-- The right operand runs only if the left one does not decide. -/
def logical (operator : LogicalOperator) (left right : Closure) : Closure :=
  fun env => do
    let value ← left env
    if operator.needsRight (← Eval.ofNumeric value.isTruthy) then right env else return value

def binary (operator : BinaryOperator) (left right : Closure) : Closure :=
  fun env => do
    let leftValue ← left env
    let rightValue ← right env
    Eval.settle (← Eval.ofNumeric (operator.apply leftValue rightValue))

def unary (operator : UnaryOperator) (argument : Closure) : Closure :=
  fun env => do
    Eval.settle (← Eval.ofNumeric (operator.apply (← argument env)))

def array (elements : List Closure) : Closure :=
  fun env => do
    Eval.newList (← elements.mapM (· env))

/-- A key with its value. -/
def property (key value : Closure) : Closure :=
  fun env => do
    let keyValue ← key env
    let heldValue ← value env
    Eval.settle (.tuple .unassigned [keyValue, heldValue])

/-- Runs one property and sets its entry. -/
def addEntry (env : Env) (entries : List (String × Value)) (property : Closure) :
    Eval (List (String × Value)) := do
  let (key, value) ← Eval.ofExcept (← property env).asPair
  return Table.set key.toText value entries

/-- Later entries overwrite earlier ones with the same key. -/
def object (properties : List Closure) : Closure :=
  fun env => do
    Eval.newMap (← properties.foldlM (addEntry env) [])

/-- Reads the target first, then the key. -/
def member (node : Node) (target key : Closure) : Closure :=
  fun env => do
    let targetValue ← target env
    Eval.located node do
      let keyValue ← key env
      Eval.settle (← Eval.ofExcept (targetValue.getMember keyValue))

/-- Applies a function to the value of the receiver, if there is one, and of the arguments. -/
def call (node : Node) (function : Function) (receiver : Option Closure)
    (arguments : List Closure) : Closure :=
  fun env => do
    let values ← (receiver.toList ++ arguments).mapM (· env)
    Eval.located node do Eval.settle (← function.call values)

end GatedExpr.Closure
