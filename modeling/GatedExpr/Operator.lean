import GatedExpr.Value.Arithmetic

/-! # Operators

The operators of the language with their symbols, how strongly they bind and what they compute.
A logical operator gets its right operand only when the left one does not decide.
-/

namespace GatedExpr

inductive BinaryOperator where
  | add
  | subtract
  | multiply
  | divide
  | remainder
  | greater
  | less
  | greaterOrEqual
  | lessOrEqual
  | looseEqual
  | strictEqual
  | looseUnequal
  | strictUnequal
  deriving DecidableEq, Repr

namespace BinaryOperator

def symbol : BinaryOperator → String
  | .add => "+"
  | .subtract => "-"
  | .multiply => "*"
  | .divide => "/"
  | .remainder => "%"
  | .greater => ">"
  | .less => "<"
  | .greaterOrEqual => ">="
  | .lessOrEqual => "<="
  | .looseEqual => "=="
  | .strictEqual => "==="
  | .looseUnequal => "!="
  | .strictUnequal => "!=="

def all : List BinaryOperator :=
  [.add, .subtract, .multiply, .divide, .remainder, .greater, .less, .greaterOrEqual,
    .lessOrEqual, .looseEqual, .strictEqual, .looseUnequal, .strictUnequal]

def ofSymbol? (symbol : String) : Option BinaryOperator :=
  all.find? (·.symbol == symbol)

def apply (operator : BinaryOperator) (left right : Value) : Except NumberFault Value :=
  match operator with
  | .add => left.add right
  | .subtract => left.subtract right
  | .multiply => left.multiply right
  | .divide => left.divide right
  | .remainder => left.remainder right
  | .greater => .ok (.bool (left.greater right))
  | .less => .ok (.bool (left.less right))
  | .greaterOrEqual => .ok (.bool (left.greaterOrEqual right))
  | .lessOrEqual => .ok (.bool (left.lessOrEqual right))
  | .looseEqual => .ok (.bool (left.looseEquals right))
  | .strictEqual => .ok (.bool (left.strictEquals right))
  | .looseUnequal => .ok (.bool (!left.looseEquals right))
  | .strictUnequal => .ok (.bool (!left.strictEquals right))

end BinaryOperator

inductive LogicalOperator where
  | and
  | or
  deriving DecidableEq, Repr

namespace LogicalOperator

def symbol : LogicalOperator → String
  | .and => "&&"
  | .or => "||"

def ofSymbol? (symbol : String) : Option LogicalOperator :=
  [LogicalOperator.and, .or].find? (·.symbol == symbol)

/-- Whether a left operand of the given truth leaves the result to the right one. -/
def needsRight (operator : LogicalOperator) (truthy : Bool) : Bool :=
  match operator with
  | .and => truthy
  | .or => !truthy

end LogicalOperator

inductive UnaryOperator where
  | plus
  | minus
  | not
  | complement
  deriving DecidableEq, Repr

namespace UnaryOperator

def symbol : UnaryOperator → String
  | .plus => "+"
  | .minus => "-"
  | .not => "!"
  | .complement => "~"

/-- In the order in which they are looked for in a source. -/
def all : List UnaryOperator :=
  [.not, .complement, .plus, .minus]

def ofSymbol? (symbol : String) : Option UnaryOperator :=
  all.find? (·.symbol == symbol)

def apply (operator : UnaryOperator) (argument : Value) : Except NumberFault Value :=
  match operator with
  | .plus => .ok argument.asNumber
  | .minus => .ok (.ofNumber argument.toNumber.negate)
  | .not => do return .bool !(← argument.isTruthy)
  | .complement => .ok (.int (-1 - argument.toInt32))

end UnaryOperator

/-- How strongly each infix operator binds. All of them associate to the left. -/
def precedences : List (String × Nat) :=
  [("||", 1), ("&&", 2), ("==", 3), ("!=", 3), ("===", 3), ("!==", 3), ("<", 4), (">", 4),
    ("<=", 4), (">=", 4), ("+", 5), ("-", 5), ("*", 6), ("/", 6), ("%", 6)]

def precedence? (symbol : String) : Option Nat :=
  precedences.lookup symbol

/-- The infix operators, longer ones first, so that none is read as the start of another. -/
def infixSymbols : List String :=
  ["===", "!==", "||", "&&", "==", "!=", "<=", ">=", "<", ">", "+", "-", "*", "/", "%"]

end GatedExpr
