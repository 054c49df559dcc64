import GatedExpr.Node.Printer
import GatedExpr.Proofs.Expr.Fold

/-! # The text of an expression

Source text for an expression, with parentheses only where an operand binds less strongly than
its place demands.
-/

namespace GatedExpr.Expr

/-- How strongly an expression binds as an operand. -/
def level : Expr → Nat
  | .choice _ _ _ => Precedence.choice
  | .binary operator _ _ => levelOf operator
  | .unary _ _ => Precedence.unary
  | _ => Precedence.atom

def isUnary : Expr → Bool
  | .unary _ _ => true
  | _ => false

/-- The blank that keeps two signs apart. -/
def gap (operator : String) (argument : Expr) : List Char :=
  if argument.isUnary && Text.occursIn operator.toList ['+', '-'] then [' '] else []

/-- A text in parentheses if what it is the text of binds less strongly than `minimum`. -/
def enclosed (minimum : Nat) (e : Expr) (text : List Char) : List Char :=
  if e.level < minimum then '(' :: text ++ [')'] else text

/-- The last comma of an array is no hole, so a hole at the end needs one more. -/
def trailing (elements : List Expr) : List Char :=
  if elements.getLast?.any isHole then [',', ' '] else []

mutual

def text : Expr → List Char
  | .literal raw => raw.toList
  | .name s => s.toList
  | .hole => []
  | .array elements => '[' :: listText elements ++ trailing elements ++ [']']
  | .property k v => text k ++ ':' :: ' ' :: text v
  | .object properties => '\x7b' :: listText properties ++ ['\x7d']
  | .member target s => enclosed Precedence.chain target (text target) ++ '.' :: s.toList
  | .index target k => enclosed Precedence.chain target (text target) ++ '[' :: text k ++ [']']
  | .call callee arguments =>
    enclosed Precedence.chain callee (text callee) ++ '(' :: listText arguments ++ [')']
  | .unary operator argument =>
    operator.toList ++ gap operator argument ++
      enclosed Precedence.unary argument (text argument)
  | .binary operator left right =>
    enclosed (levelOf operator) left (text left) ++ ' ' :: operator.toList ++
      ' ' :: enclosed (levelOf operator + 1) right (text right)
  | .choice test consequent alternate =>
    enclosed (Precedence.choice + 1) test (text test) ++ ' ' :: '?' :: ' ' :: text consequent ++
      ' ' :: ':' :: ' ' :: text alternate

/-- Texts with commas between them. -/
def listText : List Expr → List Char
  | [] => []
  | e :: es => text e ++ furtherText es

/-- Texts with a comma before each. -/
def furtherText : List Expr → List Char
  | [] => []
  | e :: es => ',' :: ' ' :: text e ++ furtherText es

end

/-- The text of an operand. -/
def operandText (minimum : Nat) (e : Expr) : List Char :=
  enclosed minimum e e.text

theorem operandText_of_lt {minimum : Nat} {e : Expr} (h : e.level < minimum) :
    operandText minimum e = '(' :: e.text ++ [')'] :=
  if_pos h

theorem operandText_of_le {minimum : Nat} {e : Expr} (h : minimum ≤ e.level) :
    operandText minimum e = e.text :=
  if_neg (Nat.not_lt.mpr h)

theorem listText_eq (es : List Expr) : listText es = [',', ' '].intercalate (es.map text) := by
  have hfurther (e : Expr) (es : List Expr) :
      [',', ' '].intercalate ((e :: es).map text) = text e ++ furtherText es := by
    induction es generalizing e with
    | nil => simp [furtherText]
    | cons f es ih =>
      rw [List.map_cons, List.map_cons, List.intercalate_cons_cons, ← List.map_cons, ih f,
        furtherText]
      simp
  cases es with
  | nil => rfl
  | cons e es => rw [hfurther, listText]

end GatedExpr.Expr
