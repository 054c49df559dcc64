import GatedExpr.Proofs.Expr.Spine
import GatedExpr.Proofs.Grammar.Tokens

/-! # Readable expressions

The text of an expression can be read back unless a member is read by name off an integer: the
point would be taken for a part of the number.
-/

namespace GatedExpr

namespace Expr

/-- A literal that is nothing but digits. -/
def isInteger : Expr → Bool
  | .literal raw => decide (Token.IsInteger raw.toList)
  | _ => false

mutual

/-- Somewhere a member is read by name off an integer. -/
def dotsInteger : Expr → Bool
  | .literal _ | .name _ | .hole => false
  | .array elements => anyDotsInteger elements
  | .property _ v => dotsInteger v
  | .object properties => anyDotsInteger properties
  | .member target _ => target.isInteger || dotsInteger target
  | .index target k => dotsInteger target || dotsInteger k
  | .call callee arguments => dotsInteger callee || anyDotsInteger arguments
  | .unary _ argument => dotsInteger argument
  | .binary _ left right => dotsInteger left || dotsInteger right
  | .choice test consequent alternate =>
    dotsInteger test || dotsInteger consequent || dotsInteger alternate

def anyDotsInteger : List Expr → Bool
  | [] => false
  | e :: es => dotsInteger e || anyDotsInteger es

end

theorem anyDotsInteger_eq_false {es : List Expr} :
    anyDotsInteger es = false ↔ ∀ e ∈ es, e.dotsInteger = false := by
  induction es with
  | nil => simp [anyDotsInteger]
  | cons e es ih => simp [anyDotsInteger, ih]

/-- The base of a chain that is an integer is not followed by a point. -/
theorem links_head?_ne_dot {e : Expr} (h : e.dotsInteger = false)
    (hbase : (links e).1.isInteger = true) (s : String) : (links e).2.head? ≠ some (.dot s) := by
  have hnil {e : Expr} (h : (links e).2 = []) : (links e).1 = e := by
    cases e <;> first | rfl | simp [links] at h
  have hfirst {target : Expr} {suffix : Suffix} (hdot : suffix ≠ .dot s)
      (ih : (links target).2.head? ≠ some (.dot s)) :
      ((links target).2 ++ [suffix]).head? ≠ some (.dot s) := by
    cases hl : (links target).2 with
    | nil => simpa using hdot
    | cons first rest => simpa [hl] using ih
  fun_induction links e with
  | case1 target t ih =>
    rw [dotsInteger, Bool.or_eq_false_iff] at h
    cases hl : (links target).2 with
    | nil =>
      rw [hnil hl, h.1] at hbase
      cases hbase
    | cons first rest => simpa [hl] using ih h.2 hbase
  | case2 target k ih =>
    rw [dotsInteger, Bool.or_eq_false_iff] at h
    exact hfirst (by simp) (ih h.1 hbase)
  | case3 callee arguments ih =>
    rw [dotsInteger, Bool.or_eq_false_iff] at h
    exact hfirst (by simp) (ih h.1 hbase)
  | case4 e => simp

/-- Some tree shows the expression, and no integer is followed by a point. -/
def Readable (role : Role) (e : Expr) : Prop :=
  (∃ v, Depicts role v e) ∧ e.dotsInteger = false

end Expr

end GatedExpr
