import GatedExpr.Proofs.Expr.Text

/-! # Operands and chains

An expression is a run of operands with infix operators between them, and an operand is a chain
of suffixes after something that is none. Texts are put together along these lists, and folding
them yields the expression again.
-/

namespace GatedExpr.Expr

/-! ## Runs of operands -/

theorem levelOf_le (operator : String) : levelOf operator ≤ 6 := by
  unfold levelOf precedence?
  cases h : precedences.lookup operator with
  | none => exact Nat.zero_le _
  | some n =>
    have hall : ∀ entry ∈ precedences, entry.2 ≤ 6 := by decide
    exact hall (operator, n) (Table.mem_of_lookup h)

/-- The first operand of an expression and the operators with their right operands, as they stand
in its text where it is not in parentheses. -/
def operands (minimum : Nat) : Expr → Expr × List (String × Expr)
  | .binary operator left right =>
    if levelOf operator < minimum then (.binary operator left right, [])
    else
      let (first, before) := operands (levelOf operator) left
      let (second, after) := operands (levelOf operator + 1) right
      (first, before ++ (operator, second) :: after)
  | e => (e, [])

/-- The text of an operator and its right operand. -/
def operationText (operation : String × Expr) : List Char :=
  ' ' :: operation.1.toList ++ ' ' :: operandText Precedence.unary operation.2

theorem operandText_eq_operands {minimum : Nat} (hpos : 0 < minimum)
    (hle : minimum ≤ Precedence.unary) (e : Expr) :
    operandText minimum e =
      operandText Precedence.unary (operands minimum e).1 ++
        (operands minimum e).2.flatMap operationText := by
  fun_induction operands minimum e with
  | case1 minimum operator left right hlt =>
    rw [operandText_of_lt hlt, operandText_of_lt (Nat.lt_of_lt_of_le hlt hle)]
    simp
  | case2 minimum operator left right hge first before hf second after hs ihl ihr =>
    have hlevel := levelOf_le operator
    have hunary : Precedence.unary = 7 := rfl
    rw [hf] at ihl
    rw [hs] at ihr
    rw [operandText_of_le (by simpa [level] using hge), text]
    change operandText _ left ++ ' ' :: operator.toList ++ ' ' :: operandText _ right = _
    rw [ihl (by omega) (by omega), ihr (by omega) (by omega)]
    simp [operationText]
  | case3 minimum e hne =>
    have hlevel : e.level = 0 ∨ Precedence.unary ≤ e.level := by
      cases e with
      | binary operator left right => exact absurd rfl (hne operator left right)
      | choice => exact .inl rfl
      | unary => exact .inr (Nat.le_refl _)
      | _ => exact .inr (Nat.le_of_ble_eq_true rfl)
    rw [List.flatMap_nil, List.append_nil]
    rcases hlevel with hlevel | hlevel
    · rw [operandText_of_lt (by omega), operandText_of_lt (by rw [hlevel]; decide)]
    · rw [operandText_of_le (Nat.le_trans hle hlevel), operandText_of_le hlevel]

/-- The topmost operand that waits binds less strongly. -/
def Below (minimum : Nat) (stack : List Pending) : Prop :=
  ∀ pending, stack.head? = some pending → levelOf pending.operator < minimum

theorem collapse_of_below {minimum : Nat} {stack : List Pending} (h : Below minimum stack)
    (e : Expr) : collapse minimum stack e = (stack, e) := by
  cases stack with
  | nil => rfl
  | cons pending stack =>
    rw [collapse, if_neg]
    exact Nat.not_le.mpr (h pending rfl)

/-- Once its operands are read, an expression stands in their place. -/
theorem collapse_operands (minimum : Nat) (e : Expr) {stack : List Pending}
    (hb : Below minimum stack) {bound : Nat} (hle : bound ≤ minimum) :
    collapse bound ((operands minimum e).2.foldl feed (stack, (operands minimum e).1)).1
        ((operands minimum e).2.foldl feed (stack, (operands minimum e).1)).2 =
      collapse bound stack e := by
  fun_induction operands minimum e generalizing stack bound with
  | case1 => rfl
  | case2 minimum operator left right hge first before hf second after hs ihl ihr =>
    have hleft : Below (levelOf operator) stack := fun pending hp =>
      Nat.lt_of_lt_of_le (hb pending hp) (Nat.le_of_not_lt hge)
    have hright : Below (levelOf operator + 1) (⟨left, operator⟩ :: stack) := by
      rintro _ ⟨⟩
      exact Nat.lt_succ_self _
    have hfirst := ihl hleft (Nat.le_refl _)
    rw [hf, collapse_of_below hleft] at hfirst
    have hsecond := ihr hright (by omega : bound ≤ levelOf operator + 1)
    rw [hs, collapse, if_pos (by simp only; omega)] at hsecond
    rw [List.foldl_append, List.foldl_cons, feed, hfirst]
    exact hsecond
  | case3 => rfl

theorem fold_operands (minimum : Nat) (e : Expr) :
    fold (operands minimum e).1 (operands minimum e).2 = e := by
  have hb : Below minimum [] := nofun
  exact congrArg Prod.snd (collapse_operands minimum e hb (Nat.zero_le _))

/-! ## Chains of suffixes -/

/-- What may follow an operand: a member, an element or a call. -/
inductive Suffix where
  | dot (name : String)
  | index (property : Expr)
  | arguments (arguments : List Expr)

namespace Suffix

def apply (base : Expr) : Suffix → Expr
  | .dot s => .member base s
  | .index k => .index base k
  | .arguments es => .call base es

def leaves : Suffix → List String
  | .dot s => [s]
  | .index k => k.leaves
  | .arguments es => leavesOf es

theorem leaves_apply (base : Expr) (suffix : Suffix) :
    (suffix.apply base).leaves = base.leaves ++ suffix.leaves := by
  cases suffix <;> rfl

def text : Suffix → List Char
  | .dot s => '.' :: s.toList
  | .index k => '[' :: k.text ++ [']']
  | .arguments es => '(' :: listText es ++ [')']

theorem leaves_foldl (base : Expr) (suffixes : List Suffix) :
    (suffixes.foldl apply base).leaves = base.leaves ++ suffixes.flatMap leaves := by
  induction suffixes generalizing base with
  | nil => simp
  | cons suffix suffixes ih =>
    rw [List.foldl_cons, ih, leaves_apply, List.flatMap_cons, List.append_assoc]

end Suffix

/-- What the suffixes of an expression follow, and the suffixes. -/
def links : Expr → Expr × List Suffix
  | .member target s => ((links target).1, (links target).2 ++ [.dot s])
  | .index target k => ((links target).1, (links target).2 ++ [.index k])
  | .call callee arguments => ((links callee).1, (links callee).2 ++ [.arguments arguments])
  | e => (e, [])

theorem operandText_eq_links (e : Expr) :
    operandText Precedence.chain e =
      operandText Precedence.chain (links e).1 ++ (links e).2.flatMap Suffix.text := by
  have hatom : Precedence.chain ≤ Precedence.atom := by decide
  fun_induction links e with
  | case1 target s ih =>
    rw [operandText_of_le (e := member target s) hatom, text]
    change operandText _ target ++ _ = _
    rw [ih]
    simp [Suffix.text]
  | case2 target k ih =>
    rw [operandText_of_le (e := index target k) hatom, text]
    change operandText _ target ++ _ ++ _ = _
    rw [ih]
    simp [Suffix.text]
  | case3 callee arguments ih =>
    rw [operandText_of_le (e := call callee arguments) hatom, text]
    change operandText _ callee ++ _ ++ _ = _
    rw [ih]
    simp [Suffix.text]
  | case4 e => simp

theorem foldl_links (e : Expr) : (links e).2.foldl Suffix.apply (links e).1 = e := by
  fun_induction links e with
  | case1 target s ih => rw [List.foldl_append, ih]; rfl
  | case2 target k ih => rw [List.foldl_append, ih]; rfl
  | case3 callee arguments ih => rw [List.foldl_append, ih]; rfl
  | case4 e => rfl

end GatedExpr.Expr
