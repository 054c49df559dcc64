import Mathlib
import GatedExpr.Proofs.Closure.CompiledFrom
import GatedExpr.Proofs.Number.Nearest

/-! # Branching by truth

Conditional expressions, negations and logical operators all branch on the truth of a value, and
they do it alike. A value has a truth unless it is an integer beyond the doubles: its truth is asked
for as that of a double, which it cannot become.
-/

namespace GatedExpr

open GatedExpr.Computation

/-! ## Truth -/

namespace Value

/-- The values that count as false: null, false, zeros of either sign, not-a-number and the empty
text. -/
def Falsy : Value → Prop
  | .null => True
  | .bool b => b = false
  | .number _ n => n.exactValue? = some (.rational 0) ∨ n.exactValue? = none
  | .text s => s = ""
  | _ => False

/-- An integer that lies beyond the doubles. -/
def IsHuge (value : Value) : Prop :=
  ∃ id n, value = .number id n ∧ n.IsHuge

/-- The outcome is the one for true values, for false ones, or for those without a truth. -/
def Branches {α : Type} (value : Value) (whenTrue whenFalse undecided : α) (outcome : α) : Prop :=
  ¬ value.IsHuge ∧ ¬ value.Falsy ∧ outcome = whenTrue ∨
    ¬ value.IsHuge ∧ value.Falsy ∧ outcome = whenFalse ∨
    value.IsHuge ∧ outcome = undecided

theorem branches_isTruthy_number (id : Identity) (n : Number) :
    (number id n).Branches (.ok true) (.ok false) (.error .tooLarge) (number id n).isTruthy := by
  have hhuge : (number id n).IsHuge ↔ n.IsHuge :=
    ⟨by rintro ⟨id, n, ⟨⟩, h⟩; exact h, fun h => ⟨id, n, rfl, h⟩⟩
  have htruthy : (number id n).isTruthy =
      if n.isZero then .ok false else do return !Binary64.isNaN (← n.toFloat) := rfl
  rw [htruthy]
  by_cases hzero : n.isZero = true
  · have hexact := Number.isZero_iff.mp hzero
    exact .inr (.inl ⟨mt hhuge.mp (Number.not_isHuge_of_isZero hzero), .inl hexact, if_pos hzero⟩)
  rw [if_neg hzero]
  by_cases h : n.IsHuge
  · refine .inr (.inr ⟨hhuge.mpr h, ?_⟩)
    rw [Number.toFloat_of_isHuge h]
    rfl
  · obtain ⟨x, hx⟩ := Number.toFloat_of_not_isHuge h
    have hnan := Number.isNaN_iff_of_toFloat hx
    rw [hx]
    cases hisNaN : Binary64.isNaN x with
    | true =>
      exact .inr (.inl ⟨mt hhuge.mp h, .inr (hnan.mp hisNaN), congrArg (Except.ok !·) hisNaN⟩)
    | false =>
      refine .inl ⟨mt hhuge.mp h, ?_, congrArg (Except.ok !·) hisNaN⟩
      rintro (hexact | hexact)
      · exact hzero (Number.isZero_iff.mpr hexact)
      · rw [hnan.mpr hexact] at hisNaN
        cases hisNaN

/-- A value counts as true or as false, unless it is an integer beyond the doubles. -/
theorem branches_isTruthy (value : Value) :
    value.Branches (.ok true) (.ok false) (.error .tooLarge) value.isTruthy := by
  cases value with
  | number id n => exact branches_isTruthy_number id n
  | null => exact .inr (.inl ⟨nofun, trivial, rfl⟩)
  | bool b =>
    cases b
    · exact .inr (.inl ⟨nofun, rfl, rfl⟩)
    · exact .inl ⟨nofun, nofun, rfl⟩
  | text s =>
    by_cases hs : s = ""
    · exact .inr (.inl ⟨nofun, hs, by simp [isTruthy, hs]⟩)
    · exact .inl ⟨nofun, hs, by simp [isTruthy, hs]⟩
  | _ => exact .inl ⟨nofun, id, rfl⟩

theorem Branches.map {α β : Type} {value : Value} {whenTrue whenFalse undecided outcome : α}
    (h : value.Branches whenTrue whenFalse undecided outcome) (f : α → β) :
    value.Branches (f whenTrue) (f whenFalse) (f undecided) (f outcome) := by
  rcases h with ⟨hhuge, htrue, rfl⟩ | ⟨hhuge, hfalse, rfl⟩ | ⟨hhuge, rfl⟩
  · exact .inl ⟨hhuge, htrue, rfl⟩
  · exact .inr (.inl ⟨hhuge, hfalse, rfl⟩)
  · exact .inr (.inr ⟨hhuge, rfl⟩)

end Value

/-! ## Compiling parts -/

namespace Whitelist

variable {whitelist : Whitelist} {path : Path}

/-- The node compiles to the closure, whatever was warned of before. -/
def CompilesTo (whitelist : Whitelist) (path : Path) (closure : Closure) : Prop :=
  ∀ ws, ∃ ws', (whitelist.compile path).run ws = (.ok closure, ws')

theorem compilesTo_of_run {closure : Closure} {ws ws' : List Warning}
    (h : (whitelist.compile path).run ws = (.ok closure, ws')) :
    whitelist.CompilesTo path closure := by
  obtain ⟨r, more, hrun, -⟩ := yields_compile whitelist path
  rw [hrun] at h
  obtain rfl : r = .ok closure := congrArg Prod.fst h
  exact fun ws => ⟨ws ++ more, hrun ws⟩

/-- Parts are compiled below their node, wherever that stands. -/
theorem compilePart_root (slot : String) (part : Value) :
    whitelist.compilePart path slot part = whitelist.compilePart (.root path.node) slot part := by
  unfold compilePart
  cases part <;> rfl

theorem compileRoot_root (slot : String) (target : Value) :
    whitelist.compileRoot path slot target =
      whitelist.compileRoot (.root path.node) slot target := by
  unfold compileRoot
  rw [compilePart_root]

theorem compileEach_root (slot : String) (parts : List Value) :
    whitelist.compileEach path slot parts = whitelist.compileEach (.root path.node) slot parts := by
  induction parts with
  | nil => unfold compileEach; rfl
  | cons part parts ih =>
    unfold compileEach
    rw [compilePart_root, ih]

theorem compileParts_root (slot : String) (parts : Value) :
    whitelist.compileParts path slot parts =
      whitelist.compileParts (.root path.node) slot parts := by
  unfold compileParts
  split
  · exact compileEach_root ..
  · exact compileEach_root ..
  · rfl

theorem compileHoles_root (elements : List Value) :
    whitelist.compileHoles path elements = whitelist.compileHoles (.root path.node) elements := by
  induction elements with
  | nil => unfold compileHoles; rfl
  | cons element elements ih =>
    unfold compileHoles
    rw [compilePart_root, ih]

theorem compileElements_root (elements : Value) :
    whitelist.compileElements path elements =
      whitelist.compileElements (.root path.node) elements := by
  unfold compileElements
  split
  · exact compileHoles_root _
  · exact compileHoles_root _
  · rfl

/-- A node compiles alike wherever it stands, except where it stands for its own name. -/
theorem compile_root (h : path.isOwnName = .ok false) :
    whitelist.compile path = whitelist.compile (.root path.node) := by
  have hroot : (Path.root path.node).isOwnName = .ok false := rfl
  conv_lhs => unfold compile
  conv_rhs => unfold compile
  simp only [Path.node_root, h, hroot, @compilePart_root whitelist path,
    @compileRoot_root whitelist path, @compileParts_root whitelist path,
    @compileElements_root whitelist path]
  split <;> try rfl
  congr 1
  funext target
  cases target <;> rfl

end Whitelist

/-! ## Branching nodes -/

namespace Node

/-- The slot of a node holds the part. -/
def Holds (node : Node) (slot : String) (part : Node) : Prop :=
  ∃ id, node.field? slot = some (.node id part)

structure IsChoice (node test consequent alternate : Node) : Prop where
  kind : node.kind = some "ConditionalExpression"
  test : node.Holds "test" test
  consequent : node.Holds "consequent" consequent
  alternate : node.Holds "alternate" alternate

structure IsNegation (node argument : Node) : Prop where
  kind : node.kind = some "UnaryExpression"
  operator : node.field? "operator" = some (.text "!")
  argument : node.Holds "argument" argument

structure IsConnective (operator : LogicalOperator) (node left right : Node) : Prop where
  kind : node.kind = some "BinaryExpression"
  operator : node.field? "operator" = some (.text operator.symbol)
  left : node.Holds "left" left
  right : node.Holds "right" right

end Node

theorem Path.isOwnName_down_of_kind {path : Path} (hkey : path.node.kind ≠ some "Property")
    (hproperty : path.node.kind ≠ some "MemberExpression") (slot : String) (part : Node) :
    (path.down slot part).isOwnName = .ok false := by
  have hkey' : ¬ (path.down slot part).isAt "Property.key" = true := by
    rw [isAt_key]
    rintro ⟨above, ⟨⟩, hkind, -⟩
    exact hkey hkind
  have hproperty' : ¬ (path.down slot part).isAt "MemberExpression.property" = true := by
    rw [isAt_property]
    rintro ⟨above, ⟨⟩, hkind, -⟩
    exact hproperty hkind
  rw [isOwnName, if_neg hkey', if_neg hproperty']

namespace Whitelist

variable {whitelist : Whitelist} {path : Path} {test left right argument : Node}
  {ft fc fa : Closure}

/-- A part compiles in its slot as it compiles alone. -/
theorem CompilesTo.inSlot {part : Node} {closure : Closure}
    (h : whitelist.CompilesTo (.root part) closure) {slot : String}
    (hslot : path.node.Holds slot part) (hkey : path.node.kind ≠ some "Property")
    (hproperty : path.node.kind ≠ some "MemberExpression") (ws : List Warning) :
    ∃ value smaller ws', path.node.get slot = .ok ⟨value, smaller⟩ ∧
      (whitelist.compilePart path slot value).run ws = (.ok closure, ws') := by
  obtain ⟨id, hfield⟩ := hslot
  obtain ⟨ws', hrun⟩ := h ws
  refine ⟨_, _, ws', Node.get_of_field? hfield, ?_⟩
  unfold compilePart
  rw [compile_root (Path.isOwnName_down_of_kind hkey hproperty slot part)]
  exact hrun

theorem CompilesTo.choice {test consequent alternate : Node}
    (h : path.node.IsChoice test consequent alternate)
    (ht : whitelist.CompilesTo (.root test) ft) (hc : whitelist.CompilesTo (.root consequent) fc)
    (ha : whitelist.CompilesTo (.root alternate) fa) :
    whitelist.CompilesTo path (Closure.choice ft fc fa) := by
  intro ws
  have hkey : path.node.kind ≠ some "Property" := by rw [h.kind]; decide
  have hproperty : path.node.kind ≠ some "MemberExpression" := by rw [h.kind]; decide
  obtain ⟨t, ht', ws₁, hgett, hrunt⟩ := ht.inSlot h.test hkey hproperty ws
  obtain ⟨c, hc', ws₂, hgetc, hrunc⟩ := hc.inSlot h.consequent hkey hproperty ws₁
  obtain ⟨a, ha', ws₃, hgeta, hruna⟩ := ha.inSlot h.alternate hkey hproperty ws₂
  refine ⟨ws₃, ?_⟩
  unfold compile
  simp only [h.kind, Option.getD_some, hgett, hgetc, hgeta, Gate.ofExcept, pure_bind, run_bind,
    hrunt, hrunc, hruna, run_pure]

theorem CompilesTo.negation (h : path.node.IsNegation argument)
    (ha : whitelist.CompilesTo (.root argument) fa) :
    whitelist.CompilesTo path (Closure.unary .not fa) := by
  intro ws
  have hkey : path.node.kind ≠ some "Property" := by rw [h.kind]; decide
  have hproperty : path.node.kind ≠ some "MemberExpression" := by rw [h.kind]; decide
  obtain ⟨a, ha', ws₁, hgeta, hruna⟩ := ha.inSlot h.argument hkey hproperty ws
  refine ⟨ws₁, ?_⟩
  have hsymbol : UnaryOperator.ofSymbol? "!" = some .not := by decide
  unfold compile
  simp only [h.kind, Option.getD_some, Node.get_of_field? h.operator, hgeta, Gate.ofExcept,
    pure_bind, operatorOf, hsymbol, run_bind, hruna, run_pure]

theorem CompilesTo.connective {operator : LogicalOperator}
    (h : path.node.IsConnective operator left right)
    (ht : whitelist.CompilesTo (.root left) ft) (ha : whitelist.CompilesTo (.root right) fa) :
    whitelist.CompilesTo path (Closure.logical operator ft fa) := by
  intro ws
  have hkey : path.node.kind ≠ some "Property" := by rw [h.kind]; decide
  have hproperty : path.node.kind ≠ some "MemberExpression" := by rw [h.kind]; decide
  obtain ⟨t, ht', ws₁, hgett, hrunt⟩ := ht.inSlot h.left hkey hproperty ws
  obtain ⟨a, ha', ws₂, hgeta, hruna⟩ := ha.inSlot h.right hkey hproperty ws₁
  refine ⟨ws₂, ?_⟩
  have hlogical : LogicalOperator.ofSymbol? operator.symbol = some operator := by
    cases operator <;> decide
  have hbinary : BinaryOperator.ofSymbol? operator.symbol = none := by cases operator <;> decide
  unfold compile
  simp only [h.kind, Option.getD_some, Node.get_of_field? h.operator, hgett, hgeta, Gate.ofExcept,
    pure_bind, operatorOf, hlogical, hbinary, Option.isNone_some, Bool.false_and,
    Bool.false_eq_true, if_false, run_bind, hrunt, hruna, run_pure]

end Whitelist

/-! ## Branches -/

namespace Closure

variable {test consequent alternate left right argument : Closure}

/-- How an evaluation ends that asks for a truth that there is not. -/
def undecided (w : World) : Except Failure Value × World :=
  (.error (.bare (.number .tooLarge)), w)

/-- Once `first` has yielded a value, the closure goes on as the truth of the value tells. -/
def BranchesOn (closure first : Closure) (whenTrue whenFalse : Value → Closure) : Prop :=
  ∀ env w w₁ value, (first env).run w = (.ok value, w₁) →
    value.Branches ((whenTrue value env).run w₁) ((whenFalse value env).run w₁) (undecided w₁)
      ((closure env).run w)

theorem branchesOn_choice : (choice test consequent alternate).BranchesOn test
    (fun _ => consequent) (fun _ => alternate) := by
  intro env w w₁ value h
  have hrun : (choice test consequent alternate env).run w =
      (do if ← Eval.ofNumeric value.isTruthy then consequent env
          else alternate env : Eval Value).run w₁ := by
    rw [choice, run_bind, h]
  rw [hrun]
  exact value.branches_isTruthy.map fun truth =>
    (do if ← Eval.ofNumeric truth then consequent env else alternate env : Eval Value).run w₁

theorem branchesOn_negation : (unary .not argument).BranchesOn argument
    (fun _ _ => pure (.bool false)) (fun _ _ => pure (.bool true)) := by
  intro env w w₁ value h
  have hrun : (unary .not argument env).run w =
      (do Eval.settle (← Eval.ofNumeric (do return .bool !(← value.isTruthy))) : Eval Value).run
        w₁ := by
    rw [unary, run_bind, h]
    rfl
  rw [hrun]
  exact value.branches_isTruthy.map fun truth =>
    (do Eval.settle (← Eval.ofNumeric (do return .bool !(← truth))) : Eval Value).run w₁

theorem run_logical (operator : LogicalOperator) {env : Env} {w w₁ : World} {value : Value}
    (h : (left env).run w = (.ok value, w₁)) :
    (logical operator left right env).run w =
      (do if operator.needsRight (← Eval.ofNumeric value.isTruthy) then right env
          else return value : Eval Value).run w₁ := by
  rw [logical, run_bind, h]

theorem branchesOn_and : (logical .and left right).BranchesOn left
    (fun _ => right) (fun value _ => pure value) := by
  intro env w w₁ value h
  rw [run_logical .and h]
  exact value.branches_isTruthy.map fun truth =>
    (do if LogicalOperator.and.needsRight (← Eval.ofNumeric truth) then right env
        else return value : Eval Value).run w₁

theorem branchesOn_or : (logical .or left right).BranchesOn left
    (fun value _ => pure value) (fun _ => right) := by
  intro env w w₁ value h
  rw [run_logical .or h]
  exact value.branches_isTruthy.map fun truth =>
    (do if LogicalOperator.or.needsRight (← Eval.ofNumeric truth) then right env
        else return value : Eval Value).run w₁

end Closure

namespace Whitelist

/-- Every value but an integer beyond the doubles counts as true or as false. Conditional
expressions, negations and logical operators branch on the value of their first part by that, and
they all break off if it is such an integer. -/
theorem branching_by_truth (whitelist : Whitelist) {t a b : Node} {ft fa fb : Closure}
    (ht : whitelist.CompilesTo (.root t) ft) (ha : whitelist.CompilesTo (.root a) fa)
    (hb : whitelist.CompilesTo (.root b) fb) :
    (∀ value : Value, value.Branches (.ok true) (.ok false) (.error .tooLarge) value.isTruthy) ∧
      (∀ path : Path, path.node.IsChoice t a b → ∃ f, whitelist.CompilesTo path f ∧
        f.BranchesOn ft (fun _ => fa) (fun _ => fb)) ∧
      (∀ path : Path, path.node.IsNegation t → ∃ f, whitelist.CompilesTo path f ∧
        f.BranchesOn ft (fun _ _ => pure (.bool false)) (fun _ _ => pure (.bool true))) ∧
      (∀ path : Path, path.node.IsConnective .and t a → ∃ f, whitelist.CompilesTo path f ∧
        f.BranchesOn ft (fun _ => fa) (fun value _ => pure value)) ∧
      (∀ path : Path, path.node.IsConnective .or t a → ∃ f, whitelist.CompilesTo path f ∧
        f.BranchesOn ft (fun value _ => pure value) (fun _ => fa)) := by
  refine ⟨Value.branches_isTruthy, ?_, ?_, ?_, ?_⟩
  · exact fun path h => ⟨_, .choice h ht ha hb, Closure.branchesOn_choice⟩
  · exact fun path h => ⟨_, .negation h ht, Closure.branchesOn_negation⟩
  · exact fun path h => ⟨_, .connective h ht ha, Closure.branchesOn_and⟩
  · exact fun path h => ⟨_, .connective h ht ha, Closure.branchesOn_or⟩

/-- The tree of an integer. -/
def integerLiteral (n : Int) : Node :=
  .make "Literal" none [("value", .number 1 (.int n))]

/-- The tree of `10 ** 400 ? 1 : 2` with the power written out. -/
def hugeChoice : Node :=
  .make "ConditionalExpression" none
    [("test", .node .unassigned (integerLiteral (10 ^ 400))),
      ("consequent", .node .unassigned (integerLiteral 1)),
      ("alternate", .node .unassigned (integerLiteral 2))]

theorem compilesTo_integerLiteral (n : Int) :
    empty.CompilesTo (.root (integerLiteral n)) (Closure.constant (.number 1 (.int n))) := by
  have hrun : (empty.compile (.root (integerLiteral n))).run [] =
      (.ok (Closure.constant (.number 1 (.int n))), []) := by
    unfold compile
    rfl
  exact compilesTo_of_run hrun

theorem branching_by_truth_hugeChoice : ∃ f, empty.CompilesTo (.root hugeChoice) f ∧
    ∀ env w, (f env).run w = (.error (.bare (.number .tooLarge)), w) := by
  have h := (branching_by_truth empty (compilesTo_integerLiteral (10 ^ 400))
    (compilesTo_integerLiteral 1) (compilesTo_integerLiteral 2)).2.1
  obtain ⟨f, hf, hbranches⟩ := h (.root hugeChoice)
    ⟨rfl, ⟨_, rfl⟩, ⟨_, rfl⟩, ⟨_, rfl⟩⟩
  have hhuge : (Value.number 1 (.int (10 ^ 400))).IsHuge :=
    ⟨1, _, rfl, Number.isHuge_int.mpr (by decide +kernel)⟩
  refine ⟨f, hf, fun env w => ?_⟩
  rcases hbranches env w w _ rfl with ⟨hnot, -⟩ | ⟨hnot, -⟩ | ⟨-, hrun⟩
  · exact absurd hhuge hnot
  · exact absurd hhuge hnot
  · exact hrun

end Whitelist

end GatedExpr
