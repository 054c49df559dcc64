import Mathlib.Data.List.Forall2
import GatedExpr.Closure.Basic
import GatedExpr.Proofs.Closure.Target

/-! # Closures that implement nodes

A closure implements a task if it runs to exactly the outcomes and worlds that the task evaluates
to. Each kind of closure implements its kind of node if its parts implement the parts of the node.
-/

namespace GatedExpr

namespace Path.Part

variable {p q q' : Path} {slot : String}

theorem unique (h : p.Part slot q) (h' : p.Part slot q') : q' = q := by
  obtain ⟨id, tree, hf, rfl⟩ := h
  obtain ⟨id', tree', hf', rfl⟩ := h'
  rw [hf] at hf'
  cases hf'
  rfl

end Path.Part

namespace Semantics

open GatedExpr.Computation

/-- The closure runs as the task evaluates, whatever the bindings, options and world are. -/
def Implements (whitelist : Whitelist) (closure : Closure) (task : Task) : Prop :=
  ∀ env w r w', (closure env).run w = (r, w') ↔ Evaluates whitelist env task w r w'

variable {whitelist : Whitelist} {p : Path}

theorem run_settle (value : Value) (w : World) :
    ∃ v w', (Eval.settle value).run w = (.ok v, w') :=
  ⟨_, _, rfl⟩

theorem Implements.evaluates {closure : Closure} {task : Task}
    (h : Implements whitelist closure task) {env : Env} {w w' : World} {r : Except Failure Value}
    (hr : (closure env).run w = (r, w')) :
    Evaluates whitelist env task w r w' :=
  (h env w r w').mp hr

theorem Implements.run {closure : Closure} {task : Task} (h : Implements whitelist closure task)
    {env : Env} {w w' : World} {r : Except Failure Value}
    (he : Evaluates whitelist env task w r w') : (closure env).run w = (r, w') :=
  (h env w r w').mpr he

theorem implements_hole : Implements whitelist (Closure.constant .null) .hole := by
  intro env w r w'
  constructor
  · rintro ⟨⟩
    exact .hole
  · rintro ⟨⟩
    rfl

theorem implements_object {name : String} {accessor : Accessor}
    (hl : whitelist.objects.lookup name = some accessor) :
    Implements whitelist accessor (.object name) := by
  intro env w r w'
  constructor
  · intro h
    exact .object hl h
  · intro h
    cases h with
    | object hl' h =>
      rw [hl] at hl'
      cases hl'
      exact h

theorem implements_literal {value : Value} (hk : p.node.kind = some "Literal")
    (hv : p.node.field? "value" = some value) :
    Implements whitelist (Closure.constant value) (.node p) := by
  intro env w r w'
  constructor
  · intro h
    obtain ⟨v, w₁, hs⟩ := run_settle value w
    rw [Closure.constant, hs] at h
    cases h
    exact .literal hk hv hs
  · intro h
    cases h with
    | literal _ hv' h =>
      rw [hv] at hv'
      cases hv'
      exact h
    | _ => simp_all

theorem implements_ownName {name : Value} (hk : p.node.kind = some "Identifier")
    (ho : p.NamesItself) (hn : p.node.field? "name" = some name) :
    Implements whitelist (Closure.constant name) (.node p) := by
  intro env w r w'
  constructor
  · intro h
    obtain ⟨v, w₁, hs⟩ := run_settle name w
    rw [Closure.constant, hs] at h
    cases h
    exact .ownName hk ho hn hs
  · intro h
    cases h with
    | ownName _ _ hn' h =>
      rw [hn] at hn'
      cases hn'
      exact h
    | _ => simp_all

theorem run_lookup (node : Node) (name : Value) (env : Env) (w : World) :
    (∃ s v, name = .text s ∧ env.bindings.lookup s = some v ∧
      (Closure.lookup node name env).run w = (.ok v, w)) ∨
    ((∀ s, name = .text s → env.bindings.lookup s = none) ∧
      (Closure.lookup node name env).run w =
        (.error { fault := if name.isKey then .unbound name else .unhashable, node := some node },
          w)) := by
  rw [Closure.lookup, Eval.run_located]
  cases name with
  | text s =>
    cases hl : env.bindings.lookup s with
    | some v =>
      refine .inl ⟨s, v, rfl, hl, ?_⟩
      simp only [Accessor.fromBindings, hl, run_pure]
    | none =>
      refine .inr ⟨fun s' he => by cases he; exact hl, ?_⟩
      simp only [Accessor.fromBindings, hl, Eval.run_fail]
      rfl
  | _ => exact .inr ⟨nofun, rfl⟩

theorem implements_lookup {name : Value} (hk : p.node.kind = some "Identifier")
    (ho : ¬ p.NamesItself) (hn : p.node.field? "name" = some name) :
    Implements whitelist (Closure.lookup p.node name) (.node p) := by
  intro env w r w'
  rcases run_lookup p.node name env w with ⟨s, v, rfl, hl, hrun⟩ | ⟨hl, hrun⟩
  · rw [hrun]
    constructor
    · rintro ⟨⟩
      exact .bound hk ho hn hl
    · intro h
      cases h with
      | unbound _ _ hn' hl' =>
        rw [hn] at hn'
        cases hn'
        rw [hl' _ rfl] at hl
        cases hl
      | _ => simp_all
  · rw [hrun]
    constructor
    · rintro ⟨⟩
      exact .unbound hk ho hn hl
    · intro h
      cases h with
      | bound _ _ hn' hl' =>
        rw [hn] at hn'
        cases hn'
        rw [hl _ rfl] at hl'
        cases hl'
      | _ => simp_all

/-! ## Choices and logical operators -/

theorem implements_choice {t c a : Path} {test consequent alternate : Closure}
    (hk : p.node.kind = some "ConditionalExpression") (ht : p.Part "test" t)
    (hc : p.Part "consequent" c) (ha : p.Part "alternate" a)
    (it : Implements whitelist test (.node t)) (ic : Implements whitelist consequent (.node c))
    (ia : Implements whitelist alternate (.node a)) :
    Implements whitelist (Closure.choice test consequent alternate) (.node p) := by
  intro env w r w'
  simp only [Closure.choice, run_bind]
  constructor
  · intro h
    cases hr : (test env).run w with
    | mk o w₁ =>
      rw [hr] at h
      cases o with
      | error e =>
        cases h
        exact .choiceFails hk ht (it.evaluates hr)
      | ok v =>
        cases hv : v.isTruthy with
        | error cause =>
          simp only [hv, Eval.ofNumeric, Eval.run_fail] at h
          cases h
          exact .choiceUndecided hk ht (it.evaluates hr) hv
        | ok b =>
          simp only [hv, Eval.ofNumeric, run_pure] at h
          cases b with
          | true => exact .consequent hk ht hc (it.evaluates hr) hv (ic.evaluates h)
          | false => exact .alternate hk ht ha (it.evaluates hr) hv (ia.evaluates h)
  · intro h
    cases h with
    | choiceFails _ ht' he =>
      rw [ht.unique ht'] at he
      rw [it.run he]
    | choiceUndecided _ ht' he hv =>
      rw [ht.unique ht'] at he
      simp only [it.run he, hv, Eval.ofNumeric, Eval.run_fail]
    | consequent _ ht' hc' he hv hb =>
      rw [ht.unique ht'] at he
      rw [hc.unique hc'] at hb
      simp only [it.run he, hv, Eval.ofNumeric, run_pure]
      exact ic.run hb
    | alternate _ ht' ha' he hv hb =>
      rw [ht.unique ht'] at he
      rw [ha.unique ha'] at hb
      simp only [it.run he, hv, Eval.ofNumeric, run_pure]
      exact ia.run hb
    | _ => simp_all

theorem logicalOperator_cases {symbol : String} {operator : LogicalOperator}
    (h : LogicalOperator.ofSymbol? symbol = some operator) :
    symbol = "&&" ∧ operator = .and ∨ symbol = "||" ∧ operator = .or := by
  have hs := List.find?_some h
  cases operator <;> simp_all [LogicalOperator.symbol]

theorem not_logical_of_binary {symbol : String} {operator : BinaryOperator}
    (h : BinaryOperator.ofSymbol? symbol = some operator) : symbol ≠ "&&" ∧ symbol ≠ "||" := by
  have hs := List.find?_some h
  rw [beq_iff_eq] at hs
  subst hs
  cases operator <;> decide

theorem decides_iff {symbol : String} {operator : LogicalOperator}
    (hs : LogicalOperator.ofSymbol? symbol = some operator) (v : Value) :
    Decides symbol v ↔ ∃ b, v.isTruthy = .ok b ∧ operator.needsRight b = false := by
  rcases logicalOperator_cases hs with ⟨rfl, rfl⟩ | ⟨rfl, rfl⟩ <;>
    simp [Decides, LogicalOperator.needsRight]

theorem leavesOpen_iff {symbol : String} {operator : LogicalOperator}
    (hs : LogicalOperator.ofSymbol? symbol = some operator) (v : Value) :
    LeavesOpen symbol v ↔ ∃ b, v.isTruthy = .ok b ∧ operator.needsRight b = true := by
  rcases logicalOperator_cases hs with ⟨rfl, rfl⟩ | ⟨rfl, rfl⟩ <;>
    simp [LeavesOpen, LogicalOperator.needsRight]

theorem implements_logical {l q : Path} {symbol : String} {operator : LogicalOperator}
    {left right : Closure} (hk : p.node.kind = some "BinaryExpression")
    (ho : p.node.field? "operator" = some (.text symbol))
    (hs : LogicalOperator.ofSymbol? symbol = some operator) (hl : p.Part "left" l)
    (hq : p.Part "right" q) (il : Implements whitelist left (.node l))
    (iq : Implements whitelist right (.node q)) :
    Implements whitelist (Closure.logical operator left right) (.node p) := by
  have hsym : symbol = "&&" ∨ symbol = "||" :=
    (logicalOperator_cases hs).imp And.left And.left
  have hno : ∀ {symbol' : String} {other : BinaryOperator},
      p.node.field? "operator" = some (.text symbol') →
        BinaryOperator.ofSymbol? symbol' ≠ some other := by
    intro symbol' other ho' hb
    rw [ho] at ho'
    cases ho'
    exact hsym.elim (not_logical_of_binary hb).1 (not_logical_of_binary hb).2
  intro env w r w'
  simp only [Closure.logical, run_bind]
  constructor
  · intro h
    cases hr : (left env).run w with
    | mk o w₁ =>
      rw [hr] at h
      cases o with
      | error e =>
        cases h
        exact .logicalFails hk ho hsym hl (il.evaluates hr)
      | ok v =>
        cases hv : v.isTruthy with
        | error cause =>
          simp only [hv, Eval.ofNumeric, Eval.run_fail] at h
          cases h
          exact .logicalUndecided hk ho hsym hl (il.evaluates hr) hv
        | ok b =>
          simp only [hv, Eval.ofNumeric, run_pure] at h
          cases hn : operator.needsRight b with
          | true =>
            rw [if_pos hn] at h
            exact .logicalRight hk ho hl hq (il.evaluates hr)
              ((leavesOpen_iff hs v).mpr ⟨b, hv, hn⟩) (iq.evaluates h)
          | false =>
            rw [if_neg (by simp [hn])] at h
            cases h
            exact .logicalLeft hk ho hl (il.evaluates hr) ((decides_iff hs v).mpr ⟨b, hv, hn⟩)
  · intro h
    cases h with
    | logicalFails _ _ _ hl' he =>
      rw [hl.unique hl'] at he
      rw [il.run he]
    | logicalUndecided _ _ _ hl' he hv =>
      rw [hl.unique hl'] at he
      simp only [il.run he, hv, Eval.ofNumeric, Eval.run_fail]
    | logicalLeft _ ho' hl' he hd =>
      rw [ho] at ho'
      cases ho'
      rw [hl.unique hl'] at he
      obtain ⟨b, hv, hn⟩ := (decides_iff hs _).mp hd
      simp only [il.run he, hv, Eval.ofNumeric, run_pure, hn, Bool.false_eq_true, if_false]
    | logicalRight _ ho' hl' hq' he hd hb =>
      rw [ho] at ho'
      cases ho'
      rw [hl.unique hl'] at he
      rw [hq.unique hq'] at hb
      obtain ⟨b, hv, hn⟩ := (leavesOpen_iff hs _).mp hd
      simp only [il.run he, hv, Eval.ofNumeric, run_pure, hn, if_true]
      exact iq.run hb
    | binary _ ho' hb => exact absurd hb (hno ho')
    | binaryFails _ ho' hb => exact absurd hb (hno ho')
    | binaryUndefined _ ho' hb => exact absurd hb (hno ho')
    | _ => simp_all

/-! ## Parts in order -/

theorem inOrder_pair_ok {R : Task → World → Except Failure Value → World → Prop} {s t : Task}
    {w w₂ : World} {vs : List Value} :
    InOrder R [s, t] w (.ok vs) w₂ ↔
      ∃ a b w₁, R s w (.ok a) w₁ ∧ R t w₁ (.ok b) w₂ ∧ vs = [a, b] := by
  constructor
  · intro h
    cases h with
    | next hs h =>
      cases h with
      | next ht h =>
        cases h
        exact ⟨_, _, _, hs, ht, rfl⟩
  · rintro ⟨a, b, w₁, hs, ht, rfl⟩
    exact .next hs (.next ht .done)

theorem inOrder_pair_error {R : Task → World → Except Failure Value → World → Prop} {s t : Task}
    {w w₂ : World} {e : Failure} :
    InOrder R [s, t] w (.error e) w₂ ↔
      R s w (.error e) w₂ ∨ ∃ a w₁, R s w (.ok a) w₁ ∧ R t w₁ (.error e) w₂ := by
  constructor
  · intro h
    cases h with
    | fails hs => exact .inl hs
    | failsLater hs h =>
      cases h with
      | fails ht => exact .inr ⟨_, _, hs, ht⟩
      | failsLater _ h => cases h
  · rintro (hs | ⟨a, w₁, hs, ht⟩)
    · exact .fails hs
    · exact .failsLater hs (.fails ht)

/-- Closures that run one after the other do tasks in order. -/
theorem run_mapM_iff {closures : List Closure} {tasks : List Task}
    (h : List.Forall₂ (Implements whitelist) closures tasks) (env : Env) :
    ∀ {w w' : World} {r : Except Failure (List Value)},
      (closures.mapM (· env) : Eval (List Value)).run w = (r, w') ↔
        InOrder (Evaluates whitelist env) tasks w r w' := by
  induction h with
  | nil =>
    intro w w' r
    rw [List.mapM_nil, run_pure]
    constructor
    · rintro ⟨⟩
      exact .done
    · rintro ⟨⟩
      rfl
  | @cons closure task closures tasks hc _ ih =>
    intro w w' r
    rw [List.mapM_cons, run_bind]
    constructor
    · intro hr
      cases hv : (closure env).run w with
      | mk o w₁ =>
        rw [hv] at hr
        cases o with
        | error e =>
          cases hr
          exact .fails (hc.evaluates hv)
        | ok v =>
          simp only [run_bind] at hr
          cases hvs : (closures.mapM (· env) : Eval (List Value)).run w₁ with
          | mk o w₂ =>
            rw [hvs] at hr
            cases o with
            | error e =>
              cases hr
              exact .failsLater (hc.evaluates hv) (ih.mp hvs)
            | ok vs =>
              cases hr
              exact .next (hc.evaluates hv) (ih.mp hvs)
    · intro he
      cases he with
      | next hv hvs => simp only [hc.run hv, run_bind, ih.mpr hvs, run_pure]
      | fails hv => rw [hc.run hv]
      | failsLater hv hvs => simp only [hc.run hv, run_bind, ih.mpr hvs]

/-- Closures of properties set the entries that their tasks yield. -/
theorem run_foldlM_iff {closures : List Closure} {tasks : List Task}
    (h : List.Forall₂ (Implements whitelist) closures tasks) (env : Env) :
    ∀ {entries : List (String × Value)} {w w' : World} {r : Except Failure (List (String × Value))},
      (closures.foldlM (Closure.addEntry env) entries).run w = (r, w') ↔
        Entries (Evaluates whitelist env) tasks entries w r w' := by
  induction h with
  | nil =>
    intro entries w w' r
    rw [List.foldlM_nil, run_pure]
    constructor
    · rintro ⟨⟩
      exact .done
    · rintro ⟨⟩
      rfl
  | @cons closure task closures tasks hc _ ih =>
    intro entries w w' r
    rw [List.foldlM_cons]
    simp only [Closure.addEntry, run_bind]
    constructor
    · intro hr
      cases hv : (closure env).run w with
      | mk o w₁ =>
        rw [hv] at hr
        cases o with
        | error e =>
          cases hr
          exact .fails (hc.evaluates hv)
        | ok v =>
          cases hp : v.asPair with
          | error fault =>
            simp only [hp, Eval.ofExcept, Eval.run_fail] at hr
            cases hr
            exact .notAPair (hc.evaluates hv) hp
          | ok pair =>
            simp only [hp, Eval.ofExcept, run_pure] at hr
            exact .set (hc.evaluates hv) hp (ih.mp hr)
    · intro he
      cases he with
      | set hv hp hr =>
        simp only [hc.run hv, hp, Eval.ofExcept, run_pure]
        exact ih.mpr hr
      | fails hv => simp only [hc.run hv]
      | notAPair hv hp => simp only [hc.run hv, hp, Eval.ofExcept, Eval.run_fail]

/-! ## Operators -/

theorem implements_binary {l q : Path} {symbol : String} {operator : BinaryOperator}
    {left right : Closure} (hk : p.node.kind = some "BinaryExpression")
    (ho : p.node.field? "operator" = some (.text symbol))
    (hs : BinaryOperator.ofSymbol? symbol = some operator) (hl : p.Part "left" l)
    (hq : p.Part "right" q) (il : Implements whitelist left (.node l))
    (iq : Implements whitelist right (.node q)) :
    Implements whitelist (Closure.binary operator left right) (.node p) := by
  have hno : ∀ {symbol' : String}, p.node.field? "operator" = some (.text symbol') →
      ¬ (symbol' = "&&" ∨ symbol' = "||") := by
    intro symbol' ho'
    rw [ho] at ho'
    cases ho'
    exact not_or.mpr (not_logical_of_binary hs)
  intro env w r w'
  simp only [Closure.binary, run_bind]
  constructor
  · intro h
    cases hr : (left env).run w with
    | mk o w₁ =>
      rw [hr] at h
      cases o with
      | error e =>
        cases h
        exact .binaryFails hk ho hs hl hq (inOrder_pair_error.mpr (.inl (il.evaluates hr)))
      | ok a =>
        cases hr' : (right env).run w₁ with
        | mk o w₂ =>
          simp only [hr'] at h
          cases o with
          | error e =>
            cases h
            exact .binaryFails hk ho hs hl hq
              (inOrder_pair_error.mpr (.inr ⟨a, w₁, il.evaluates hr, iq.evaluates hr'⟩))
          | ok b =>
            have hab : InOrder (Evaluates whitelist env) [.node l, .node q] w (.ok [a, b]) w₂ :=
              inOrder_pair_ok.mpr ⟨a, b, w₁, il.evaluates hr, iq.evaluates hr', rfl⟩
            cases hv : operator.apply a b with
            | error cause =>
              simp only [hv, Eval.ofNumeric, Eval.run_fail] at h
              cases h
              exact .binaryUndefined hk ho hs hl hq hab hv
            | ok c =>
              simp only [hv, Eval.ofNumeric, run_pure] at h
              obtain ⟨v, w₃, hset⟩ := run_settle c w₂
              rw [hset] at h
              cases h
              exact .binary hk ho hs hl hq hab hv hset
  · intro h
    cases h with
    | binaryFails _ _ _ hl' hq' he =>
      rw [hl.unique hl', hq.unique hq', inOrder_pair_error] at he
      rcases he with he | ⟨a, w₁, ha, he⟩
      · rw [il.run he]
      · simp only [il.run ha, iq.run he]
    | binaryUndefined _ ho' hs' hl' hq' hab hv =>
      rw [ho] at ho'
      cases ho'
      rw [hs] at hs'
      cases hs'
      rw [hl.unique hl', hq.unique hq', inOrder_pair_ok] at hab
      obtain ⟨a, b, w₁, ha, hb, hab⟩ := hab
      cases hab
      simp only [il.run ha, iq.run hb, hv, Eval.ofNumeric, Eval.run_fail]
    | binary _ ho' hs' hl' hq' hab hv hset =>
      rw [ho] at ho'
      cases ho'
      rw [hs] at hs'
      cases hs'
      rw [hl.unique hl', hq.unique hq', inOrder_pair_ok] at hab
      obtain ⟨a, b, w₁, ha, hb, hab⟩ := hab
      cases hab
      simp only [il.run ha, iq.run hb, hv, Eval.ofNumeric, run_pure]
      exact hset
    | logicalFails _ ho' hs' => exact absurd hs' (hno ho')
    | logicalUndecided _ ho' hs' => exact absurd hs' (hno ho')
    | logicalLeft _ ho' _ _ hd => exact absurd (hd.imp And.left And.left) (hno ho')
    | logicalRight _ ho' _ _ _ hd => exact absurd (hd.imp And.left And.left) (hno ho')
    | _ => simp_all

theorem implements_unary {q : Path} {symbol : String} {operator : UnaryOperator}
    {argument : Closure} (hk : p.node.kind = some "UnaryExpression")
    (ho : p.node.field? "operator" = some (.text symbol))
    (hs : UnaryOperator.ofSymbol? symbol = some operator) (hq : p.Part "argument" q)
    (iq : Implements whitelist argument (.node q)) :
    Implements whitelist (Closure.unary operator argument) (.node p) := by
  intro env w r w'
  simp only [Closure.unary, run_bind]
  constructor
  · intro h
    cases hr : (argument env).run w with
    | mk o w₁ =>
      rw [hr] at h
      cases o with
      | error e =>
        cases h
        exact .unaryFails hk ho hs hq (iq.evaluates hr)
      | ok a =>
        cases hv : operator.apply a with
        | error cause =>
          simp only [hv, Eval.ofNumeric, Eval.run_fail] at h
          cases h
          exact .unaryUndefined hk ho hs hq (iq.evaluates hr) hv
        | ok c =>
          simp only [hv, Eval.ofNumeric, run_pure] at h
          obtain ⟨v, w₂, hset⟩ := run_settle c w₁
          rw [hset] at h
          cases h
          exact .unary hk ho hs hq (iq.evaluates hr) hv hset
  · intro h
    cases h with
    | unaryFails _ _ _ hq' he =>
      rw [hq.unique hq'] at he
      rw [iq.run he]
    | unaryUndefined _ ho' hs' hq' he hv =>
      rw [ho] at ho'
      cases ho'
      rw [hs] at hs'
      cases hs'
      rw [hq.unique hq'] at he
      simp only [iq.run he, hv, Eval.ofNumeric, Eval.run_fail]
    | unary _ ho' hs' hq' he hv hset =>
      rw [ho] at ho'
      cases ho'
      rw [hs] at hs'
      cases hs'
      rw [hq.unique hq'] at he
      simp only [iq.run he, hv, Eval.ofNumeric, run_pure]
      exact hset
    | _ => simp_all

/-! ## Lists and maps -/

theorem implements_array {elements : Value} {closures : List Closure}
    (hk : p.node.kind = some "ArrayExpression") (he : p.node.field? "elements" = some elements)
    (ie : List.Forall₂ (Implements whitelist) closures (Task.ofItems p "elements" elements)) :
    Implements whitelist (Closure.array closures) (.node p) := by
  intro env w r w'
  simp only [Closure.array, run_bind]
  constructor
  · intro h
    cases hr : (closures.mapM (· env) : Eval (List Value)).run w with
    | mk o w₁ =>
      rw [hr] at h
      have ho := (run_mapM_iff ie env).mp hr
      cases o with
      | error e =>
        cases h
        exact .arrayFails hk he ho
      | ok items =>
        obtain ⟨v, w₂, hset⟩ := run_settle (.ofList items) w₁
        simp only [Eval.newList, hset] at h
        cases h
        exact .array hk he ho hset
  · intro h
    cases h with
    | arrayFails _ he' h =>
      rw [he] at he'
      cases he'
      rw [(run_mapM_iff ie env).mpr h]
    | array _ he' h hset =>
      rw [he] at he'
      cases he'
      rw [(run_mapM_iff ie env).mpr h]
      exact hset
    | _ => simp_all

theorem implements_map {properties : Value} {closures : List Closure}
    (hk : p.node.kind = some "ObjectExpression")
    (hf : p.node.field? "properties" = some properties)
    (ip : List.Forall₂ (Implements whitelist) closures
      (Task.ofItems p "properties" properties)) :
    Implements whitelist (Closure.object closures) (.node p) := by
  intro env w r w'
  simp only [Closure.object, run_bind]
  constructor
  · intro h
    cases hr : (closures.foldlM (Closure.addEntry env) []).run w with
    | mk o w₁ =>
      rw [hr] at h
      have ho := (run_foldlM_iff ip env).mp hr
      cases o with
      | error e =>
        cases h
        exact .mapFails hk hf ho
      | ok entries =>
        obtain ⟨v, w₂, hset⟩ := run_settle (.ofEntries entries) w₁
        simp only [Eval.newMap, hset] at h
        cases h
        exact .map hk hf ho hset
  · intro h
    cases h with
    | mapFails _ hf' h =>
      rw [hf] at hf'
      cases hf'
      rw [(run_foldlM_iff ip env).mpr h]
    | map _ hf' h hset =>
      rw [hf] at hf'
      cases hf'
      rw [(run_foldlM_iff ip env).mpr h]
      exact hset
    | _ => simp_all

theorem implements_property {k q : Path} {key value : Closure}
    (hk : p.node.kind = some "Property") (hkey : p.Part "key" k) (hq : p.Part "value" q)
    (ik : Implements whitelist key (.node k)) (iq : Implements whitelist value (.node q)) :
    Implements whitelist (Closure.property key value) (.node p) := by
  intro env w r w'
  simp only [Closure.property, run_bind]
  constructor
  · intro h
    cases hr : (key env).run w with
    | mk o w₁ =>
      rw [hr] at h
      cases o with
      | error e =>
        cases h
        exact .propertyFails hk hkey hq (inOrder_pair_error.mpr (.inl (ik.evaluates hr)))
      | ok a =>
        cases hr' : (value env).run w₁ with
        | mk o w₂ =>
          simp only [hr'] at h
          cases o with
          | error e =>
            cases h
            exact .propertyFails hk hkey hq
              (inOrder_pair_error.mpr (.inr ⟨a, w₁, ik.evaluates hr, iq.evaluates hr'⟩))
          | ok b =>
            obtain ⟨v, w₃, hset⟩ := run_settle (.tuple .unassigned [a, b]) w₂
            simp only [hset] at h
            cases h
            exact .property hk hkey hq
              (inOrder_pair_ok.mpr ⟨a, b, w₁, ik.evaluates hr, iq.evaluates hr', rfl⟩) hset
  · intro h
    cases h with
    | propertyFails _ hkey' hq' he =>
      rw [hkey.unique hkey', hq.unique hq', inOrder_pair_error] at he
      rcases he with he | ⟨a, w₁, ha, he⟩
      · rw [ik.run he]
      · simp only [ik.run ha, iq.run he]
    | property _ hkey' hq' hab hset =>
      rw [hkey.unique hkey', hq.unique hq', inOrder_pair_ok] at hab
      obtain ⟨a, b, w₁, ha, hb, hab⟩ := hab
      cases hab
      simp only [ik.run ha, iq.run hb]
      exact hset
    | _ => simp_all

/-! ## Member reads and calls -/

theorem implements_member {k : Path} {object : Value} {t : Task} {target key : Closure}
    (hk : p.node.kind = some "MemberExpression") (ho : p.node.field? "object" = some object)
    (ht : Task.Root p "object" object t) (hp : p.Part "property" k)
    (it : Implements whitelist target t) (ik : Implements whitelist key (.node k)) :
    Implements whitelist (Closure.member p.node target key) (.node p) := by
  have hroot : ∀ {object' : Value} {t' : Task}, p.node.field? "object" = some object' →
      Task.Root p "object" object' t' → t' = t := by
    intro object' t' ho' ht'
    rw [ho] at ho'
    cases ho'
    exact ht.unique ht'
  intro env w r w'
  simp only [Closure.member, run_bind]
  constructor
  · intro h
    cases hr : (target env).run w with
    | mk o w₁ =>
      rw [hr] at h
      cases o with
      | error e =>
        cases h
        exact .memberTargetFails hk ho ht (it.evaluates hr)
      | ok a =>
        simp only [Eval.run_located, run_bind] at h
        cases hr' : (key env).run w₁ with
        | mk o w₂ =>
          simp only [hr'] at h
          cases o with
          | error e =>
            cases h
            exact .memberKeyFails hk ho ht hp (it.evaluates hr) (ik.evaluates hr')
          | ok b =>
            cases hv : a.getMember b with
            | error fault =>
              simp only [hv, Eval.ofExcept, Eval.run_fail] at h
              cases h
              exact .memberUnreadable hk ho ht hp (it.evaluates hr) (ik.evaluates hr') hv
            | ok read =>
              obtain ⟨v, w₃, hset⟩ := run_settle read w₂
              simp only [hv, Eval.ofExcept, run_pure, hset] at h
              cases h
              exact .member hk ho ht hp (it.evaluates hr) (ik.evaluates hr') hv hset
  · intro h
    cases h with
    | memberTargetFails _ ho' ht' he =>
      rw [hroot ho' ht'] at he
      rw [it.run he]
    | memberKeyFails _ ho' ht' hp' ha he =>
      rw [hroot ho' ht'] at ha
      rw [hp.unique hp'] at he
      simp only [it.run ha, Eval.run_located, run_bind, ik.run he]
    | memberUnreadable _ ho' ht' hp' ha hb hv =>
      rw [hroot ho' ht'] at ha
      rw [hp.unique hp'] at hb
      simp only [it.run ha, Eval.run_located, run_bind, ik.run hb, hv, Eval.ofExcept,
        Eval.run_fail]
      rfl
    | member _ ho' ht' hp' ha hb hv hset =>
      rw [hroot ho' ht'] at ha
      rw [hp.unique hp'] at hb
      simp only [it.run ha, Eval.run_located, run_bind, ik.run hb, hv, Eval.ofExcept, run_pure,
        hset]
    | _ => simp_all

theorem run_call (function : Function) (arguments : List Value) (w : World) :
    (function.call arguments).run w =
      (function.apply arguments).run
        { w with calls := { function := function.name, arguments } :: w.calls } :=
  rfl

theorem implements_call {function : Function} {receiver : Option Closure} {closures : List Closure}
    {tasks : List Task} (hk : p.node.kind = some "CallExpression")
    (hc : ∀ {function' tasks'}, Calls whitelist p function' tasks' ↔
      function' = function ∧ tasks' = tasks)
    (it : List.Forall₂ (Implements whitelist) (receiver.toList ++ closures) tasks) :
    Implements whitelist (Closure.call p.node function receiver closures) (.node p) := by
  have hcalls : Calls whitelist p function tasks := hc.mpr ⟨rfl, rfl⟩
  intro env w r w'
  simp only [Closure.call, run_bind]
  constructor
  · intro h
    cases hr : ((receiver.toList ++ closures).mapM (· env) : Eval (List Value)).run w with
    | mk o w₁ =>
      rw [hr] at h
      have ho := (run_mapM_iff it env).mp hr
      cases o with
      | error e =>
        cases h
        exact .callPartFails hk hcalls ho
      | ok arguments =>
        simp only [Eval.run_located, run_bind, run_call] at h
        cases ha : (function.apply arguments).run
            { w₁ with calls := { function := function.name, arguments } :: w₁.calls } with
        | mk o w₂ =>
          simp only [ha] at h
          cases o with
          | error e =>
            cases h
            exact .callFails hk hcalls ho ha
          | ok result =>
            obtain ⟨v, w₃, hset⟩ := run_settle result w₂
            simp only [hset] at h
            cases h
            exact .call hk hcalls ho ha hset
  · intro h
    cases h with
    | callPartFails _ hc' ho =>
      obtain ⟨rfl, rfl⟩ := hc.mp hc'
      simp only [(run_mapM_iff it env).mpr ho]
    | callFails _ hc' ho ha =>
      obtain ⟨rfl, rfl⟩ := hc.mp hc'
      simp only [(run_mapM_iff it env).mpr ho, Eval.run_located, run_bind, run_call, ha]
    | call _ hc' ho ha hset =>
      obtain ⟨rfl, rfl⟩ := hc.mp hc'
      simp only [(run_mapM_iff it env).mpr ho, Eval.run_located, run_bind, run_call, ha, hset]
    | _ => simp_all

end Semantics

end GatedExpr
