import GatedExpr.Proofs.Builtin.Effects
import GatedExpr.Proofs.Closure.Blame
import GatedExpr.Proofs.Expr.WellFormed
import GatedExpr.Proofs.Runner.Serving

/-! # What is reported

A report shows the node that failed, and nothing catches what printing it may fail with. So
handling a source reports every failure but those about a node with a span that cannot be
printed. Nodes of the expression grammar can all be printed, but other grammars build others.
-/

namespace GatedExpr

open GatedExpr.Computation

/-! ## Reports of failures -/

/-- A report about the node can be made: it is printed if it has a span. -/
def Node.Reportable (node : Node) : Prop :=
  node.span.isSome → ∃ text, (Value.ofTree node).printTree = .ok text

namespace Failure

variable {failure : Failure} {source : String} {fault : Fault} {report : ErrorReport}

/-- The failure is about a node with a span and not about an offset, and printing the node fails
in turn. -/
def FailsToPrint (failure : Failure) (fault : Fault) : Prop :=
  parseOffset? failure.fault = none ∧ ∃ node, failure.node = some node ∧ node.span.isSome ∧
    (Value.ofTree node).printTree = .error fault

theorem placeAndNode_eq_error :
    failure.placeAndNode = .error fault ↔ failure.FailsToPrint fault := by
  unfold placeAndNode FailsToPrint
  cases parseOffset? failure.fault with
  | some offset => simp
  | none =>
    cases failure.node with
    | none => simp
    | some node =>
      cases hs : node.span with
      | none => simp [hs]
      | some span =>
        cases hp : (Value.ofTree node).printTree with
        | ok text => simp [hs, hp, bind, Except.bind, pure, Except.pure]
        | error cause => simp [hs, hp, bind, Except.bind]

theorem report_eq_error (source : String) :
    failure.report source = .error fault ↔ failure.FailsToPrint fault := by
  rw [← placeAndNode_eq_error]
  unfold Failure.report
  obtain ⟨kind, text⟩ := kindAndText failure.fault
  cases failure.placeAndNode with
  | error cause =>
    change (Except.error cause : Except Fault ErrorReport) = .error fault ↔ _
    rw [Except.error.injEq, Except.error.injEq]
  | ok found =>
    obtain ⟨offset?, about⟩ := found
    cases offset? <;> exact ⟨nofun, nofun⟩

/-- Every fault has a kind. -/
theorem kind_ne_empty (fault : Fault) : (kindAndText fault).1 ≠ "" := by
  unfold kindAndText
  split
  · split <;> simp
  all_goals simp

theorem report_ne_empty (h : failure.report source = .ok report) :
    report.kind ≠ "" ∧ report.message ≠ "" := by
  have hkind := kind_ne_empty failure.fault
  unfold Failure.report at h
  generalize kindAndText failure.fault = named at h hkind
  obtain ⟨⟨offset?, about⟩, _, h⟩ := except_bind_eq_ok.mp h
  cases offset? <;> cases h
  all_goals exact ⟨hkind, by simp [hkind]⟩

theorem not_failsToPrint
    (h : ∀ node, failure.node = some node → node.Reportable) : ¬ failure.FailsToPrint fault := by
  rintro ⟨_, node, hn, hs, hp⟩
  obtain ⟨text, ht⟩ := h node hn hs
  cases ht.symm.trans hp

/-- What fails at a member whose property has no name is not reported. -/
theorem failsToPrint_of_nameless {cause : Fault} {span : Span} {v property : Value} {e : Expr}
    (hfault : parseOffset? fault = none) (hv : Depicts .value v e)
    (hproperty : property.readAttribute "name" = .error cause) :
    FailsToPrint
      { fault
        node := some (.make "MemberExpression" (some span)
          [("object", v), ("property", property), ("computed", .bool false)]) } cause := by
  refine ⟨hfault, _, rfl, rfl, ?_⟩
  rcases hv.printsOrHole with ⟨rfl, rfl⟩ | ⟨-, -, pv⟩
  · cases hv
  rw [Value.printTree]
  refine Value.bind_of_ok rfl <| Value.bind_of_ok rfl ?_
  refine Value.bind_part rfl fun _ => Value.bind_of_ok (Value.printOperand_eq hv pv _) ?_
  refine Value.bind_part rfl fun _ => Value.bind_part rfl fun _ => ?_
  simp only [hproperty]
  rfl

end Failure

/-! ## Nodes of the expression grammar -/

theorem Family.reportable_of_parse {source : List Char} {tree : Value}
    (h : expression.parse 0 source Grammar.rootKind = .ok tree) :
    tree.AllNodes Node.Reportable := by
  obtain ⟨e, hd⟩ := depicts_of_parse h
  intro inner ho _
  obtain ⟨role, p, hp⟩ := ho.depicted (.inl ⟨_, e, hd⟩)
  rcases hp.printsOrHole with ⟨hv, -⟩ | ⟨-, -, htext⟩
  · cases hv
  · exact ⟨_, htext⟩

/-! ## The standard whitelist -/

namespace Correspondence

/-- Every identity stands for itself alone. -/
def itself : Correspondence where
  same := Eq
  unique := eq_unique
  builtIn _ := rfl
  hidden := nothing
  hidden_private := nothing_private
  seeds _ _ := True
  calls := []
  otherCalls := []

theorem AlikeResults.blames {c : Correspondence} {P : Node → Prop} {act act' : Eval Value}
    (h : AlikeResults c act act') : Computation.Blames P Anything act := by
  cases h with
  | value => exact Eval.blames_ofExcept _
  | items => exact (Eval.blames_ofExcept _).bind fun _ _ => Eval.blames_settle _

end Correspondence

theorem Function.Plain.blames {function : Function} {P : Node → Prop} (h : function.Plain) :
    function.Blames P :=
  fun arguments =>
    (h .itself (Correspondence.alikeEach_self arguments fun _ _ => rfl)).blames

namespace Whitelist

variable {P : Node → Prop}

theorem blames_mathRandom : Library.mathRandom.Blames P := by
  intro arguments
  cases arguments with
  | nil => exact fun _ => trivial
  | cons => exact .bare

/-- The objects and functions of the standard whitelist blame no nodes. -/
theorem blames_standard : standard.Blames P where
  objects := by
    simp only [standard, List.forall_mem_cons, List.not_mem_nil, IsEmpty.forall_iff,
      implies_true, and_true]
    exact ⟨fun _ => .pure trivial, fun _ => .pure trivial⟩
  callees entry hm := by
    rcases Library.plain_of_mem_standard entry hm with rfl | hplain
    · exact blames_mathRandom
    · exact hplain.blames

end Whitelist

/-! ## Handled sources -/

namespace Runner

variable {runner : Runner} {source : String} {env : Env} {P : Node → Prop}

/-- Failures are about nodes of the parsed tree, or about those that the whitelist blames. -/
theorem blames_evaluateAnew (hw : runner.whitelist.Blames P)
    (ht : ∀ tree, runner.parse source = .ok tree → tree.AllNodes P) :
    Computation.Blames P Anything (runner.evaluateAnew source env) := by
  unfold evaluateAnew
  cases hp : runner.parse source with
  | error fault =>
    rw [form_of_parse_error hp]
    exact .bare
  | ok tree =>
    have hcompile := Whitelist.blames_compileTree hw (ht tree hp) []
    rw [form_of_parse hp]
    revert hcompile
    cases ((runner.whitelist.compileTree tree).run []).1 with
    | ok closure => exact fun h => h env
    | error failure => exact fun h => .throw h

variable {state : RunnerState}

theorem evaluate_blames (hk : runner.Keeps state.cache) (hw : runner.whitelist.Blames P)
    (ht : ∀ tree, runner.parse source = .ok tree → tree.AllNodes P) {failure : Failure}
    (h : ((runner.evaluate source env).run state).1 = .error failure) :
    ∀ node, failure.node = some node → P node := by
  obtain ⟨_, hrun, _⟩ := run_evaluate hk source env
  rw [hrun] at h
  exact (blames_evaluateAnew hw ht).of_run (Prod.ext h rfl)

theorem handle_eq_success {value : Value} :
    ((runner.handle source env).run state).1 = .ok (.success value) ↔
      ((runner.evaluate source env).run state).1 = .ok value := by
  rw [run_handle]
  cases ((runner.evaluate source env).run state).1 with
  | ok held => simp [reported]
  | error failure => cases hr : failure.report source <;> simp [reported, hr, Except.map]

theorem handle_eq_error {fault : Fault} :
    ((runner.handle source env).run state).1 = .error fault ↔
      ∃ failure, ((runner.evaluate source env).run state).1 = .error failure ∧
        failure.FailsToPrint fault := by
  rw [run_handle]
  cases ((runner.evaluate source env).run state).1 with
  | ok held => simp [reported]
  | error failure =>
    simp only [Except.error.injEq, exists_eq_left', ← Failure.report_eq_error source]
    cases hr : failure.report source <;> simp [reported, hr, Except.map]

theorem of_handle_eq_report {report : ErrorReport}
    (h : ((runner.handle source env).run state).1 = .ok (.error report)) :
    ∃ failure, ((runner.evaluate source env).run state).1 = .error failure ∧
      failure.report source = .ok report := by
  rw [run_handle] at h
  revert h
  cases ((runner.evaluate source env).run state).1 with
  | ok held => exact nofun
  | error failure =>
    cases hr : failure.report source with
    | error fault => simp [reported, hr, Except.map]
    | ok held =>
      rintro h
      simp only [reported, hr, Except.map, Except.ok.injEq, Report.error.injEq] at h
      exact ⟨failure, rfl, h ▸ hr⟩

/-- Failures about nodes of which reports can be made are reported. -/
theorem handle_isOk (hk : runner.Keeps state.cache)
    (hw : runner.whitelist.Blames Node.Reportable)
    (ht : ∀ tree, runner.parse source = .ok tree → tree.AllNodes Node.Reportable) :
    ∃ report, ((runner.handle source env).run state).1 = .ok report := by
  cases h : ((runner.handle source env).run state).1 with
  | ok report => exact ⟨report, rfl⟩
  | error fault =>
    obtain ⟨failure, he, hf⟩ := handle_eq_error.mp h
    exact absurd hf (Failure.not_failsToPrint (evaluate_blames hk hw ht he))

theorem reportable_of_parse (hf : runner.family = .expression) (hg : runner.grammar = 0)
    (tree : Value) (h : runner.parse source = .ok tree) : tree.AllNodes Node.Reportable := by
  rw [parse, hf, hg] at h
  exact Family.reportable_of_parse h

/-- Handling a source yields the value or a report of what evaluating it yields, with the same
effects, except where the failure is about a node with a span that cannot be printed: then that
fault comes out. This does not happen if all nodes of the tree can be printed, as with the
expression grammar, and functions blame no other nodes. -/
theorem handle_reports_unless (runner : Runner) (world : World) (requests : List Request)
    (source : String) (env : Env) :
    let state := runner.after (.initial world) requests
    let evaluated := (runner.evaluate source env).run state
    let handled := (runner.handle source env).run state
    handled.2 = evaluated.2 ∧
    (∀ value, handled.1 = .ok (.success value) ↔ evaluated.1 = .ok value) ∧
    (∀ fault, handled.1 = .error fault ↔
      ∃ failure, evaluated.1 = .error failure ∧ failure.FailsToPrint fault) ∧
    (∀ report, handled.1 = .ok (.error report) →
      (∃ failure, evaluated.1 = .error failure ∧ failure.report source = .ok report) ∧
        report.kind ≠ "" ∧ report.message ≠ "") ∧
    (runner.whitelist.Blames Node.Reportable →
      (∀ tree, runner.parse source = .ok tree → tree.AllNodes Node.Reportable) ∨
        (runner.family = .expression ∧ runner.grammar = 0) →
      ∃ report, handled.1 = .ok report) := by
  intro state evaluated handled
  refine ⟨congrArg Prod.snd (run_handle runner source env state), fun _ => handle_eq_success,
    fun _ => handle_eq_error, fun report h => ?_, fun hw ht => ?_⟩
  · obtain ⟨failure, he, hr⟩ := of_handle_eq_report h
    exact ⟨⟨failure, he, hr⟩, Failure.report_ne_empty hr⟩
  · have hk : runner.Keeps state.cache := keeps_after (keeps_initial world) requests
    rcases ht with ht | ⟨hf, hg⟩
    · exact handle_isOk hk hw ht
    · exact handle_isOk hk hw (reportable_of_parse hf hg)

/-- With the expression grammar and the standard whitelist every failure is reported. -/
theorem handle_standard_isOk (capacity : Int) (world : World) (requests : List Request)
    (source : String) (env : Env) :
    let runner := ofWhitelist .standard capacity
    ∃ report, ((runner.handle source env).run (runner.after (.initial world) requests)).1 =
      .ok report :=
  handle_isOk (keeps_after (keeps_initial world) requests) Whitelist.blames_standard
    (reportable_of_parse rfl rfl)

end Runner

/-! ## A failure that is not reported -/

/-- `null.true`, with a literal where a name should be. -/
def Node.nameless (span : Span) : Node :=
  .make "MemberExpression" (some span)
    [("object", .literal span "null" .null), ("property", .literal span "true" (.bool true)),
      ("computed", .bool false)]

namespace Whitelist

variable {whitelist : Whitelist} {path : Path} {slot : String}

theorem compilePart_literal (span : Span) (raw : String) (value : Value) :
    whitelist.compilePart path slot (.literal span raw value) = pure (.constant value) := by
  rw [Value.literal, Value.ofTree, compilePart, compile]
  rfl

theorem compileRoot_literal (span : Span) (raw : String) (value : Value) :
    whitelist.compileRoot path slot (.literal span raw value) = pure (.constant value) := by
  rw [compileRoot]
  change whitelist.compilePart path slot (.literal span raw value) = _
  exact compilePart_literal span raw value

theorem compileTree_nameless (whitelist : Whitelist) (span : Span) :
    whitelist.compileTree (.ofTree (.nameless span)) =
      pure (.member (.nameless span) (.constant .null) (.constant (.bool true))) := by
  have hproperty : (Node.nameless span).field? "property" =
      some (.literal span "true" (.bool true)) := rfl
  have hobject : (Node.nameless span).field? "object" = some (.literal span "null" .null) := rfl
  have hkind : (Node.nameless span).kind = some "MemberExpression" := rfl
  change whitelist.compile (.root (.nameless span)) = _
  unfold compile
  simp only [Path.node_root, hkind, Option.getD_some, Node.get_of_field? hproperty,
    Node.get_of_field? hobject, Gate.ofExcept, pure_bind, compilePart_literal, compileRoot_literal]

end Whitelist

namespace Runner

/-- A source that is read as that member fails, and the failure is not reported. -/
theorem handle_nameless {runner : Runner} {source : String} {span : Span}
    (h : runner.parse source = .ok (.ofTree (.nameless span))) (world : World) (env : Env) :
    let state := RunnerState.initial world
    ((runner.evaluate source env).run state).1 =
        .error { fault := .nullMember "true", node := some (.nameless span) } ∧
      ((runner.handle source env).run state).1 =
        .error (.missingField (some "Literal") "name") := by
  intro state
  have hevaluate : ((runner.evaluate source env).run state).1 =
      .error { fault := .nullMember "true", node := some (.nameless span) } := by
    obtain ⟨_, hrun, _⟩ := run_evaluate (keeps_initial world) source env
    rw [hrun, evaluateAnew, form_of_parse h, Whitelist.compileTree_nameless]
    rfl
  refine ⟨hevaluate, handle_eq_error.mpr ⟨_, hevaluate, ?_⟩⟩
  exact Failure.failsToPrint_of_nameless rfl (.literal (.inr (.inr .null))) rfl

/-- A runner whose grammar reads `x` as that member. -/
def readingNameless : Runner where
  whitelist := { objects := [], callees := [], custom := [] }
  family :=
    { grammars := [(Grammar.empty 0).register
        { kind := Grammar.rootKind
          rule := some (.literal "x")
          onMatch := some fun _ => .ok (some (.ofTree (.nameless ⟨0, 1⟩)))
          fallback := none }] }
  grammar := 0
  capacity := 0

/-- Not every failure is reported. -/
theorem handle_readingNameless :
    let env : Env := { bindings := [], options := [] }
    let state := RunnerState.initial (.initial 0)
    ((readingNameless.evaluate "x" env).run state).1 =
        .error { fault := .nullMember "true", node := some (.nameless ⟨0, 1⟩) } ∧
      ((readingNameless.handle "x" env).run state).1 =
        .error (.missingField (some "Literal") "name") :=
  handle_nameless rfl _ _

end Runner

end GatedExpr
