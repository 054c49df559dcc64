import GatedExpr.Proofs.Builtin.Treeless
import GatedExpr.Proofs.Runner.Reporting
import GatedExpr.Proofs.Session.Independence
import GatedExpr.Proofs.Text.Lines
import GatedExpr.Session.CommandLine

/-! # Scripts line by line

The lines of a script share a runner and what it keeps compiled. If functions have no effects,
each line is answered as a new runner answers it alone, and a script is no more than its lines.
Only a value that cannot be printed, or a failure that cannot be reported, keeps later lines from
running, and without trees among the values there is neither.
-/

namespace GatedExpr

open GatedExpr.Computation

/-! ## Values of single lines -/

theorem Value.Treeless.printAny {v : Value} (h : v.Treeless) :
    v.printAny = .ok (.text v.print) := by
  cases v with
  | node => exact h.elim
  | _ => rfl

namespace Runner

variable {runner : Runner} {source : String} {env : Env}

end Runner

/-! ## Answers -/

def OutputLine.isError : OutputLine → Bool
  | .out _ => false
  | .err _ => true

namespace Script

/-- The line that shows a report, unless its value cannot be printed. -/
def reportLine : Report → Except Fault OutputLine
  | .success value => do return .out (← value.printAny).displayPlain
  | .error report => .ok (.err report.text)

/-- What a new runner with nothing bound says of a source alone. -/
def answer (runner : Runner) (world : World) (source : String) : Except Fault OutputLine := do
  reportLine (← ((runner.handle source { bindings := [], options := [] }).run (.initial world)).1)

/-- The expressions on lines, of which there are none on blank lines and comments. -/
def sourcesOf (lines : List (List Char)) : List String :=
  ((lines.map Text.trim).filter (!isSkipped ·)).map String.ofList

/-- The expressions of a script. -/
def sources (text : String) : List String :=
  sourcesOf (Text.lines text.toList)

/-- What is printed of answers up to the first fault, and whether one of them is an error. -/
def outcome : List (Except Fault OutputLine) → List OutputLine × Except Fault Bool
  | [] => ([], .ok false)
  | .error fault :: _ => ([], .error fault)
  | .ok line :: rest => (line :: (outcome rest).1, (outcome rest).2.map (line.isError || ·))

variable {n : Identity} {runner : Runner} {state : SessionState} {fresh : World}
  {source : String}

theorem reportLine_eq {c : Correspondence} {report other : Report}
    (h : c.AlikeReport report other) : reportLine report = reportLine other := by
  cases h with
  | error => rfl
  | success hvalue =>
    have hprinted := hvalue.printAny
    simp only [reportLine]
    revert hprinted
    generalize Value.printAny _ = printed, Value.printAny _ = printed'
    rintro (htext | rfl)
    · exact congrArg (fun text => Except.ok (OutputLine.out text)) htext.displayPlain
    · rfl

theorem answer_eq (runner : Runner) (world : World) (source : String) :
    answer runner world source = (Repl.handled runner [] world source).1 >>= reportLine := by
  obtain ⟨_, hrun, -⟩ := Runner.run_evaluate (Runner.keeps_initial world) source
    { bindings := [], options := [] }
  rw [answer, Runner.run_handle, hrun]
  rfl

/-! ## Lines one after the other -/

/-- Nothing is bound, what is kept compiled is right, and identities have been handed out since `n`
was next. -/
structure Unbound (n : Identity) (runner : Runner) (state : SessionState) : Prop where
  bindings : state.bindings = []
  keeps : runner.Keeps state.running.cache
  le : n ≤ state.running.world.nextId

/-- Handling a source is answered as by a new runner, and nothing is bound by it. -/
theorem Unbound.handle (h : Unbound n runner state) (hn : runner.StartsFrom n)
    (hfresh : n ≤ fresh.nextId) (hquiet : runner.HasNoEffects n source) :
    ∃ result running, (Session.handle runner source).run state = (result, { state with running }) ∧
      Unbound n runner { state with running } ∧
      result >>= reportLine = answer runner fresh source := by
  obtain ⟨running, hrun, hworld, hkeeps⟩ := Repl.run_handle h.keeps source
  refine ⟨_, running, hrun, ⟨h.bindings, hkeeps, ?_⟩, ?_⟩ <;> rw [h.bindings] at *
  · have hnext := (Repl.handsOut_handled hn hquiet h.le Value.entriesBelow_nil).1
    rw [← hworld] at hnext
    exact Nat.le_trans h.le hnext
  · have hworlds := Correspondence.worlds_since (Nat.le_trans hn.builtIn h.le)
      (Nat.le_trans hn.builtIn hfresh)
    have hbelow : (Correspondence.since state.running.world fresh).KeepsBelow n := by
      refine ⟨fun id hid => .inl ⟨rfl, ?_, ?_⟩, fun _ => id, fun _ _ => trivial⟩
      · exact lt_max_of_lt_right (Nat.lt_of_lt_of_le hid h.le)
      · exact lt_max_of_lt_right (Nat.lt_of_lt_of_le hid hfresh)
    have halike := (Repl.alike_handled hn hbelow hquiet hworlds .nil).1
    rw [answer_eq]
    revert halike
    generalize (Repl.handled runner [] state.running.world source).1 = result,
      (Repl.handled runner [] fresh source).1 = other
    rintro (hreport | rfl)
    · exact reportLine_eq hreport
    · rfl

end Script

namespace Repl

end Repl

/-! ## Runs of scripts -/

/-- How two runs end, one after the other: with status one if either does, unless one of them
breaks off. -/
def Ending.andThen : Ending → Ending → Ending
  | .finished, second => second
  | .exit status, .finished => .exit status
  | .exit _, second => second
  | broken, _ => broken

/-- Two runs one after the other. There is no second one if the first one breaks off. -/
def RunResult.andThen (first second : RunResult) : RunResult :=
  match first.ending with
  | .finished | .exit _ =>
    { printed := first.printed ++ second.printed, ending := first.ending.andThen second.ending }
  | _ => first

namespace CommandLine

open Script

end CommandLine

end GatedExpr
