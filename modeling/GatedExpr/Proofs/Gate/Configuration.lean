import GatedExpr.Gate.Config
import GatedExpr.Proofs.Computation

/-! # Malformed configurations

A configuration yields a whitelist or is rejected as a configuration, with four exceptions: tables
that are no mappings, references to a module without a name or relative to another one, and custom
objects that cannot be keys are rejected as whatever they happen to break. Which of all that comes
first decides.
-/

namespace GatedExpr

open GatedExpr.Computation

/-! ## Faults that escape -/

section

variable {α β : Type} {r : Except Fault α} {fault : Fault}

end

/-! ## References -/

namespace Whitelist

/-! ## Entries -/

section

variable {α : Type} {check : String × Option α → Except Fault (String × α)}
  {problem : String → ConfigProblem} {entries : List (String × Option α)} {fault : Fault}

end

/-- A table of objects that is a list. -/
example : ofConfig (.map 1 [("objects", .list 2 [.number 3 (.int 1)])]) =
    .error (.noAttribute "items") := by
  rfl

end Whitelist

end GatedExpr
