import GatedExpr.Session.Basic

/-! # Scripts

A script has one expression on each line. Blank lines and comments are skipped, and a line that
fails does not keep the later ones from running. Only what cannot be printed does.
-/

namespace GatedExpr.Script

/-- Whether a trimmed line holds no expression. -/
def isSkipped (line : List Char) : Bool :=
  line.isEmpty || ['/', '/'].isPrefixOf line

/-- Runs lines and tells whether one of them failed. -/
def runLines (runner : Runner) : List (List Char) → Session (Except Fault Bool)
  | [] => return .ok false
  | line :: rest => do
    let source := Text.trim line
    if isSkipped source then runLines runner rest
    else
      match ← Session.handle runner (String.ofList source) with
      | .error fault => return .error fault
      | .ok (.success value) =>
        match value.printAny with
        | .error fault => return .error fault
        | .ok text =>
          Session.print (.out text.displayPlain)
          runLines runner rest
      | .ok (.error report) =>
        Session.print (.err report.text)
        return (← runLines runner rest).map fun _ => true

/-- Runs a script and tells whether one of its lines failed. -/
def run (runner : Runner) (text : String) : Session (Except Fault Bool) :=
  runLines runner (Text.lines text.toList)

end GatedExpr.Script
