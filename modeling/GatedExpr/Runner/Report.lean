import GatedExpr.Node.Printer
import GatedExpr.Text.Lines

/-! # Reports

A failed evaluation is reported with a kind, a message and, if it is known, the place in the
source. The message shows the node that failed and the lines around the place.
-/

namespace GatedExpr

/-- Where in a source something went wrong. -/
structure SourcePlace where
  line : Nat
  column : Nat
  offset : Int

structure ErrorReport where
  kind : String
  message : String
  place : Option SourcePlace

/-- The outcome of handling an expression. -/
inductive Report where
  | success (value : Value)
  | error (report : ErrorReport)

namespace ErrorReport

/-- The words before the message that give the place. -/
def lead (report : ErrorReport) : String :=
  match report.place with
  | some place => s!"Error on line {place.line}, col {place.column}: "
  | none => ""

/-- The message with its place in front. -/
def text (report : ErrorReport) : String :=
  report.lead ++ report.message

end ErrorReport

namespace Excerpt

/-- How many lines are shown before and after the one in question. -/
def radius : Nat := 2

/-- A number set flush right. -/
def padded (width n : Nat) : List Char :=
  let digits := Text.decimal n
  List.replicate (width - digits.length) ' ' ++ digits

/-- A line with its number; the one in question is marked. -/
def numbered (width : Nat) (marked : Bool) (number : Nat) (line : List Char) : List Char :=
  (if marked then '>' else ' ') :: ' ' :: padded width number ++ [' ', '|', ' '] ++ line

/-- The line with a caret under a column. -/
def caret (width column : Nat) : List Char :=
  List.replicate (width + 2) ' ' ++ [' ', '|', ' '] ++ List.replicate (column - 1) ' ' ++ ['^']

/-- What is shown for the lines that begin with number `first`. -/
def rows (width line column : Nat) : Nat → List (List Char) → List (List Char)
  | _, [] => []
  | first, content :: rest =>
    let row := numbered width (first == line) first content
    let others := rows width line column (first + 1) rest
    if first = line then row :: caret width column :: others else row :: others

/-- The lines around a place, with a caret under the place. A line beyond the end of the source
has no surroundings. -/
def excerpt (source : List Char) (location : Text.Location) : List Char :=
  let lines := match Text.lines source with
    | [] => [[]]
    | lines => lines
  if location.line = 0 ∨ lines.length < location.line then []
  else
    let first := max 1 (location.line - radius)
    let last := min lines.length (location.line + radius)
    let width := (Text.decimal last).length
    let shown := (lines.take last).drop (first - 1)
    ['\n'].intercalate (rows width location.line location.column first shown)

end Excerpt

namespace Failure

/-- The kind under which a fault is reported, and the text that goes with it. -/
def kindAndText (fault : Fault) : String × String :=
  match fault.cls, fault.missingKey? with
  | .parse, _ =>
    match fault with
    | .parse error => ("ParseError", error.message)
    | fault => ("ParseError", fault.text)
  | .unauthorizedIdentifier, _ => ("UnauthorizedIdentifier", fault.text)
  | .unauthorizedCall, _ => ("UnauthorizedCall", fault.text)
  | .compile, _ => ("CompileError", fault.text)
  | .unknownOperator, _ => ("UnknownOperator", fault.text)
  | .key, some key => ("PathNotFound", key.displayPlain)
  | .type, _ | .member, _ | .value, _ | .config, _ | .zeroDivision, _ => ("TypeError", fault.text)
  | _, _ => ("InternalError", fault.text)

/-- The offset of a parse error, if the failure is one. -/
def parseOffset? : Fault → Option Int
  | .parse error => some error.position
  | _ => none

/-- The place of a failure and what is said about its node: a parse error is about an offset,
any other failure about its node. -/
def placeAndNode (failure : Failure) : Except Fault (Option Int × String) :=
  match parseOffset? failure.fault with
  | some offset => .ok (some offset, "")
  | none =>
    match failure.node with
    | some node =>
      match node.span with
      | some span => do
        let text ← (Value.ofTree node).printTree
        return (some span.start, "\nAt " ++ text.displayPlain)
      | none => .ok (none, "")
    | none => .ok (none, "")

/-- The report of a failure. Printing the failed node may fail in turn. -/
def report (failure : Failure) (source : String) : Except Fault ErrorReport := do
  let (kind, text) := kindAndText failure.fault
  let (offset?, about) ← failure.placeAndNode
  let message := kind ++ ": " ++ text ++ about
  match offset? with
  | none => return { kind, message, place := none }
  | some offset =>
    let location := Text.locate source.toList offset
    let excerpt := String.ofList (Excerpt.excerpt source.toList location)
    return {
      kind
      message := message ++ s!"\n(line {location.line}, col {location.column})\n" ++ excerpt
      place := some { line := location.line, column := location.column, offset } }

end Failure

end GatedExpr
