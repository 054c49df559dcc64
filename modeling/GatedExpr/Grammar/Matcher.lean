import GatedExpr.Fault
import GatedExpr.Grammar.Cursor
import GatedExpr.Node.Basic

/-! # Matchers

A matcher reads from a cursor and yields a value, fails, or breaks off with a fault. After a
failure the cursor is back where the matcher began. How a reference to a named rule is followed
is a parameter here, so that a matcher says nothing about grammars.
-/

namespace GatedExpr

/-- What tells grammars apart. -/
abbrev GrammarId := Nat

inductive Outcome (α : Type) where
  | matched (result : α)
  | failed
  | broken (fault : Fault)

def Outcome.map {α β : Type} (f : α → β) : Outcome α → Outcome β
  | .matched result => .matched (f result)
  | .failed => .failed
  | .broken fault => .broken fault

inductive Matcher where
  | literal (text : String)
  | pattern (pattern : Pattern)
  /-- The rule of that name, to be looked up when the matcher runs. The grammar that made the
  reference is its owner. -/
  | reference (owner : GrammarId) (kind : String)
  | sequence (parts : List Matcher)
  | alternation (options : List Matcher)
  /-- As many repetitions as possible, and no fewer than a least number of them. -/
  | repetition (atLeast : Nat) (body : Matcher)
  | optional (body : Matcher)
  /-- What `body` yields after something that is skipped. -/
  | after (skipped body : Matcher)
  /-- Something that stands where a matcher should and cannot be run. -/
  | unrunnable
  deriving Inhabited

/-- How references are followed: by owner and rule name. -/
abbrev Follow := GrammarId → String → Cursor → Outcome Value × Cursor

namespace Matcher

/-- Repeats `step` until the source ends, or `step` fails or reads nothing. Every further round
has moved on, so the characters ahead bound the number of rounds. -/
def repeatStep (step : Cursor → Outcome Value × Cursor) :
    List Char → Cursor → Outcome (List Value) × Cursor
  | [], cursor => (.matched [], cursor)
  | _ :: rounds, cursor =>
    if cursor.atEnd then (.matched [], cursor)
    else
      match step cursor with
      | (.broken fault, next) => (.broken fault, next)
      | (.failed, next) => (.matched [], cursor.rewind next)
      | (.matched item, next) =>
        if next.position = cursor.position then (.matched [item], next)
        else
          let (outcome, last) := repeatStep step rounds next
          (outcome.map (item :: ·), last)

mutual

def run (follow : Follow) : Matcher → Cursor → Outcome Value × Cursor
  | .literal expected, cursor =>
    match cursor.readLiteral expected.toList with
    | (true, next) => (.matched (.ofTree (.token expected (next.spanSince cursor.position))), next)
    | (false, next) => (.failed, next)
  | .pattern expected, cursor =>
    match cursor.readPattern expected with
    | (some raw, next) =>
      (.matched (.ofTree (.token (String.ofList raw) (next.spanSince cursor.position))), next)
    | (none, next) => (.failed, next)
  | .reference owner kind, cursor => follow owner kind cursor
  | .sequence parts, cursor =>
    match runEach follow parts cursor with
    | (.failed, next) => (.failed, cursor.rewind next)
    | (outcome, next) => (outcome.map .ofList, next)
  | .alternation options, cursor => runFirst follow options cursor
  | .repetition atLeast body, cursor =>
    match repeatStep (run follow body) cursor.ahead cursor with
    | (.matched items, next) =>
      if items.length < atLeast then (.failed, cursor.rewind next)
      else (.matched (.ofList items), next)
    | (outcome, next) => (outcome.map .ofList, next)
  | .optional body, cursor =>
    match run follow body cursor with
    | (.failed, next) => (.matched .absent, cursor.rewind next)
    | (outcome, next) => (outcome, next)
  | .after skipped body, cursor =>
    match run follow skipped cursor with
    | (.matched _, next) =>
      match run follow body next with
      | (.failed, last) => (.failed, cursor.rewind last)
      | (outcome, last) => (outcome, last)
    | (.failed, next) => (.failed, cursor.rewind next)
    | (.broken fault, next) => (.broken fault, next)
  | .unrunnable, cursor => (.broken .nothingToRun, cursor)

/-- Runs one matcher after the other and collects what they yield. -/
def runEach (follow : Follow) : List Matcher → Cursor → Outcome (List Value) × Cursor
  | [], cursor => (.matched [], cursor)
  | part :: parts, cursor =>
    match run follow part cursor with
    | (.matched item, next) =>
      let (outcome, last) := runEach follow parts next
      (outcome.map (item :: ·), last)
    | (.failed, next) => (.failed, next)
    | (.broken fault, next) => (.broken fault, next)

/-- Runs matchers from the same place until one does not fail. -/
def runFirst (follow : Follow) : List Matcher → Cursor → Outcome Value × Cursor
  | [], cursor => (.failed, cursor)
  | option :: options, cursor =>
    match run follow option cursor with
    | (.failed, next) => runFirst follow options (cursor.rewind next)
    | (outcome, next) => (outcome, next)

end

end Matcher

end GatedExpr
