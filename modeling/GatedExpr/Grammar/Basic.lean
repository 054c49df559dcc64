import GatedExpr.Grammar.Matcher
import GatedExpr.Table

/-! # Grammars

A grammar has named rules. Its leaf matchers and references are made once and kept, each under a
key that tells it apart. A grammar can be derived from another one: it starts with the rules of
its parent as its own, and what either of them registers later concerns that one alone.

While a rule runs, its grammar is the active one. References are looked up in the active grammar
first and then in the grammar that made them.
-/

namespace GatedExpr

/-- Makes a value of what a rule matched, or refuses the match. -/
abbrev Transform := List Value → Except Fault (Option Value)

structure Descriptor where
  kind : String
  rule : Option Matcher
  onMatch : Option Transform
  /-- Runs in place of the rule where that does not match. -/
  fallback : Option Matcher

namespace Descriptor

/-- What the rule makes of a match: a list is passed to the transform item by item. -/
def transformed (descriptor : Descriptor) (value : Value) : Except Fault (Option Value) :=
  match descriptor.onMatch, value with
  | none, value => .ok (some value)
  | some transform, .list _ items => transform items
  | some transform, value => transform [value]

/-- Gives a result the kind and span of its rule where it has none of its own. A list becomes a
node. -/
def settle (kind : String) (span : Span) : Value → Value
  | .list _ items =>
    .ofTree
      { kind := some kind, span := some span, raw := none, children := some items, fields := [] }
  | .node id node =>
    .node id { node with
      kind := some (node.kind.getD kind)
      span := some (node.span.getD span) }
  | value => value

def fallBack (follow : Follow) (descriptor : Descriptor) (cursor : Cursor) :
    Outcome Value × Cursor :=
  match descriptor.fallback with
  | some matcher => matcher.run follow cursor
  | none => (.failed, cursor)

def run (follow : Follow) (descriptor : Descriptor) (cursor : Cursor) : Outcome Value × Cursor :=
  match descriptor.rule with
  | none => (.broken .nothingToRun, cursor)
  | some matcher =>
    match matcher.run follow cursor with
    | (.broken fault, next) => (.broken fault, next)
    | (.failed, next) => descriptor.fallBack follow (cursor.rewind next)
    | (.matched value, next) =>
      match descriptor.transformed value with
      | .error fault => (.broken fault, next)
      | .ok none => descriptor.fallBack follow (cursor.rewind next)
      | .ok (some result) =>
        (.matched (settle descriptor.kind (next.spanSince cursor.position) result), next)

end Descriptor

structure Grammar where
  id : GrammarId
  /-- In the order of their first registration. -/
  rules : List (String × Descriptor)
  literals : List (String × Matcher)
  patterns : List (String × Matcher)
  references : List (String × Matcher)

namespace Grammar

def empty (id : GrammarId) : Grammar :=
  { id, rules := [], literals := [], patterns := [], references := [] }

def hasRule (grammar : Grammar) (kind : String) : Bool :=
  (grammar.rules.lookup kind).isSome

/-- The matcher kept under a key, which is `fresh` the first time. -/
def keep (entries : List (String × Matcher)) (key : String) (fresh : Matcher) :
    Matcher × List (String × Matcher) :=
  match entries.lookup key with
  | some matcher => (matcher, entries)
  | none => (fresh, entries ++ [(key, fresh)])

def literal (grammar : Grammar) (text : String) : Matcher × Grammar :=
  let (matcher, literals) := keep grammar.literals text (.literal text)
  (matcher, { grammar with literals })

def pattern (grammar : Grammar) (pattern : Pattern) : Matcher × Grammar :=
  let (matcher, patterns) := keep grammar.patterns pattern.key (.pattern pattern)
  (matcher, { grammar with patterns })

def reference (grammar : Grammar) (kind : String) : Matcher × Grammar :=
  let (matcher, references) := keep grammar.references kind (.reference grammar.id kind)
  (matcher, { grammar with references })

def register (grammar : Grammar) (descriptor : Descriptor) : Grammar :=
  { grammar with rules := Table.set descriptor.kind descriptor grammar.rules }

/-- Registers a rule given by its parts, of which the matcher is required. -/
def registerParts (grammar : Grammar) (descriptor : Descriptor) : Except Fault Grammar :=
  if descriptor.rule.isNone then .error (.ruleWithoutMatcher descriptor.kind)
  else .ok (grammar.register descriptor)

/-- A grammar of its own with the rules, leaf matchers and references of `parent`. The
references are made anew. -/
def derive (id : GrammarId) (parent : Grammar) : Grammar :=
  let child : Grammar :=
    { id, rules := parent.rules, literals := parent.literals, patterns := parent.patterns,
      references := [] }
  parent.references.foldl (fun grammar entry => (grammar.reference entry.1).2) child

end Grammar

/-- The grammars that there are. Their ids are their places. -/
structure Family where
  grammars : List Grammar

namespace Family

def get? (family : Family) (id : GrammarId) : Option Grammar :=
  family.grammars[id]?

def set (family : Family) (grammar : Grammar) : Family :=
  { grammars := family.grammars.set grammar.id grammar }

/-- Adds a grammar built for its id. -/
def add (family : Family) (build : GrammarId → Grammar) : GrammarId × Family :=
  let id := family.grammars.length
  (id, { grammars := family.grammars ++ [build id] })

def rule? (family : Family) (id : GrammarId) (kind : String) : Option Descriptor :=
  (family.get? id).bind (·.rules.lookup kind)

/-- The rule that a reference means and the grammar that it belongs to. -/
def resolve? (family : Family) (active : Option GrammarId) (owner : GrammarId) (kind : String) :
    Option (GrammarId × Descriptor) :=
  let nearest := active.getD owner
  match family.rule? nearest kind with
  | some descriptor => some (nearest, descriptor)
  | none => (family.rule? owner kind).map (owner, ·)

/-- Follows references at most `depth` levels of rules deep. -/
def follow (family : Family) : Nat → Option GrammarId → Follow
  | 0, _ => fun _ _ cursor => (.broken .nestedTooDeeply, cursor)
  | depth + 1, active => fun owner kind cursor =>
    match family.resolve? active owner kind with
    | none => (.broken (.unknownRule kind), cursor)
    | some (home, descriptor) => descriptor.run (follow family depth (some home)) cursor

/-- How many rules may run inside of one another. -/
def nestingLimit : Nat := 1000

/-- Runs a matcher outside of any rule. -/
def runMatcher (family : Family) (matcher : Matcher) (cursor : Cursor) : Outcome Value × Cursor :=
  matcher.run (family.follow nestingLimit none) cursor

/-- Runs a rule of the grammar `id`. -/
def runRule (family : Family) (id : GrammarId) (descriptor : Descriptor) (cursor : Cursor) :
    Outcome Value × Cursor :=
  descriptor.run (family.follow nestingLimit (some id)) cursor

/-- The error about the furthest offset that a parse has reached. -/
def errorAt (cursor : Cursor) : ParseError :=
  { reason := match cursor.source[cursor.furthest.toNat]? with
      | some c => .unexpected c
      | none => .endOfInput
    position := cursor.furthest.toNat
    source := cursor.source }

/-- Matches a rule against the whole of a source, and the family with the matcher for trailing
blanks kept where it was needed. -/
def parseKeeping (family : Family) (id : GrammarId) (source : List Char) (kind : String) :
    Except Fault Value × Family :=
  match family.get? id with
  | none => (.error (.unknownRule kind), family)
  | some grammar =>
    match grammar.rules.lookup kind with
    | none => (.error (.unknownRule kind), family)
    | some descriptor =>
      match family.runRule id descriptor (.start source 0) with
      | (.broken .nestedTooDeeply, cursor) =>
        (.error (.parse { reason := .nestedTooDeeply, position := cursor.furthest.toNat, source }),
          family)
      | (.broken fault, _) => (.error fault, family)
      | (.failed, cursor) => (.error (.parse (errorAt cursor)), family)
      | (.matched value, cursor) =>
        let (blanks, grammar) := grammar.pattern .blanks
        let (_, last) := family.runMatcher blanks cursor
        (if last.atEnd then .ok value else .error (.parse (errorAt last)), family.set grammar)

/-- Matches a rule against the whole of a source. -/
def parse (family : Family) (id : GrammarId) (source : List Char) (kind : String) :
    Except Fault Value :=
  (family.parseKeeping id source kind).1

end Family

end GatedExpr
