import GatedExpr.Closure.Path
import GatedExpr.Gate.Basic
import GatedExpr.Operator

/-! # What a tree evaluates to

The meaning of a tree without any compilation, as a big-step relation on the nodes at their
places: what a node yields, or which failure it ends in, and what the world is afterwards. The
world holds the trace of the functions that were applied, so the order of all effects is part of
the relation.
-/

namespace GatedExpr

namespace Path

/-- The node in a slot of the node at `path`, as a place. -/
def Part (path : Path) (slot : String) (part : Path) : Prop :=
  ∃ id tree, path.node.field? slot = some (.node id tree) ∧ part = path.down slot tree

/-- The node stands for its own name: it is the key of a property, or a property name that was
not computed. -/
def NamesItself (path : Path) : Prop :=
  ∃ above, path.above = some above ∧
    ((above.kind = some "Property" ∧ path.slot = some "key") ∨
      (above.kind = some "MemberExpression" ∧ path.slot = some "property" ∧
        ∃ computed, above.field? "computed" = some computed ∧ computed.isSet = false))

end Path

/-- The field of a node, or the attribute of what stands in its place. -/
def Value.HasPart (value : Value) (name : String) (part : Value) : Prop :=
  ∃ smaller, value.part name = .ok ⟨part, smaller⟩

namespace Semantics

/-- What can be evaluated: a node at its place, a hole between commas, or the object that the
whitelist has under a name. -/
inductive Task where
  | node (path : Path)
  | hole
  | object (name : String)

/-- An item of a list of parts. -/
def Task.ofItem? (path : Path) (slot : String) : Value → Option Task
  | .null => some .hole
  | .node _ tree => some (.node (path.down slot tree))
  | _ => none

/-- The parts that a list or tuple in a slot holds, from left to right. -/
def Task.ofItems (path : Path) (slot : String) : Value → List Task
  | .list _ items | .tuple _ items => items.filterMap (ofItem? path slot)
  | _ => []

/-- What stands before a dot, bracket or method name: a bare name is an object of the whitelist,
everything else a part like any other. -/
inductive Task.Root (path : Path) (slot : String) : Value → Task → Prop where

  | object {target : Value} {name : String} :
      target.readAttribute "kind" = .ok (.text "Identifier") →
      target.readAttribute "name" = .ok (.text name) →
      Root path slot target (.object name)

  | node {id : Identity} {tree : Node} : tree.kind ≠ some "Identifier" →
      Root path slot (.node id tree) (.node (path.down slot tree))

/-- Does tasks from left to right until one fails. -/
inductive InOrder (R : Task → World → Except Failure Value → World → Prop) :
    List Task → World → Except Failure (List Value) → World → Prop where

  | done {w : World} : InOrder R [] w (.ok []) w

  | next {task : Task} {tasks : List Task} {w w₁ w₂ : World} {v : Value} {vs : List Value} :
      R task w (.ok v) w₁ → InOrder R tasks w₁ (.ok vs) w₂ →
      InOrder R (task :: tasks) w (.ok (v :: vs)) w₂

  | fails {task : Task} {tasks : List Task} {w w₁ : World} {e : Failure} :
      R task w (.error e) w₁ → InOrder R (task :: tasks) w (.error e) w₁

  | failsLater {task : Task} {tasks : List Task} {w w₁ w₂ : World} {v : Value} {e : Failure} :
      R task w (.ok v) w₁ → InOrder R tasks w₁ (.error e) w₂ →
      InOrder R (task :: tasks) w (.error e) w₂

/-- Sets the entries that properties yield, from left to right until one fails. -/
inductive Entries (R : Task → World → Except Failure Value → World → Prop) :
    List Task → List (String × Value) → World → Except Failure (List (String × Value)) → World →
      Prop where

  | done {entries : List (String × Value)} {w : World} : Entries R [] entries w (.ok entries) w

  | set {task : Task} {tasks : List Task} {entries : List (String × Value)} {w w₁ w₂ : World}
      {pair key value : Value} {r : Except Failure (List (String × Value))} :
      R task w (.ok pair) w₁ → pair.asPair = .ok (key, value) →
      Entries R tasks (Table.set key.toText value entries) w₁ r w₂ →
      Entries R (task :: tasks) entries w r w₂

  | fails {task : Task} {tasks : List Task} {entries : List (String × Value)} {w w₁ : World}
      {e : Failure} :
      R task w (.error e) w₁ → Entries R (task :: tasks) entries w (.error e) w₁

  | notAPair {task : Task} {tasks : List Task} {entries : List (String × Value)} {w w₁ : World}
      {pair : Value} {fault : Fault} :
      R task w (.ok pair) w₁ → pair.asPair = .error fault →
      Entries R (task :: tasks) entries w (.error (.bare fault)) w₁

/-- The callee of a call reads a method of `receiver` by name. -/
def Method (call : Node) (receiver : Value) (method : String) : Prop :=
  ∃ callee computed property name, call.field? "callee" = some callee ∧
    callee.readAttribute "kind" = .ok (.text "MemberExpression") ∧
    callee.readAttribute "computed" = .ok computed ∧ computed.isSet = false ∧
    callee.HasPart "property" property ∧ property.readAttribute "name" = .ok name ∧
    name.displayPlain = method ∧ callee.HasPart "object" receiver

/-- The receiver is the name of an object whose methods have signatures of their own. -/
def Custom (whitelist : Whitelist) (receiver owner : Value) : Prop :=
  receiver.readAttribute "kind" = .ok (.text "Identifier") ∧
    receiver.readAttribute "name" = .ok owner ∧ whitelist.isCustom owner = .ok true

/-- A call applies a function of the whitelist: to its arguments, or to a receiver and then its
arguments. -/
inductive Calls (whitelist : Whitelist) (path : Path) : Function → List Task → Prop where

  | name {callee arguments : Value} {name : String} {function : Function} :
      path.node.field? "callee" = some callee →
      callee.readAttribute "kind" = .ok (.text "Identifier") →
      callee.readAttribute "name" = .ok (.text name) →
      whitelist.callees.lookup name = some function →
      path.node.field? "arguments" = some arguments →
      Calls whitelist path function (Task.ofItems path "arguments" arguments)

  | ofCustom {receiver owner arguments : Value} {method : String} {function : Function} :
      Method path.node receiver method → Custom whitelist receiver owner →
      whitelist.callees.lookup (owner.displayPlain ++ "." ++ method) = some function →
      path.node.field? "arguments" = some arguments →
      Calls whitelist path function (Task.ofItems path "arguments" arguments)

  | method {receiver arguments : Value} {method : String} {function : Function} {task : Task} :
      Method path.node receiver method → (∀ owner, ¬ Custom whitelist receiver owner) →
      whitelist.callees.lookup ("*." ++ method) = some function →
      Task.Root path "callee.object" receiver task →
      path.node.field? "arguments" = some arguments →
      Calls whitelist path function (task :: Task.ofItems path "arguments" arguments)

/-- The left operand of a logical operator decides the result. -/
def Decides (symbol : String) (left : Value) : Prop :=
  symbol = "&&" ∧ left.isTruthy = .ok false ∨ symbol = "||" ∧ left.isTruthy = .ok true

/-- The left operand of a logical operator leaves the result to the right one. -/
def LeavesOpen (symbol : String) (left : Value) : Prop :=
  symbol = "&&" ∧ left.isTruthy = .ok true ∨ symbol = "||" ∧ left.isTruthy = .ok false

/-- `Evaluates whitelist env task w r w'`: the task yields `r` and takes the world from `w` to
`w'`. -/
inductive Evaluates (whitelist : Whitelist) (env : Env) :
    Task → World → Except Failure Value → World → Prop where

  | hole {w : World} : Evaluates whitelist env .hole w (.ok .null) w

  | object {name : String} {accessor : Accessor} {w w' : World} {r : Except Failure Value} :
      whitelist.objects.lookup name = some accessor → (accessor env).run w = (r, w') →
      Evaluates whitelist env (.object name) w r w'

  | literal {p : Path} {value v : Value} {w w' : World} :
      p.node.kind = some "Literal" → p.node.field? "value" = some value →
      (Eval.settle value).run w = (.ok v, w') → Evaluates whitelist env (.node p) w (.ok v) w'

  /- Identifiers -/

  | ownName {p : Path} {name v : Value} {w w' : World} :
      p.node.kind = some "Identifier" → p.NamesItself → p.node.field? "name" = some name →
      (Eval.settle name).run w = (.ok v, w') → Evaluates whitelist env (.node p) w (.ok v) w'

  | bound {p : Path} {name : String} {v : Value} {w : World} :
      p.node.kind = some "Identifier" → ¬ p.NamesItself →
      p.node.field? "name" = some (.text name) → env.bindings.lookup name = some v →
      Evaluates whitelist env (.node p) w (.ok v) w

  | unbound {p : Path} {name : Value} {w : World} :
      p.node.kind = some "Identifier" → ¬ p.NamesItself → p.node.field? "name" = some name →
      (∀ s, name = .text s → env.bindings.lookup s = none) →
      Evaluates whitelist env (.node p) w
        (.error { fault := if name.isKey then .unbound name else .unhashable, node := some p.node })
        w

  /- Choices and logical operators, which do not evaluate all of their parts -/

  | choiceFails {p t : Path} {w w' : World} {e : Failure} :
      p.node.kind = some "ConditionalExpression" → p.Part "test" t →
      Evaluates whitelist env (.node t) w (.error e) w' →
      Evaluates whitelist env (.node p) w (.error e) w'

  | choiceUndecided {p t : Path} {v : Value} {w w' : World} {cause : NumberFault} :
      p.node.kind = some "ConditionalExpression" → p.Part "test" t →
      Evaluates whitelist env (.node t) w (.ok v) w' → v.isTruthy = .error cause →
      Evaluates whitelist env (.node p) w (.error (.bare (.number cause))) w'

  | consequent {p t c : Path} {v : Value} {w w₁ w₂ : World} {r : Except Failure Value} :
      p.node.kind = some "ConditionalExpression" → p.Part "test" t → p.Part "consequent" c →
      Evaluates whitelist env (.node t) w (.ok v) w₁ → v.isTruthy = .ok true →
      Evaluates whitelist env (.node c) w₁ r w₂ → Evaluates whitelist env (.node p) w r w₂

  | alternate {p t a : Path} {v : Value} {w w₁ w₂ : World} {r : Except Failure Value} :
      p.node.kind = some "ConditionalExpression" → p.Part "test" t → p.Part "alternate" a →
      Evaluates whitelist env (.node t) w (.ok v) w₁ → v.isTruthy = .ok false →
      Evaluates whitelist env (.node a) w₁ r w₂ → Evaluates whitelist env (.node p) w r w₂

  | logicalFails {p l : Path} {symbol : String} {w w' : World} {e : Failure} :
      p.node.kind = some "BinaryExpression" → p.node.field? "operator" = some (.text symbol) →
      symbol = "&&" ∨ symbol = "||" → p.Part "left" l →
      Evaluates whitelist env (.node l) w (.error e) w' →
      Evaluates whitelist env (.node p) w (.error e) w'

  | logicalUndecided {p l : Path} {symbol : String} {v : Value} {w w' : World}
      {cause : NumberFault} :
      p.node.kind = some "BinaryExpression" → p.node.field? "operator" = some (.text symbol) →
      symbol = "&&" ∨ symbol = "||" → p.Part "left" l →
      Evaluates whitelist env (.node l) w (.ok v) w' → v.isTruthy = .error cause →
      Evaluates whitelist env (.node p) w (.error (.bare (.number cause))) w'

  | logicalLeft {p l : Path} {symbol : String} {v : Value} {w w' : World} :
      p.node.kind = some "BinaryExpression" → p.node.field? "operator" = some (.text symbol) →
      p.Part "left" l → Evaluates whitelist env (.node l) w (.ok v) w' → Decides symbol v →
      Evaluates whitelist env (.node p) w (.ok v) w'

  | logicalRight {p l q : Path} {symbol : String} {v : Value} {w w₁ w₂ : World}
      {r : Except Failure Value} :
      p.node.kind = some "BinaryExpression" → p.node.field? "operator" = some (.text symbol) →
      p.Part "left" l → p.Part "right" q → Evaluates whitelist env (.node l) w (.ok v) w₁ →
      LeavesOpen symbol v → Evaluates whitelist env (.node q) w₁ r w₂ →
      Evaluates whitelist env (.node p) w r w₂

  /- Operators -/

  | binaryFails {p l q : Path} {symbol : String} {operator : BinaryOperator} {w w' : World}
      {e : Failure} :
      p.node.kind = some "BinaryExpression" → p.node.field? "operator" = some (.text symbol) →
      BinaryOperator.ofSymbol? symbol = some operator → p.Part "left" l → p.Part "right" q →
      InOrder (Evaluates whitelist env) [.node l, .node q] w (.error e) w' →
      Evaluates whitelist env (.node p) w (.error e) w'

  | binaryUndefined {p l q : Path} {symbol : String} {operator : BinaryOperator} {a b : Value}
      {w w' : World} {cause : NumberFault} :
      p.node.kind = some "BinaryExpression" → p.node.field? "operator" = some (.text symbol) →
      BinaryOperator.ofSymbol? symbol = some operator → p.Part "left" l → p.Part "right" q →
      InOrder (Evaluates whitelist env) [.node l, .node q] w (.ok [a, b]) w' →
      operator.apply a b = .error cause →
      Evaluates whitelist env (.node p) w (.error (.bare (.number cause))) w'

  | binary {p l q : Path} {symbol : String} {operator : BinaryOperator} {a b c v : Value}
      {w w₁ w₂ : World} :
      p.node.kind = some "BinaryExpression" → p.node.field? "operator" = some (.text symbol) →
      BinaryOperator.ofSymbol? symbol = some operator → p.Part "left" l → p.Part "right" q →
      InOrder (Evaluates whitelist env) [.node l, .node q] w (.ok [a, b]) w₁ →
      operator.apply a b = .ok c → (Eval.settle c).run w₁ = (.ok v, w₂) →
      Evaluates whitelist env (.node p) w (.ok v) w₂

  | unaryFails {p q : Path} {symbol : String} {operator : UnaryOperator} {w w' : World}
      {e : Failure} :
      p.node.kind = some "UnaryExpression" → p.node.field? "operator" = some (.text symbol) →
      UnaryOperator.ofSymbol? symbol = some operator → p.Part "argument" q →
      Evaluates whitelist env (.node q) w (.error e) w' →
      Evaluates whitelist env (.node p) w (.error e) w'

  | unaryUndefined {p q : Path} {symbol : String} {operator : UnaryOperator} {a : Value}
      {w w' : World} {cause : NumberFault} :
      p.node.kind = some "UnaryExpression" → p.node.field? "operator" = some (.text symbol) →
      UnaryOperator.ofSymbol? symbol = some operator → p.Part "argument" q →
      Evaluates whitelist env (.node q) w (.ok a) w' → operator.apply a = .error cause →
      Evaluates whitelist env (.node p) w (.error (.bare (.number cause))) w'

  | unary {p q : Path} {symbol : String} {operator : UnaryOperator} {a c v : Value}
      {w w₁ w₂ : World} :
      p.node.kind = some "UnaryExpression" → p.node.field? "operator" = some (.text symbol) →
      UnaryOperator.ofSymbol? symbol = some operator → p.Part "argument" q →
      Evaluates whitelist env (.node q) w (.ok a) w₁ → operator.apply a = .ok c →
      (Eval.settle c).run w₁ = (.ok v, w₂) → Evaluates whitelist env (.node p) w (.ok v) w₂

  /- Lists and maps -/

  | arrayFails {p : Path} {elements : Value} {w w' : World} {e : Failure} :
      p.node.kind = some "ArrayExpression" → p.node.field? "elements" = some elements →
      InOrder (Evaluates whitelist env) (Task.ofItems p "elements" elements) w (.error e) w' →
      Evaluates whitelist env (.node p) w (.error e) w'

  | array {p : Path} {elements v : Value} {items : List Value} {w w₁ w₂ : World} :
      p.node.kind = some "ArrayExpression" → p.node.field? "elements" = some elements →
      InOrder (Evaluates whitelist env) (Task.ofItems p "elements" elements) w (.ok items) w₁ →
      (Eval.newList items).run w₁ = (.ok v, w₂) → Evaluates whitelist env (.node p) w (.ok v) w₂

  | mapFails {p : Path} {properties : Value} {w w' : World} {e : Failure} :
      p.node.kind = some "ObjectExpression" → p.node.field? "properties" = some properties →
      Entries (Evaluates whitelist env) (Task.ofItems p "properties" properties) []
        w (.error e) w' →
      Evaluates whitelist env (.node p) w (.error e) w'

  | map {p : Path} {properties v : Value} {entries : List (String × Value)} {w w₁ w₂ : World} :
      p.node.kind = some "ObjectExpression" → p.node.field? "properties" = some properties →
      Entries (Evaluates whitelist env) (Task.ofItems p "properties" properties) [] w (.ok entries)
        w₁ →
      (Eval.newMap entries).run w₁ = (.ok v, w₂) → Evaluates whitelist env (.node p) w (.ok v) w₂

  | propertyFails {p k q : Path} {w w' : World} {e : Failure} :
      p.node.kind = some "Property" → p.Part "key" k → p.Part "value" q →
      InOrder (Evaluates whitelist env) [.node k, .node q] w (.error e) w' →
      Evaluates whitelist env (.node p) w (.error e) w'

  | property {p k q : Path} {key value v : Value} {w w₁ w₂ : World} :
      p.node.kind = some "Property" → p.Part "key" k → p.Part "value" q →
      InOrder (Evaluates whitelist env) [.node k, .node q] w (.ok [key, value]) w₁ →
      (Eval.settle (.tuple .unassigned [key, value])).run w₁ = (.ok v, w₂) →
      Evaluates whitelist env (.node p) w (.ok v) w₂

  /- Member reads and calls, which a failure of their own is about -/

  | memberTargetFails {p : Path} {object : Value} {target : Task} {w w' : World} {e : Failure} :
      p.node.kind = some "MemberExpression" → p.node.field? "object" = some object →
      Task.Root p "object" object target → Evaluates whitelist env target w (.error e) w' →
      Evaluates whitelist env (.node p) w (.error e) w'

  | memberKeyFails {p k : Path} {object targetValue : Value} {target : Task} {w w₁ w₂ : World}
      {e : Failure} :
      p.node.kind = some "MemberExpression" → p.node.field? "object" = some object →
      Task.Root p "object" object target → p.Part "property" k →
      Evaluates whitelist env target w (.ok targetValue) w₁ →
      Evaluates whitelist env (.node k) w₁ (.error e) w₂ →
      Evaluates whitelist env (.node p) w (.error (e.locate p.node)) w₂

  | memberUnreadable {p k : Path} {object targetValue key : Value} {target : Task}
      {w w₁ w₂ : World} {fault : Fault} :
      p.node.kind = some "MemberExpression" → p.node.field? "object" = some object →
      Task.Root p "object" object target → p.Part "property" k →
      Evaluates whitelist env target w (.ok targetValue) w₁ →
      Evaluates whitelist env (.node k) w₁ (.ok key) w₂ →
      targetValue.getMember key = .error fault →
      Evaluates whitelist env (.node p) w (.error { fault, node := some p.node }) w₂

  | member {p k : Path} {object targetValue key read v : Value} {target : Task}
      {w w₁ w₂ w₃ : World} :
      p.node.kind = some "MemberExpression" → p.node.field? "object" = some object →
      Task.Root p "object" object target → p.Part "property" k →
      Evaluates whitelist env target w (.ok targetValue) w₁ →
      Evaluates whitelist env (.node k) w₁ (.ok key) w₂ →
      targetValue.getMember key = .ok read → (Eval.settle read).run w₂ = (.ok v, w₃) →
      Evaluates whitelist env (.node p) w (.ok v) w₃

  | callPartFails {p : Path} {function : Function} {tasks : List Task} {w w' : World}
      {e : Failure} :
      p.node.kind = some "CallExpression" → Calls whitelist p function tasks →
      InOrder (Evaluates whitelist env) tasks w (.error e) w' →
      Evaluates whitelist env (.node p) w (.error e) w'

  | callFails {p : Path} {function : Function} {tasks : List Task} {arguments : List Value}
      {w w₁ w₂ : World} {e : Failure} :
      p.node.kind = some "CallExpression" → Calls whitelist p function tasks →
      InOrder (Evaluates whitelist env) tasks w (.ok arguments) w₁ →
      (function.apply arguments).run
        { w₁ with calls := { function := function.name, arguments } :: w₁.calls } = (.error e, w₂) →
      Evaluates whitelist env (.node p) w (.error (e.locate p.node)) w₂

  | call {p : Path} {function : Function} {tasks : List Task} {arguments : List Value}
      {result v : Value} {w w₁ w₂ w₃ : World} :
      p.node.kind = some "CallExpression" → Calls whitelist p function tasks →
      InOrder (Evaluates whitelist env) tasks w (.ok arguments) w₁ →
      (function.apply arguments).run
        { w₁ with calls := { function := function.name, arguments } :: w₁.calls }
          = (.ok result, w₂) →
      (Eval.settle result).run w₂ = (.ok v, w₃) → Evaluates whitelist env (.node p) w (.ok v) w₃

end Semantics

end GatedExpr
