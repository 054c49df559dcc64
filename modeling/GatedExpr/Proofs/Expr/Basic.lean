import GatedExpr.Grammar.Expression
import GatedExpr.Proofs.Grammar.Spelling

/-! # Expressions

What a tree of the expression grammar shows, without offsets and without anything that a node
built by hand might hold: one constructor for each kind of node and one for holes.
-/

namespace GatedExpr

inductive Expr where
  | literal (raw : String)
  | name (name : String)
  | hole
  | array (elements : List Expr)
  | property (key value : Expr)
  | object (properties : List Expr)
  | member (object : Expr) (property : String)
  | index (object property : Expr)
  | call (callee : Expr) (arguments : List Expr)
  | unary (operator : String) (argument : Expr)
  | binary (operator : String) (left right : Expr)
  | choice (test consequent alternate : Expr)

namespace Token

/-- The text is a number token of that value. -/
def IsNumber (raw : String) (value : Value) : Prop :=
  number.Accepts raw.toList ∧ ∃ n, Number.ofToken? raw.toList = some n ∧ value = .ofNumber n

/-- The text is a string token of that value. -/
def IsString (raw : String) (value : Value) : Prop :=
  string.Accepts raw.toList ∧ value = .text (String.ofList (decodeString raw.toList))

/-- The text is a word of that value. -/
inductive IsKeyword : String → Value → Prop where
  | true : IsKeyword "true" (.bool true)
  | false : IsKeyword "false" (.bool false)
  | null : IsKeyword "null" .null

/-- The text is a name, reserved or not. -/
def IsName (name : String) : Prop :=
  Token.name.Accepts name.toList

end Token

namespace Value

/-- A literal of a source. -/
def literal (span : Span) (raw : String) (value : Value) : Value :=
  .ofTree
    { kind := some "Literal", span := some span, raw := some raw, children := none,
      fields := [("value", value)] }

/-- A node of a source that is made of parts. -/
def branch (kind : String) (span : Span) (fields : List (String × Value)) : Value :=
  .ofTree (.make kind (some span) fields)

/-- A name of a source. -/
def identifier (span : Span) (name : String) : Value :=
  branch "Identifier" span [("name", .text name)]

end Value

/-- What a place in a tree holds. -/
inductive Role where
  | value
  /-- An element of an array, which may be a hole. -/
  | element
  /-- The key of a property. -/
  | key
  | property

/-- `Depicts role v e`: the tree `v` shows the expression `e` in a place of that role. The texts
of leaves and the symbols of operators are ones that the grammar reads. -/
inductive Depicts : Role → Value → Expr → Prop where

  | literal {raw : String} {value : Value} {span : Span} :
      Token.IsNumber raw value ∨ Token.IsString raw value ∨ Token.IsKeyword raw value →
      Depicts .value (.literal span raw value) (.literal raw)

  | name {name : String} {span : Span} : Token.IsName name → name ∉ Token.reservedWords →
      Depicts .value (.identifier span name) (.name name)

  | hole : Depicts .element .null .hole

  | element {v : Value} {e : Expr} : Depicts .value v e → Depicts .element v e

  | array {items : List Value} {elements : List Expr} {span : Span} :
      items.length = elements.length →
      (∀ v e, (v, e) ∈ items.zip elements → Depicts .element v e) →
      Depicts .value (.branch "ArrayExpression" span [("elements", .ofList items)])
        (.array elements)

  | keyName {name : String} {span : Span} : Token.IsName name →
      Depicts .key (.identifier span name) (.name name)

  | keyLiteral {raw : String} {value : Value} {span : Span} :
      Token.IsNumber raw value ∨ Token.IsString raw value →
      Depicts .key (.literal span raw value) (.literal raw)

  | property {k v : Value} {key value : Expr} {span : Span} :
      Depicts .key k key → Depicts .value v value →
      Depicts .property (.branch "Property" span [("key", k), ("value", v)]) (.property key value)

  | object {items : List Value} {properties : List Expr} {span : Span} :
      items.length = properties.length →
      (∀ v e, (v, e) ∈ items.zip properties → Depicts .property v e) →
      Depicts .value (.branch "ObjectExpression" span [("properties", .ofList items)])
        (.object properties)

  | member {v : Value} {object : Expr} {name : String} {inner span : Span} :
      Depicts .value v object → Token.IsName name →
      Depicts .value
        (.branch "MemberExpression" span
          [("object", v), ("property", .identifier inner name), ("computed", .bool false)])
        (.member object name)

  | index {v w : Value} {object property : Expr} {span : Span} :
      Depicts .value v object → Depicts .value w property →
      Depicts .value
        (.branch "MemberExpression" span
          [("object", v), ("property", w), ("computed", .bool true)])
        (.index object property)

  | call {v : Value} {items : List Value} {callee : Expr} {arguments : List Expr} {span : Span} :
      Depicts .value v callee → items.length = arguments.length →
      (∀ v e, (v, e) ∈ items.zip arguments → Depicts .value v e) →
      Depicts .value
        (.branch "CallExpression" span [("callee", v), ("arguments", .ofList items)])
        (.call callee arguments)

  | unary {symbol : String} {v : Value} {argument : Expr} {span : Span} :
      symbol ∈ UnaryOperator.all.map (·.symbol) → Depicts .value v argument →
      Depicts .value
        (.branch "UnaryExpression" span [("operator", .text symbol), ("argument", v)])
        (.unary symbol argument)

  | binary {symbol : String} {v w : Value} {left right : Expr} {span : Span} :
      symbol ∈ infixSymbols → Depicts .value v left → Depicts .value w right →
      Depicts .value
        (.branch "BinaryExpression" span
          [("operator", .text symbol), ("left", v), ("right", w)])
        (.binary symbol left right)

  | choice {t c a : Value} {test consequent alternate : Expr} {span : Span} :
      Depicts .value t test → Depicts .value c consequent → Depicts .value a alternate →
      Depicts .value
        (.branch "ConditionalExpression" span
          [("test", t), ("consequent", c), ("alternate", a)])
        (.choice test consequent alternate)

/-- What holds of the right one of two things that stand side by side. -/
theorem forall_of_zip {p : Expr → Prop} {items : List Value} {es : List Expr}
    (hl : items.length = es.length) (h : ∀ v e, (v, e) ∈ items.zip es → p e) : ∀ e ∈ es, p e := by
  intro e he
  rw [← List.map_snd_zip (Nat.le_of_eq hl.symm), List.mem_map] at he
  obtain ⟨⟨v, f⟩, hm, rfl⟩ := he
  exact h v f hm

/-- The trees show the expressions, one by one. -/
def DepictsEach (role : Role) (items : List Value) (es : List Expr) : Prop :=
  items.length = es.length ∧ ∀ v e, (v, e) ∈ items.zip es → Depicts role v e

namespace DepictsEach

variable {role : Role} {v : Value} {e : Expr} {items others : List Value} {es fs : List Expr}

theorem nil : DepictsEach role [] [] :=
  ⟨rfl, nofun⟩

theorem cons (h : Depicts role v e) (hs : DepictsEach role items es) :
    DepictsEach role (v :: items) (e :: es) := by
  refine ⟨by simp [hs.1], fun w f hw => ?_⟩
  rcases List.mem_cons.mp hw with hw | hw
  · cases hw
    exact h
  · exact hs.2 w f hw

theorem of_cons (h : DepictsEach role (v :: items) es) :
    ∃ e fs, es = e :: fs ∧ Depicts role v e ∧ DepictsEach role items fs := by
  obtain ⟨hl, hall⟩ := h
  cases es with
  | nil => cases hl
  | cons e fs =>
    exact ⟨e, fs, rfl, hall v e List.mem_cons_self, Nat.succ.inj hl,
      fun w f hw => hall w f (List.mem_cons_of_mem _ hw)⟩

theorem of_nil (h : DepictsEach role [] es) : es = [] :=
  List.eq_nil_of_length_eq_zero h.1.symm

end DepictsEach

namespace Depicts

/-- Every tree of a source knows which part of it it was matched on. -/
theorem matchedSpan {v : Value} {e : Expr} (h : Depicts .value v e) :
    ∃ span, v.matchedSpan = .ok span := by
  cases h <;> exact ⟨_, rfl⟩

theorem spanning {v w : Value} {e f : Expr} (hv : Depicts .value v e) (hw : Depicts .value w f) :
    ∃ span, v.spanning w = .ok span := by
  obtain ⟨s, hs⟩ := hv.matchedSpan
  obtain ⟨t, ht⟩ := hw.matchedSpan
  exact ⟨⟨s.start, t.stop⟩, by simp only [Value.spanning, hs, ht]; rfl⟩

end Depicts

namespace Expr

def isHole : Expr → Bool
  | .hole => true
  | _ => false

/-! ## Leaves -/

mutual

/-- The texts of an expression that are not fixed by its shape, from left to right. -/
def leaves : Expr → List String
  | .literal raw => [raw]
  | .name s => [s]
  | .hole => []
  | .array elements => leavesOf elements
  | .property k v => leaves k ++ leaves v
  | .object properties => leavesOf properties
  | .member target s => leaves target ++ [s]
  | .index target k => leaves target ++ leaves k
  | .call callee arguments => leaves callee ++ leavesOf arguments
  | .unary _ argument => leaves argument
  | .binary _ left right => leaves left ++ leaves right
  | .choice test consequent alternate => leaves test ++ leaves consequent ++ leaves alternate

def leavesOf : List Expr → List String
  | [] => []
  | e :: es => leaves e ++ leavesOf es

end

theorem leavesOf_eq_flatMap (es : List Expr) : leavesOf es = es.flatMap leaves := by
  induction es with
  | nil => rfl
  | cons e es ih => rw [leavesOf, ih, List.flatMap_cons]

@[simp] theorem leavesOf_append (es fs : List Expr) :
    leavesOf (es ++ fs) = leavesOf es ++ leavesOf fs := by
  induction es with
  | nil => rfl
  | cons e es ih => simp [leavesOf, ih]

end Expr

end GatedExpr
