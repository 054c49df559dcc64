import GatedExpr.Proofs.Grammar.Layout
import GatedExpr.Proofs.Grammar.Rules
import GatedExpr.Proofs.Grammar.Transforms

/-! # How expressions are written

The texts that the rules of the expression grammar read one after the other, rule by rule, and how
deep references have to be followed for it. A hole and an empty list cost depth as well: what is
missing there is tried first.
-/

namespace GatedExpr

open ExpressionGrammar

/-- What a matcher of the grammar is about. -/
inductive Construct where
  | item (role : Role) (e : Expr)
  | operand (e : Expr)
  | base (e : Expr)
  | suffix (suffix : Expr.Suffix)
  | operation (operation : String × Expr)
  | branches (chosen : Option (Expr × Expr))
  /-- An item after a comma. -/
  | further (role : Role) (e : Expr)

namespace Role

/-- What reads an item. -/
def matcher : Role → Matcher
  | value => named "Expression"
  | element => .optional (named "Expression")
  | key => named "PropertyKey"
  | property => named "Property"

/-- The result of reading an item: an element that is missing is no tree yet. -/
def Shows : Role → Expr → Value → Prop
  | element, e, v => MaybeDepicts v e
  | role, e, v => Depicts role v e

end Role

namespace Construct

def matcher : Construct → Matcher
  | item role _ => role.matcher
  | operand _ => ExpressionGrammar.operand
  | base _ => named "Primary"
  | suffix _ => suffixes
  | operation _ => ExpressionGrammar.operation
  | branches _ => .optional ExpressionGrammar.branches
  | further role _ => .sequence [mark ",", role.matcher]

def Shows : Construct → Value → Prop
  | item role e, v => role.Shows e v
  | operand e, v | base e, v => Depicts .value v e
  | suffix s, v => ShowsSuffix v s
  | operation o, v => ShowsPair v o
  | branches chosen, v => ShowsBranches v chosen
  | further role e, v => ∃ comma item, v = .ofList [comma, item] ∧ role.Shows e item

end Construct

/-- `Written depth c texts`: the texts are a way to write `c` that is read without references
being followed more than `depth` levels deep. Things in a list come with their own texts. -/
inductive Written : Nat → Construct → List String → Prop where

  | expression {n : Nat} {e : Expr} {chosen : Option (Expr × Expr)}
      {operations : List ((String × Expr) × List String)} {s t : List String} :
      Written n (.operand e) s →
      (∀ operation ∈ operations, Written n (.operation operation.1) operation.2) →
      Written n (.branches chosen) t →
      Written (n + 1) (.item .value ((Expr.fold e (operations.map (·.1))).withBranches chosen))
        (s ++ (operations.flatMap (·.2) ++ t))

  | operation {n : Nat} {symbol : String} {e : Expr} {s : List String} :
      symbol ∈ infixSymbols → Written n (.operand e) s →
      Written n (.operation (symbol, e)) (symbol :: s)

  | noBranches {n : Nat} : Written n (.branches none) []

  | branches {n : Nat} {e f : Expr} {s t : List String} :
      Written n (.item .value e) s → Written n (.item .value f) t →
      Written n (.branches (some (e, f))) ("?" :: (s ++ ":" :: t))

  | hole {n : Nat} : 4 ≤ n → Written n (.item .element .hole) []

  | element {n : Nat} {e : Expr} {s : List String} :
      Written n (.item .value e) s → Written n (.item .element e) s

  | keyName {n : Nat} {name : String} : 2 ≤ n → Token.IsName name →
      Written n (.item .key (.name name)) [name]

  | keyLiteral {n : Nat} {raw : String} {value : Value} : 2 ≤ n →
      Token.IsNumber raw value ∨ Token.IsString raw value →
      Written n (.item .key (.literal raw)) [raw]

  | property {n : Nat} {k e : Expr} {s t : List String} :
      Written n (.item .key k) s → Written n (.item .value e) t →
      Written (n + 1) (.item .property (.property k e)) (s ++ ":" :: t)

  | further {n : Nat} {role : Role} {e : Expr} {s : List String} :
      Written n (.item role e) s → Written n (.further role e) ("," :: s)

  | literal {n : Nat} {raw : String} {value : Value} : 2 ≤ n →
      Token.IsNumber raw value ∨ Token.IsString raw value ∨ Token.IsKeyword raw value →
      Written n (.base (.literal raw)) [raw]

  | name {n : Nat} {name : String} : 2 ≤ n → Token.IsName name → name ∉ Token.reservedWords →
      Written n (.base (.name name)) [name]

  | array {n : Nat} {e : Expr} {es : List (Expr × List String)} {s : List String} :
      Written n (.item .element e) s → (∀ f ∈ es, Written n (.further .element f.1) f.2) →
      Written (n + 2) (.base (.array (Expr.kept (e :: es.map (·.1)))))
        ("[" :: (s ++ (es.flatMap (·.2) ++ ["]"])))

  | emptyObject {n : Nat} : 3 ≤ n → Written (n + 2) (.base (.object [])) ["\x7b", "\x7d"]

  | object {n : Nat} {p : Expr} {ps : List (Expr × List String)} {s t : List String} :
      Written n (.item .property p) s → (∀ q ∈ ps, Written n (.further .property q.1) q.2) →
      t = [] ∨ t = [","] →
      Written (n + 2) (.base (.object (p :: ps.map (·.1))))
        ("\x7b" :: (s ++ (ps.flatMap (·.2) ++ (t ++ ["\x7d"]))))

  | parenthesized {n : Nat} {e : Expr} {s : List String} : Written n (.item .value e) s →
      Written (n + 2) (.base e) ("(" :: (s ++ [")"]))

  | dot {n : Nat} {name : String} : 2 ≤ n → Token.IsName name →
      Written n (.suffix (.dot name)) [".", name]

  | index {n : Nat} {k : Expr} {s : List String} : Written n (.item .value k) s →
      Written (n + 1) (.suffix (.index k)) ("[" :: (s ++ ["]"]))

  | noArguments {n : Nat} : 4 ≤ n → Written (n + 1) (.suffix (.arguments [])) ["(", ")"]

  | arguments {n : Nat} {e : Expr} {es : List (Expr × List String)} {s : List String} :
      Written n (.item .value e) s → (∀ f ∈ es, Written n (.further .value f.1) f.2) →
      Written (n + 1) (.suffix (.arguments (e :: es.map (·.1))))
        ("(" :: (s ++ (es.flatMap (·.2) ++ [")"])))

  | unary {n : Nat} {symbol : String} {e : Expr} {s : List String} :
      symbol ∈ UnaryOperator.all.map (·.symbol) → Written n (.operand e) s →
      Written (n + 2) (.operand (.unary symbol e)) (symbol :: s)

  | chain {n : Nat} {e : Expr} {suffixes : List (Expr.Suffix × List String)} {s : List String} :
      Written n (.base e) s → (∀ suffix ∈ suffixes, Written n (.suffix suffix.1) suffix.2) →
      Written (n + 1) (.operand ((suffixes.map (·.1)).foldl Expr.Suffix.apply e))
        (s ++ suffixes.flatMap (·.2))

namespace Written

variable {n m : Nat} {c : Construct} {texts : List String}

theorem succ (h : Written n c texts) : Written (n + 1) c texts := by
  induction h with
  | expression _ _ _ ih ihs ih' => exact .expression ih ihs ih'
  | operation hs _ ih => exact .operation hs ih
  | noBranches => exact .noBranches
  | branches _ _ ih ih' => exact .branches ih ih'
  | hole hn => exact .hole (Nat.le_succ_of_le hn)
  | element _ ih => exact .element ih
  | keyName hn h => exact .keyName (Nat.le_succ_of_le hn) h
  | keyLiteral hn h => exact .keyLiteral (Nat.le_succ_of_le hn) h
  | property _ _ ih ih' => exact .property ih ih'
  | further _ ih => exact .further ih
  | literal hn h => exact .literal (Nat.le_succ_of_le hn) h
  | name hn h hf => exact .name (Nat.le_succ_of_le hn) h hf
  | array _ _ ih ihs => exact .array ih ihs
  | emptyObject hn => exact .emptyObject (Nat.le_succ_of_le hn)
  | object _ _ ht ih ihs => exact .object ih ihs ht
  | parenthesized _ ih => exact .parenthesized ih
  | dot hn h => exact .dot (Nat.le_succ_of_le hn) h
  | index _ ih => exact .index ih
  | noArguments hn => exact .noArguments (Nat.le_succ_of_le hn)
  | arguments _ _ ih ihs => exact .arguments ih ihs
  | unary hs _ ih => exact .unary hs ih
  | chain _ _ ih ihs => exact .chain ih ihs

/-- What is read at some depth is read at any greater one. -/
theorem mono (h : Written n c texts) (hle : n ≤ m) : Written m c texts := by
  induction hle with
  | refl => exact h
  | step _ ih => exact ih.succ

theorem of_operand {e : Expr} (h : Written n (.operand e) texts) :
    Written (n + 1) (.item .value e) texts := by
  have hrun := @Written.expression n e none [] texts [] h nofun .noBranches
  rwa [List.flatMap_nil, List.append_nil, List.append_nil] at hrun

theorem of_base {e : Expr} (h : Written n (.base e) texts) :
    Written (n + 1) (.operand e) texts := by
  have hchain := @Written.chain n e [] texts h nofun
  rwa [List.flatMap_nil, List.append_nil] at hchain

end Written

end GatedExpr
