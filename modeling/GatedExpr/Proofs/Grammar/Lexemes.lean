import GatedExpr.Grammar.Basic

/-! # Lexemes of a run

The pieces of text that a successful run is made of: leaves, operators and punctuation marks. What
is skipped before them is left out, and so is whatever was tried and given up.
-/

namespace GatedExpr

/-- A piece of text that was matched as a whole. -/
structure Lexeme where
  text : String
  span : Span
  deriving DecidableEq, Repr

/-- What a reference adds to the lexemes of a run: by owner and rule name. -/
abbrev LexemesOf := GrammarId → String → Cursor → List Lexeme

namespace Matcher

/-- The lexemes of all rounds of a repetition. -/
def repeatLexemes (step : Cursor → Outcome Value × Cursor) (lexemes : Cursor → List Lexeme) :
    List Char → Cursor → List Lexeme
  | [], _ => []
  | _ :: rounds, cursor =>
    if cursor.atEnd then []
    else
      match step cursor with
      | (.matched _, next) =>
        if next.position = cursor.position then lexemes cursor
        else lexemes cursor ++ repeatLexemes step lexemes rounds next
      | _ => []

variable (follow : Follow) (inner : LexemesOf)

mutual

/-- The lexemes of a run that succeeds. -/
def lexemes : Matcher → Cursor → List Lexeme
  | .literal expected, cursor =>
    match cursor.readLiteral expected.toList with
    | (true, next) => [⟨expected, next.spanSince cursor.position⟩]
    | (false, _) => []
  | .pattern expected, cursor =>
    match cursor.readPattern expected with
    | (some raw, next) => [⟨String.ofList raw, next.spanSince cursor.position⟩]
    | (none, _) => []
  | .reference owner kind, cursor => inner owner kind cursor
  | .sequence parts, cursor => lexemesEach parts cursor
  | .alternation options, cursor => lexemesFirst options cursor
  | .repetition _ body, cursor =>
    repeatLexemes (body.run follow) (lexemes body) cursor.ahead cursor
  | .optional body, cursor =>
    match body.run follow cursor with
    | (.matched _, _) => lexemes body cursor
    | _ => []
  | .after skipped body, cursor =>
    match skipped.run follow cursor with
    | (.matched _, next) => lexemes body next
    | _ => []
  | .unrunnable, _ => []

/-- The lexemes of matchers that run one after the other. -/
def lexemesEach : List Matcher → Cursor → List Lexeme
  | [], _ => []
  | part :: parts, cursor =>
    match part.run follow cursor with
    | (.matched _, next) => lexemes part cursor ++ lexemesEach parts next
    | _ => []

/-- The lexemes of the first matcher that does not fail. -/
def lexemesFirst : List Matcher → Cursor → List Lexeme
  | [], _ => []
  | option :: options, cursor =>
    match option.run follow cursor with
    | (.failed, next) => lexemesFirst options (cursor.rewind next)
    | _ => lexemes option cursor

end

theorem lexemes_reference (owner : GrammarId) (kind : String) (cursor : Cursor) :
    (reference owner kind).lexemes follow inner cursor = inner owner kind cursor := by
  rw [lexemes]

end Matcher

namespace Descriptor

variable (follow : Follow) (inner : LexemesOf)

def fallBackLexemes (descriptor : Descriptor) (cursor : Cursor) : List Lexeme :=
  match descriptor.fallback with
  | some matcher => matcher.lexemes follow inner cursor
  | none => []

/-- The lexemes of the rule, or of what runs in its place. -/
def lexemes (descriptor : Descriptor) (cursor : Cursor) : List Lexeme :=
  match descriptor.rule with
  | none => []
  | some matcher =>
    match matcher.run follow cursor with
    | (.broken _, _) => []
    | (.failed, next) => descriptor.fallBackLexemes follow inner (cursor.rewind next)
    | (.matched value, next) =>
      match descriptor.transformed value with
      | .error _ => []
      | .ok none => descriptor.fallBackLexemes follow inner (cursor.rewind next)
      | .ok (some _) => matcher.lexemes follow inner cursor

end Descriptor

namespace Family

/-- The lexemes of what references lead to, followed at most `depth` levels deep. -/
def lexemesOf (family : Family) : Nat → Option GrammarId → LexemesOf
  | 0, _ => fun _ _ _ => []
  | depth + 1, active => fun owner kind cursor =>
    match family.resolve? active owner kind with
    | none => []
    | some (home, descriptor) =>
      descriptor.lexemes (family.follow depth (some home)) (lexemesOf family depth (some home))
        cursor

/-- The lexemes of a parse that succeeds, in the order of the source. -/
def lexemes (family : Family) (id : GrammarId) (source : List Char) (kind : String) :
    List Lexeme :=
  match family.rule? id kind with
  | none => []
  | some descriptor =>
    descriptor.lexemes (family.follow nestingLimit (some id))
      (family.lexemesOf nestingLimit (some id)) (.start source 0)

end Family

end GatedExpr
