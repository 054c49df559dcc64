import GatedExpr.Text.Blank
import GatedExpr.Text.Case
import GatedExpr.Text.Digit
import GatedExpr.Text.Word

/-! # Patterns

Regular expressions for the leaves of a grammar. Matching is by preference: alternatives from
left to right, repetitions as long as possible, and the first way to succeed counts. All ways
are listed in that order, so that a sequence can fall back on a later one.
-/

namespace GatedExpr

inductive CharClass where
  | char (c : Char)
  | range (first last : Char)
  | decimal
  | blank
  | word
  deriving DecidableEq, Repr

def CharClass.contains : CharClass → Char → Bool
  | .char d, c => c == d
  | .range first last, c => first ≤ c && c ≤ last
  | .decimal, c => Text.isDecimal c
  | .blank, c => Text.isBlank c
  | .word, c => Text.isWord c

/-- Whether `c` is in the class when case is ignored. Case counts for letters that are written
out; a kind of characters is the same in either case. -/
def CharClass.containsVariant (letters : CharClass) (c : Char) : Bool :=
  match letters with
  | .char _ | .range _ _ => (Text.caseVariants c).any letters.contains
  | _ => letters.contains c

inductive Regex where
  | empty
  /-- One character in one of the classes, or in none of them when negated. -/
  | oneOf (negated : Bool) (classes : List CharClass)
  | seq (first second : Regex)
  | alt (first second : Regex)
  /-- Any number of repetitions, more rather than fewer. -/
  | star (body : Regex)
  /-- Succeeds without reading where the body does not match. -/
  | notAhead (body : Regex)
  deriving DecidableEq, Repr

namespace Regex

def char (c : Char) : Regex := .oneOf false [.char c]

/-- Any character but a line feed. -/
def anyChar : Regex := .oneOf true [.char '\n']

def plus (body : Regex) : Regex := .seq body (.star body)

def optional (body : Regex) : Regex := .alt body .empty

def literal (text : List Char) : Regex :=
  text.foldr (fun c rest => .seq (.char c) rest) .empty

/-- A way to match: how many characters were read and what is left. -/
structure Way where
  length : Nat
  rest : List Char

/-- Ways to repeat `step` from `way` on, followed by `others`. A repetition that reads nothing
is not repeated, so the text bounds the number of rounds. -/
def repeatWays (step : List Char → List Way) : List Char → Way → List Way → List Way
  | [], way, others => way :: others
  | _ :: rounds, way, others =>
    (step way.rest).foldr
      (fun next others =>
        if next.length = 0 then others
        else repeatWays step rounds ⟨way.length + next.length, next.rest⟩ others)
      (way :: others)

/-- Whether a character is in one of the classes, in the right case or in any. -/
def classesContain (ignoreCase : Bool) (classes : List CharClass) (c : Char) : Bool :=
  if ignoreCase then classes.any (·.containsVariant c) else classes.any (·.contains c)

/-- All ways to match a start of `text`, in order of preference. -/
def ways (ignoreCase : Bool) : Regex → List Char → List Way
  | .empty, text => [⟨0, text⟩]
  | .oneOf negated classes, text =>
    match text with
    | [] => []
    | c :: rest =>
      if classesContain ignoreCase classes c != negated then [⟨1, rest⟩] else []
  | .seq first second, text =>
    (ways ignoreCase first text).flatMap fun way =>
      (ways ignoreCase second way.rest).map fun next =>
        ⟨way.length + next.length, next.rest⟩
  | .alt first second, text => ways ignoreCase first text ++ ways ignoreCase second text
  | .star body, text => repeatWays (ways ignoreCase body) text ⟨0, text⟩ []
  | .notAhead body, text => if (ways ignoreCase body text).isEmpty then [⟨0, text⟩] else []

end Regex

/-- A regular expression together with the text and flags it is known by. -/
structure Pattern where
  text : String
  flags : Int
  regex : Regex
  deriving DecidableEq, Repr

namespace Pattern

/-- The flag that makes a pattern ignore case. -/
def ignoreCaseFlag : Int := 2

def ignoresCase (pattern : Pattern) : Bool :=
  pattern.flags / ignoreCaseFlag % 2 == 1

/-- The preferred match at the start of `text`. -/
def match? (pattern : Pattern) (text : List Char) : Option Regex.Way :=
  (pattern.regex.ways pattern.ignoresCase text).head?

/-- Any number of blanks. -/
def blanks : Pattern :=
  { text := "\\s*", flags := 0, regex := .star (.oneOf false [.blank]) }

/-- What tells patterns apart. -/
def key (pattern : Pattern) : String :=
  s!"/{pattern.text}/{pattern.flags}"

end Pattern

end GatedExpr
