import GatedExpr.Grammar.Pattern

/-! # Reading patterns

The written form of patterns: characters and escapes, classes in brackets, groups, alternatives,
the repetitions `*`, `+` and `?`, and negative look-ahead.
-/

namespace GatedExpr.Regex

/-- The class that an escaped character stands for. -/
def escapedClass (c : Char) : CharClass :=
  if c == 'd' then .decimal
  else if c == 's' then .blank
  else if c == 'w' then .word
  else if c == 'n' then .char '\n'
  else if c == 't' then .char '\t'
  else if c == 'r' then .char '\r'
  else .char c

/-- The classes up to the closing bracket, and the rest. -/
def readClasses? : List Char → Option (List CharClass × List Char)
  | [] => none
  | ']' :: rest => some ([], rest)
  | '\\' :: c :: rest =>
    (readClasses? rest).map fun (classes, after) => (escapedClass c :: classes, after)
  | first :: '-' :: last :: rest =>
    if last == ']' then
      (readClasses? (last :: rest)).map fun (classes, after) =>
        (.char first :: .char '-' :: classes, after)
    else
      (readClasses? rest).map fun (classes, after) => (.range first last :: classes, after)
  | c :: rest => (readClasses? rest).map fun (classes, after) => (.char c :: classes, after)

/-- Applies the repetition marks that follow a part. -/
def readRepetition (part : Regex) : List Char → Regex × List Char
  | '*' :: rest => (.star part, rest)
  | '+' :: rest => (part.plus, rest)
  | '?' :: rest => (part.optional, rest)
  | rest => (part, rest)

mutual

/-- Alternatives up to a closing parenthesis or the end. -/
def readAlternatives? : Nat → List Char → Option (Regex × List Char)
  | 0, _ => none
  | fuel + 1, text => do
    let (first, rest) ← readSequence? fuel text
    match rest with
    | '|' :: rest =>
      let (others, rest) ← readAlternatives? fuel rest
      return (.alt first others, rest)
    | _ => return (first, rest)

/-- Parts up to a bar, a closing parenthesis or the end. -/
def readSequence? : Nat → List Char → Option (Regex × List Char)
  | 0, _ => none
  | fuel + 1, text =>
    match text with
    | [] => some (.empty, text)
    | '|' :: _ | ')' :: _ => some (.empty, text)
    | _ => do
      let (part, rest) ← readPart? fuel text
      let (part, rest) := readRepetition part rest
      let (others, rest) ← readSequence? fuel rest
      return (if others = .empty then part else .seq part others, rest)

/-- One part without its repetition mark. -/
def readPart? : Nat → List Char → Option (Regex × List Char)
  | 0, _ => none
  | fuel + 1, text =>
    match text with
    | '(' :: '?' :: ':' :: rest => readGroup? fuel rest
    | '(' :: '?' :: '!' :: rest => do
      let (body, rest) ← readGroup? fuel rest
      return (.notAhead body, rest)
    | '(' :: '?' :: _ => none
    | '(' :: rest => readGroup? fuel rest
    | '[' :: '^' :: rest => do
      let (classes, rest) ← readClasses? rest
      return (.oneOf true classes, rest)
    | '[' :: rest => do
      let (classes, rest) ← readClasses? rest
      return (.oneOf false classes, rest)
    | '.' :: rest => some (anyChar, rest)
    | '\\' :: c :: rest => some (.oneOf false [escapedClass c], rest)
    | c :: rest => if c ∈ ['*', '+', '?', '\\'] then none else some (char c, rest)
    | [] => none

/-- The inside of a group and its closing parenthesis. -/
def readGroup? : Nat → List Char → Option (Regex × List Char)
  | 0, _ => none
  | fuel + 1, text => do
    match ← readAlternatives? fuel text with
    | (body, ')' :: rest) => return (body, rest)
    | _ => none

end

end GatedExpr.Regex

namespace GatedExpr.Pattern

/-- The pattern with the given text. Every part takes at most four steps of the reader. -/
def ofText? (text : String) (flags : Int := 0) : Option Pattern :=
  match Regex.readAlternatives? (4 * text.length + 4) text.toList with
  | some (regex, []) => some { text, flags, regex }
  | _ => none

end GatedExpr.Pattern
