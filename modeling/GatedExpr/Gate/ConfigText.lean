import GatedExpr.Fault
import GatedExpr.Grammar.Token
import GatedExpr.Number.Numeral
import GatedExpr.Table

/-! # Written configurations

The text of a configuration file is a single value in brackets, braces, quotes and plain words.
An empty file holds null. Spaces and line breaks may stand between the parts, tabs may not. A key
lies on one line, with its colon close by. Line breaks between quotes are folded, and a line there
must not look like the mark between two documents.
-/

namespace GatedExpr.ConfigText

/-- Whether a character may occur in a configuration at all. -/
def isAllowed (c : Char) : Bool :=
  c ∈ ['\t', '\n', '\r', '\u0085'] || (' ' ≤ c && c ≤ '~') || ('\u00a0' ≤ c && c ≤ '\ufffd')
    || '\uffff' < c

def isBreak (c : Char) : Bool :=
  c ∈ ['\n', '\r', '\u0085', '\u2028', '\u2029']

def isBlank (c : Char) : Bool :=
  c == ' ' || c == '\t'

def isSpace (c : Char) : Bool :=
  c == ' ' || isBreak c

def skipSpace (text : List Char) : List Char :=
  text.dropWhile isSpace

/-- Whether a character ends a plain word. -/
def endsWord (c : Char) : Bool :=
  isSpace c || c == '\t' || c == ',' || c == ':' || c == ']' || c == '\x7d'

/-- What is wrong where something else should stand. -/
def problemAt : List Char → ConfigTextProblem
  | '\t' :: _ => .token
  | _ => .order

/-- What a line break stands for among quoted characters. -/
def breakText (c : Char) : Char :=
  if c == '\u2028' || c == '\u2029' then c else '\n'

/-- Whether a line starts with the mark that begins or ends a document, and nothing joins it. -/
def isDocumentMark (line : List Char) : Bool :=
  (line.take 3 == "---".toList || line.take 3 == "...".toList)
    && (line.drop 3).head?.all fun c => isBlank c || isBreak c

/-- The further line breaks after a first one, with the blanks before and between them skipped. -/
def takeBreaks : Nat → List Char → Except ConfigTextProblem (List Char × List Char)
  | 0, _ => .error .token
  | fuel + 1, text =>
    if isDocumentMark text then .error .token
    else
      match text.dropWhile isBlank with
      | c :: rest =>
        if isBreak c then do
          let (breaks, after) ← takeBreaks fuel rest
          return (breakText c :: breaks, after)
        else .ok ([], c :: rest)
      | [] => .ok ([], [])

/-- A quoted line break. A single line feed folds to a space, and of several the first one goes. -/
def foldBreaks (first : Char) (others : List Char) : List Char :=
  if breakText first != '\n' then first :: others
  else if others.isEmpty then [' ']
  else others

/-- Reads the inside of a quoted text up to the closing quote. Every step reads something. -/
def readQuoted : Nat → List Char → Except ConfigTextProblem (List Char × List Char)
  | 0, _ => .error .token
  | fuel + 1, text => do
    let blanks := text.takeWhile isBlank
    match text.dropWhile isBlank with
    | [] => .error .token
    | '"' :: rest => return (blanks, rest)
    | '\\' :: rest =>
      match Token.escape? rest with
      | some (characters, length) =>
        let (others, after) ← readQuoted fuel (rest.drop length)
        return (blanks ++ characters ++ others, after)
      | none => .error .token
    | c :: rest =>
      if isBreak c then
        let (breaks, rest) ← takeBreaks fuel rest
        let (others, after) ← readQuoted fuel rest
        return (foldBreaks c breaks ++ others, after)
      else
        let (others, after) ← readQuoted fuel rest
        return (blanks ++ c :: others, after)

/-- Whether an exponent, which must have a sign, or nothing follows. -/
def endsNumeral : List Char → Bool
  | [] => true
  | mark :: sign :: digits =>
    (mark == 'e' || mark == 'E') && (sign == '+' || sign == '-')
      && !digits.isEmpty && digits.all Char.isDigit
  | _ => false

/-- The number that a word writes, if it does. A double has a point. -/
def numberOf? (word : List Char) : Option Number :=
  let (negative, unsigned) := match word with
    | '-' :: rest => (true, rest)
    | rest => (false, rest)
  match Numeral.read? (fun c => (Text.asciiDigitValue? c).filter (· < 10)) unsigned with
  | some (numeral, []) =>
    let tail := unsigned.dropWhile Char.isDigit
    if numeral.whole.isEmpty then none
    else if numeral.isPlain then
      let size : Int := Text.valueOfDigits 10 numeral.whole
      some (.int (if negative then -size else size))
    else if tail.head? == some '.' && endsNumeral ((tail.drop 1).dropWhile Char.isDigit) then
      some (.float (numeral.toSignedFloat negative))
    else none
  | _ => none

/-- What a plain word stands for. -/
def ofWord (word : List Char) : Value :=
  if word == "null".toList then .null
  else if word == "true".toList then .bool true
  else if word == "false".toList then .bool false
  else
    match numberOf? word with
    | some n => .ofNumber n
    | none => .text (String.ofList word)

/-- How far a colon may be from the start of its key. -/
def widestKey : Nat := 1024

/-- How many brackets and braces may be open at a time. -/
def deepest : Nat := 480

/-- What follows the colon of a key that was read from `text` on and has `after` behind it. From
the start of the key to the colon there must be no line break, not even between quotes. -/
def afterColon (text after : List Char) : Except ConfigTextProblem (List Char) :=
  match skipSpace after with
  | ':' :: rest =>
    let key := text.take (text.length - (rest.length + 1))
    if key.any isBreak || widestKey < key.length then .error .order else .ok rest
  | rest => .error (problemAt rest)

mutual

/-- Reads a value inside of which `room` further ones may be open, and yields what follows it. -/
def readValue (room : Nat) : Nat → List Char → Except ConfigTextProblem (Value × List Char)
  | 0, _ => .error .order
  | fuel + 1, text =>
    match skipSpace text with
    | '"' :: rest => do
      let (characters, after) ← readQuoted (rest.length + 1) rest
      return (.text (String.ofList characters), after)
    | '[' :: rest =>
      match room with
      | 0 => .error .depth
      | room + 1 => do
        let (items, after) ← readItems room fuel (skipSpace rest)
        return (.ofList items, after)
    | '\x7b' :: rest =>
      match room with
      | 0 => .error .depth
      | room + 1 => do
        let (entries, after) ← readEntries room fuel (skipSpace rest) []
        return (.ofEntries entries, after)
    | rest =>
      match rest.takeWhile (!endsWord ·) with
      | [] => .error (problemAt rest)
      | word => .ok (ofWord word, rest.drop word.length)

/-- Reads items up to the closing bracket. -/
def readItems (room : Nat) : Nat → List Char → Except ConfigTextProblem (List Value × List Char)
  | 0, _ => .error .order
  | _, ']' :: rest => .ok ([], rest)
  | fuel + 1, text => do
    let (item, after) ← readValue room fuel text
    match skipSpace after with
    | ',' :: rest =>
      let (items, after) ← readItems room fuel (skipSpace rest)
      return (item :: items, after)
    | ']' :: rest => return ([item], rest)
    | rest => throw (problemAt rest)

/-- Reads entries up to the closing brace. The last of several values for a key counts. -/
def readEntries (room : Nat) : Nat → List Char → List (String × Value) →
    Except ConfigTextProblem (List (String × Value) × List Char)
  | 0, _, _ => .error .order
  | _, '\x7d' :: rest, entries => .ok (entries, rest)
  | fuel + 1, text, entries => do
    let (key, after) ← readValue room fuel text
    let rest ← afterColon text after
    match key with
    | .text key =>
      let (value, after) ← readValue room fuel rest
      let entries := Table.set key value entries
      match skipSpace after with
      | ',' :: rest => readEntries room fuel (skipSpace rest) entries
      | '\x7d' :: rest => return (entries, rest)
      | rest => throw (problemAt rest)
    | _ => throw .order

end

/-- The text behind the byte order mark, which may come first. -/
def withoutByteOrderMark : List Char → List Char
  | '\ufeff' :: rest => rest
  | text => text

/-- The value that a text holds. Every step of the reader but one in three reads something. -/
def read (text : List Char) : Except ConfigTextProblem Value := do
  if !text.all isAllowed then throw .character
  let text := withoutByteOrderMark text
  if (skipSpace text).isEmpty then return .null
  let (value, after) ← readValue deepest (3 * text.length + 3) text
  if (skipSpace after).isEmpty then return value else throw (problemAt (skipSpace after))

end GatedExpr.ConfigText
