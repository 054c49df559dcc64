import GatedExpr.Grammar.Pattern

/-! # Tokens of the expression language

The patterns of numbers, strings, keywords and names, and what a string token stands for.
-/

namespace GatedExpr.Token

def hexDigit : Regex := .oneOf false [.range '0' '9', .range 'a' 'f', .range 'A' 'F']

def decimalDigit : Regex := .oneOf false [.decimal]

def wordOrDollar : Regex := .oneOf false [.word, .char '$']

/-- A hexadecimal integer, or digits with an optional point and an optional exponent. -/
def number : Pattern :=
  { text := "0[xX][0-9a-fA-F]+|(?:\\d+(?:\\.\\d*)?|\\.\\d+)(?:[eE][+-]?\\d+)?"
    flags := 0
    regex :=
      .alt
        (.seq (.char '0') (.seq (.oneOf false [.char 'x', .char 'X']) hexDigit.plus))
        (.seq
          (.alt
            (.seq decimalDigit.plus
              (Regex.optional (.seq (.char '.') (.star decimalDigit))))
            (.seq (.char '.') decimalDigit.plus))
          (Regex.optional
            (.seq (.oneOf false [.char 'e', .char 'E'])
              (.seq (Regex.optional (.oneOf false [.char '+', .char '-']))
                decimalDigit.plus)))) }

/-- A string between two marks: a backslash takes the next character with it, and neither
reaches beyond the line. -/
def stringIn (mark : Char) : Regex :=
  .seq (.char mark)
    (.seq
      (.star
        (.alt (.oneOf true [.char mark, .char '\\', .char '\n'])
          (.seq (.char '\\') Regex.anyChar)))
      (.char mark))

def string : Pattern :=
  { text := "\"(?:[^\"\\\\\\n]|\\\\.)*\"|'(?:[^'\\\\\\n]|\\\\.)*'"
    flags := 0
    regex := .alt (stringIn '"') (stringIn '\'') }

def name : Pattern :=
  { text := "[A-Za-z_$][\\w$]*"
    flags := 0
    regex :=
      .seq (.oneOf false [.range 'A' 'Z', .range 'a' 'z', .char '_', .char '$'])
        (.star wordOrDollar) }

/-- A keyword that is not the start of a longer name. -/
def keyword : Pattern :=
  { text := "(?:true|false|null)(?![\\w$])"
    flags := 0
    regex :=
      .seq
        (.alt (Regex.literal ['t', 'r', 'u', 'e'])
          (.alt (Regex.literal ['f', 'a', 'l', 's', 'e']) (Regex.literal ['n', 'u', 'l', 'l'])))
        (.notAhead wordOrDollar) }

/-- Names that no identifier may have. As property names they are free. -/
def reservedWords : List String :=
  ["true", "false", "null", "new", "this", "typeof", "delete", "void", "function", "var", "let",
    "const", "return", "if", "else", "in", "instanceof"]

/-- A character by code point. Code points that are no characters become the replacement
character. -/
def charOfCode (code : Nat) : Char :=
  if _ : code.isValidChar then Char.ofNat code else '\ufffd'

/-- The code point written by hexadecimal digits, if all of them are. -/
def hexCode? (digits : List Char) : Option Nat :=
  ((digits.map fun c => (Text.asciiDigitValue? c).filter (· < 16)).mapM id).map
    (Text.valueOfDigits 16)

/-- What a backslash before a single character stands for. -/
def simpleEscape (c : Char) : List Char :=
  if c == 'n' then ['\n']
  else if c == 't' then ['\t']
  else if c == 'r' then ['\r']
  else if c == 'b' then ['\x08']
  else if c == 'f' then ['\x0c']
  else if c == 'v' then ['\x0b']
  else if c == '0' then ['\x00']
  else if c == '\n' then []
  else [c]

/-- What the escape after a backslash stands for, and how many characters it takes. -/
def escape? : List Char → Option (List Char × Nat)
  | [] => none
  | 'u' :: rest =>
    match rest.take 4 |>.length, hexCode? (rest.take 4) with
    | 4, some code => some ([charOfCode code], 5)
    | _, _ => some (['u'], 1)
  | 'x' :: rest =>
    match rest.take 2 |>.length, hexCode? (rest.take 2) with
    | 2, some code => some ([charOfCode code], 3)
    | _, _ => some (['x'], 1)
  | c :: _ => some (simpleEscape c, 1)

/-- Resolves escapes after skipping characters that belong to one already resolved. A backslash
at the very end stands for itself. -/
def resolveEscapes : Nat → List Char → List Char
  | _, [] => []
  | skip + 1, _ :: rest => resolveEscapes skip rest
  | 0, c :: rest =>
    if c == '\\' then
      match escape? rest with
      | some (characters, length) => characters ++ resolveEscapes length rest
      | none => [c]
    else c :: resolveEscapes 0 rest

/-- The text that a string token stands for. -/
def decodeString (raw : List Char) : List Char :=
  resolveEscapes 0 (raw.drop 1).dropLast

end GatedExpr.Token
