import GatedExpr.Text.Printable

/-! # Quoted texts

Diagnostics quote a text so that it can be read unambiguously: single quotes unless the text
holds single and no double quotes, and escapes for whatever is not printable. Values are
printed in double quotes, where only the quote, the backslash and controls are escaped.
-/

namespace GatedExpr.Text

/-- The hexadecimal digits of `code`, at least `width` of them. -/
def hex (width code : Nat) : List Char :=
  let digits := Nat.toDigits 16 code
  List.replicate (width - digits.length) '0' ++ digits

/-- An escape by code point, as short as its size allows. -/
def escapeCode (c : Char) : List Char :=
  let code := c.toNat
  if code < 0x100 then '\\' :: 'x' :: hex 2 code
  else if code < 0x10000 then '\\' :: 'u' :: hex 4 code
  else '\\' :: 'U' :: hex 8 code

def quoteMark (text : List Char) : Char :=
  if text.contains '\'' && !text.contains '"' then '"' else '\''

def escapeIn (mark c : Char) : List Char :=
  if c == mark || c == '\\' then ['\\', c]
  else if c == '\n' then ['\\', 'n']
  else if c == '\r' then ['\\', 'r']
  else if c == '\t' then ['\\', 't']
  else if isPrintable c then [c]
  else escapeCode c

/-- The text as diagnostics show it. -/
def quoted (text : List Char) : List Char :=
  let mark := quoteMark text
  mark :: text.flatMap (escapeIn mark) ++ [mark]

def escapeValue (c : Char) : List Char :=
  if c == '"' then ['\\', '"']
  else if c == '\\' then ['\\', '\\']
  else if c == '\n' then ['\\', 'n']
  else if c == '\r' then ['\\', 'r']
  else if c == '\t' then ['\\', 't']
  else if c == '\x0c' then ['\\', 'f']
  else if c == '\x08' then ['\\', 'b']
  else if c.toNat < 0x20 then '\\' :: 'u' :: hex 4 c.toNat
  else [c]

/-- The text as a string literal of a printed value. -/
def literal (text : List Char) : List Char :=
  '"' :: text.flatMap escapeValue ++ ['"']

end GatedExpr.Text

namespace GatedExpr

/-- A string as diagnostics show it. -/
def quote (text : String) : String :=
  String.ofList (Text.quoted text.toList)

end GatedExpr
