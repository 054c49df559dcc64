/-! # Lines and locations

Two notions of a line live side by side. A location counts line feeds only; a text shown to a
reader is split at every line break, with a carriage return and line feed taken as one.
-/

namespace GatedExpr.Text

/-- A line and a column, both counted from one. -/
structure Location where
  line : Nat
  column : Nat
  deriving DecidableEq, Repr

/-- The characters after the last line feed. -/
def lastLine (text : List Char) : List Char :=
  (text.reverse.takeWhile (· ≠ '\n')).reverse

/-- Where the text after `before` begins. -/
def locationAfter (before : List Char) : Location :=
  { line := before.count '\n' + 1, column := (lastLine before).length + 1 }

/-- The location of an offset. Offsets outside the text stand for its nearest end. -/
def locate (source : List Char) (offset : Int) : Location :=
  locationAfter (source.take offset.toNat)

def isLineBreak (c : Char) : Bool :=
  c ∈ ['\n', '\x0b', '\x0c', '\r', '\x1c', '\x1d', '\x1e', '\u0085', '\u2028', '\u2029']

/-- The lines of `text`, where `line` is what has been read of the first one, in reverse. -/
def linesFrom (line : List Char) : List Char → List (List Char)
  | [] => if line.isEmpty then [] else [line.reverse]
  | '\r' :: '\n' :: rest => line.reverse :: linesFrom [] rest
  | c :: rest =>
    if isLineBreak c then line.reverse :: linesFrom [] rest else linesFrom (c :: line) rest

/-- Splits at every line break. A break at the end opens no further line. -/
def lines (text : List Char) : List (List Char) :=
  linesFrom [] text

end GatedExpr.Text
