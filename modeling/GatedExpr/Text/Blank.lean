import GatedExpr.Text.Ranges

/-! # Blank characters

The characters skipped between tokens and removed by trimming: the ASCII blanks, the four
information separators, and every space or line separator of Unicode.
-/

namespace GatedExpr.Text

def blankRanges : Ranges :=
  [(9, 0xd), (0x1c, 0x20), (0x85, 0x85), (0xa0, 0xa0), (0x1680, 0x1680), (0x2000, 0x200a),
  (0x2028, 0x2029), (0x202f, 0x202f), (0x205f, 0x205f), (0x3000, 0x3000)]

/-- Whether `c` is a blank. -/
def isBlank (c : Char) : Bool :=
  blankRanges.contains c

def trimLeft (text : List Char) : List Char :=
  text.dropWhile isBlank

/-- Removes the characters with a property from the end. -/
def dropLastWhile (property : Char → Bool) (text : List Char) : List Char :=
  (text.reverse.dropWhile property).reverse

def trimRight (text : List Char) : List Char :=
  dropLastWhile isBlank text

/-- Removes the blanks at both ends. -/
def trim (text : List Char) : List Char :=
  trimRight (trimLeft text)

end GatedExpr.Text
