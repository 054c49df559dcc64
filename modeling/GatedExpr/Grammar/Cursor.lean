import GatedExpr.Grammar.Pattern
import GatedExpr.Text.Slice
import GatedExpr.Value.Basic

/-! # Cursors

A cursor stands at an offset of a source. Reading moves it on success only, and `furthest` is
the largest offset that any attempt has reached, which is where a parse error points. An offset
may be negative, and then texts are looked for at the offset that it counts to from the end.
-/

namespace GatedExpr

structure Cursor where
  source : List Char
  position : Int
  furthest : Int
  /-- What is left to read. -/
  rest : List Char
  rest_eq : rest = source.drop (Text.offset source.length position)

namespace Cursor

def start (source : List Char) (position : Int) : Cursor :=
  { source, position, furthest := position,
    rest := source.drop (Text.offset source.length position), rest_eq := rfl }

/-- Moves to an offset without having read there. -/
def moveTo (cursor : Cursor) (position : Int) : Cursor :=
  { cursor with
    position,
    rest := cursor.source.drop (Text.offset cursor.source.length position), rest_eq := rfl }

/-- Back at `earlier`, a cursor over the same source, with the knowledge of `later`. -/
def rewind (earlier later : Cursor) : Cursor :=
  { earlier with furthest := later.furthest }

/-- Notes that the current offset has been reached. -/
def touch (cursor : Cursor) : Cursor :=
  { cursor with furthest := max cursor.furthest cursor.position }

def atEnd (cursor : Cursor) : Bool :=
  decide (0 ≤ cursor.position) && cursor.rest.isEmpty

def spanSince (cursor : Cursor) (start : Int) : Span :=
  { start, stop := cursor.position }

/-- The text of a span. -/
def textOf (cursor : Cursor) (span : Span) : List Char :=
  Text.slice span.start span.stop cursor.source

theorem drop_rest (cursor : Cursor) (length : Nat) (h : 0 ≤ cursor.position) :
    cursor.rest.drop length
      = cursor.source.drop (Text.offset cursor.source.length (cursor.position + length)) := by
  rw [cursor.rest_eq, List.drop_drop]
  congr 1
  unfold Text.offset
  rw [if_neg (by omega), if_neg (by omega)]
  omega

/-- Moves on by `length` characters and notes the offset. -/
def advance (cursor : Cursor) (length : Nat) : Cursor :=
  if h : 0 ≤ cursor.position then
    touch
      { cursor with
        position := cursor.position + length
        rest := cursor.rest.drop length
        rest_eq := cursor.drop_rest length h }
  else touch (cursor.moveTo (cursor.position + length))

/-- Whether a text comes next. Beyond the end nothing does, not even the empty text. -/
def startsWith (cursor : Cursor) (text : List Char) : Bool :=
  text.isPrefixOf cursor.rest
    && (!text.isEmpty || !cursor.rest.isEmpty || cursor.position ≤ cursor.source.length)

/-- Reads a text, if it comes next. -/
def readLiteral (cursor : Cursor) (text : List Char) : Bool × Cursor :=
  if cursor.startsWith text then (true, cursor.advance text.length) else (false, cursor.touch)

/-- The cursor at the end of its source that it is beyond, if it is. -/
def clamp (cursor : Cursor) : Cursor :=
  if cursor.position < 0 then cursor.moveTo 0
  else if cursor.rest.isEmpty then cursor.moveTo (min cursor.position cursor.source.length)
  else cursor

/-- Reads what a pattern matches next, if it does. Beyond either end it is tried at that end. -/
def readPattern (cursor : Cursor) (pattern : Pattern) : Option (List Char) × Cursor :=
  let inside := cursor.clamp
  match pattern.match? inside.rest with
  | some way => (some (inside.rest.take way.length), inside.advance way.length)
  | none => (none, cursor.touch)

/-- As many characters as offsets can be passed before the end is reached. -/
def ahead (cursor : Cursor) : List Char :=
  if cursor.position < 0 then
    List.replicate (-cursor.position).toNat ' ' ++ cursor.source
  else cursor.rest

/-- A cursor in diagnostics. -/
def display (cursor : Cursor) : String :=
  s!"<Cursor {cursor.position}/{cursor.source.length}>"

end Cursor

end GatedExpr
