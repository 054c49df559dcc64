import GatedExpr.Builtin.Numeral
import GatedExpr.Text.Search
import GatedExpr.Text.Slice
import GatedExpr.Value.Equality

/-! # Functions of texts and lists

A receiver that is not a list counts as its text. Offsets may be negative or beyond the end where
a function says so, and are otherwise cut to the length.
-/

namespace GatedExpr.Builtin

/-- The characters of the text of a value. -/
def chars (value : Value) : List Char :=
  value.toText.toList

def ofChars (text : List Char) : Value :=
  .text (String.ofList text)

def toUpperCase (value : Value) : Value :=
  ofChars (Text.upper (chars value))

def toLowerCase (value : Value) : Value :=
  ofChars (Text.lower (chars value))

def trim (value : Value) : Value :=
  ofChars (Text.trim (chars value))

/-- The character at an offset, or the empty text. -/
def charAt (value offset : Value) : Except Fault Value := do
  let i ← integer offset
  if i < 0 then return .text ""
  else return ofChars ((chars value)[i.toNat]?).toList

def startsWith (value start : Value) : Bool :=
  (chars start).isPrefixOf (chars value)

def endsWith (value ending : Value) : Bool :=
  (chars ending).isSuffixOf (chars value)

/-- The pieces of a text: all of it without a separator, its characters where that is the empty
text. -/
def split (value separator : Value) : Except Fault (List Value) :=
  match separator with
  | .null => .ok [ofChars (chars value)]
  | separator =>
    if h : chars separator = [] then
      if separator.isText then .ok ((chars value).map fun c => ofChars [c])
      else .error .emptySeparator
    else .ok ((Text.splitOn (chars separator) h (chars value)).map ofChars)

/-- Replaces the first occurrence only. -/
def replace (value old new : Value) : Value :=
  ofChars (Text.replaceFirst (chars old) (chars new) (chars value))

/-- The place of the first item of the same type and content. -/
def indexIn (items : List Value) (item : Value) : Option Nat :=
  items.findIdx? fun v => v.hasContentOf item && v.isSameType item

/-- Where an item or text occurs first. -/
def indexOf? (receiver item : Value) : Option Nat :=
  match receiver with
  | .list _ items => indexIn items item
  | receiver => Text.find? (chars item) (chars receiver)

/-- Where an item or text occurs first, or minus one. -/
def indexOf (receiver item : Value) : Int :=
  match indexOf? receiver item with
  | some i => i
  | none => -1

def includes (receiver item : Value) : Bool :=
  (indexOf? receiver item).isSome

/-- An offset within a length. Negative ones count from the end. -/
def clampFromEnd (i : Int) (length : Nat) : Nat :=
  Nat.min (Text.offset length i) length

/-- An index cut to a length that is a number of any kind. A negative index counts from there. -/
def clampIndex (index length : Value) : Except Fault Value := do
  let i ← integer index
  match length.number? with
  | none => throw .unordered
  | some n =>
    if i < 0 then
      let start ← liftNumeric (n.add (.int i))
      return if start.below (.int 0) then .int 0 else .ofNumber start
    else return if n.below (.int i) then length else .int i

/-- An offset within a length. Negative ones are cut to zero. -/
def clamp (i : Int) (length : Nat) : Nat :=
  Nat.min i.toNat length

/-- What lies between two offsets. -/
def between {α : Type} (first last : Nat) (items : List α) : List α :=
  (items.take last).drop first

/-- How many items a receiver has to slice. Only lists and texts have any. -/
def sliceLength : Value → Nat
  | .list _ items => items.length
  | .text s => s.length
  | _ => 0

/-- The offsets of a slice. Without an end it reaches to the length. -/
def sliceBounds (length : Nat) (start stop : Value) : Except Fault (Nat × Nat) := do
  let first := clampFromEnd (← integer start) length
  match stop with
  | .null => return (first, length)
  | stop => return (first, clampFromEnd (← integer stop) length)

/-- The slice of a text. -/
def sliceText (receiver start stop : Value) : Except Fault Value := do
  let (first, last) ← sliceBounds (sliceLength receiver) start stop
  return ofChars (between first last (chars receiver))

/-- The slice of the items of a list. -/
def sliceItems (items : List Value) (start stop : Value) : Except Fault (List Value) := do
  let (first, last) ← sliceBounds items.length start stop
  return between first last items

/-- The end of a stretch of a text, which is that of the text if none is given. -/
def clampedEnd (length : Nat) : Value → Except Fault Nat
  | .null => .ok length
  | stop => do return clamp (← integer stop) length

/-- What lies between two offsets of a text, in whichever order they are given. -/
def substring (value start stop : Value) : Except Fault Value := do
  let text := chars value
  let first := clamp (← integer start) text.length
  let last ← clampedEnd text.length stop
  return ofChars (between (Nat.min first last) (Nat.max first last) text)

/-- The text of an item to be joined. Null counts as empty. -/
def itemText : Value → String
  | .null => ""
  | value => value.toText

def join (receiver separator : Value) : Except Fault String := do
  return separator.toText.intercalate ((← receiver.iterate).map itemText)

/-- The items that an argument adds to a list: those of a list, or itself. -/
def spread : Value → List Value
  | .list _ items => items
  | value => [value]

/-- The texts of all values, one after the other. -/
def concatTexts (values : List Value) : String :=
  String.join (values.map (·.toText))

end GatedExpr.Builtin
