/-! # Slices

Offsets into a sequence may be negative, and then they count from its end. Offsets beyond either
end stand for that end.
-/

namespace GatedExpr.Text

/-- How many items of a sequence of that length come before an offset, if there are as many. -/
def offset (length : Nat) (i : Int) : Nat :=
  if i < 0 then (length + i).toNat else i.toNat

/-- What lies between two offsets. -/
def slice {α : Type} (start stop : Int) (items : List α) : List α :=
  (items.take (offset items.length stop)).drop (offset items.length start)

end GatedExpr.Text
