/-! # Powers of two and of ten

The two bases between which doubles and their numerals are converted.
-/

namespace GatedExpr

/-- The power of two with an exponent. -/
def twoTo (exponent : Nat) : Nat :=
  Nat.pow 2 exponent

/-- The power of ten with an exponent. -/
def tenTo (exponent : Nat) : Nat :=
  Nat.pow 10 exponent

end GatedExpr
