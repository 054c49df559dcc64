import GatedExpr.Builtin.Library
import GatedExpr.Proofs.Closure.Treeless

/-! # The library yields no trees

What the functions of the library make of values without trees are numbers, texts and truth
values, items of their arguments, and lists of these.
-/

namespace GatedExpr

open GatedExpr.Computation

namespace Builtin

variable {v w u result : Value} {items pieces : List Value}

end Builtin

namespace Library

open Eval.Yields Builtin

/-! ## Kinds of functions -/

end Library

namespace Whitelist

open Library Builtin

end Whitelist

end GatedExpr
