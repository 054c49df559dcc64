import GatedExpr.Proofs.Expr.Printed
import GatedExpr.Proofs.Expr.Readable
import GatedExpr.Proofs.Gate.Permits
import GatedExpr.Proofs.Grammar.Literals

/-! # Data

What literals can write: null, truth values, integers, texts, and lists and maps of these. A value
shows a datum whatever the identities in it are, and is printed as the text of an expression that
writes the datum.
-/

namespace GatedExpr

/-- What literals can write. -/
inductive Datum where
  | null
  | bool (b : Bool)
  | integer (n : Int)
  | text (s : String)
  | list (items : List Datum)
  /-- The entries are in their order. -/
  | map (entries : List (String × Datum))

namespace Value

mutual

/-- `v.Shows d`: the value is the datum, whatever the identities are. The keys of a map are
distinct. -/
inductive Shows : Value → Datum → Prop where

  | null : Shows .null .null

  | bool {b : Bool} : Shows (.bool b) (.bool b)

  | integer {id : Identity} {n : Int} : Shows (.number id (.int n)) (.integer n)

  | text {s : String} : Shows (.text s) (.text s)

  | list {id : Identity} {items : List Value} {data : List Datum} :
      ShowsEach items data → Shows (.list id items) (.list data)

  | map {id : Identity} {entries : List (String × Value)} {data : List (String × Datum)} :
      (data.map (·.1)).Nodup → ShowsEntries entries data → Shows (.map id entries) (.map data)

inductive ShowsEach : List Value → List Datum → Prop where

  | nil : ShowsEach [] []

  | cons {v : Value} {d : Datum} {items : List Value} {data : List Datum} :
      Shows v d → ShowsEach items data → ShowsEach (v :: items) (d :: data)

inductive ShowsEntries : List (String × Value) → List (String × Datum) → Prop where

  | nil : ShowsEntries [] []

  | cons {key : String} {v : Value} {d : Datum} {entries : List (String × Value)}
      {data : List (String × Datum)} :
      Shows v d → ShowsEntries entries data →
      ShowsEntries ((key, v) :: entries) ((key, d) :: data)

end

end Value

namespace Datum

/-- The digits of an integer without its sign. -/
def digits (n : Int) : Expr :=
  .literal (String.ofList (Text.decimal n.natAbs))

mutual

/-- The expression that writes a datum. Negative integers are written as operations. -/
def expr : Datum → Expr
  | .null => .literal "null"
  | .bool b => .literal (if b then "true" else "false")
  | .integer n => if n < 0 then .unary "-" (digits n) else digits n
  | .text s => .literal (Value.printText s)
  | .list items => .array (exprEach items)
  | .map entries => .object (exprEntries entries)

def exprEach : List Datum → List Expr
  | [] => []
  | d :: data => expr d :: exprEach data

def exprEntries : List (String × Datum) → List Expr
  | [] => []
  | (key, d) :: data =>
    .property (.literal (Value.printText key)) (expr d) :: exprEntries data

end

/-- No datum is written as a hole. -/
theorem isHole_expr (d : Datum) : d.expr.isHole = false := by
  cases d with
  | integer n => rw [expr]; split <;> rfl
  | _ => rw [expr]; rfl

theorem trailing_exprEach (data : List Datum) : Expr.trailing (exprEach data) = [] := by
  have hnone : ∀ e ∈ exprEach data, e.isHole = false := by
    induction data with
    | nil => nofun
    | cons d data ih =>
      rw [exprEach]
      exact List.forall_mem_cons.mpr ⟨isHole_expr d, ih⟩
  rw [Expr.trailing]
  cases hl : (exprEach data).getLast? with
  | none => rfl
  | some e => rw [Option.any_some, hnone e (List.mem_of_getLast? hl)]; rfl

end Datum

/-! ## Printing -/

namespace Value

theorem print_integer (id : Identity) (n : Int) :
    (print (.number id (.int n))).toList = (Datum.integer n).expr.text := by
  have hprint : print (.number id (.int n)) = Number.signed n := rfl
  rw [hprint, Number.signed, String.toList_ofList, Datum.expr]
  have hdigits : (Datum.digits n).text = Text.decimal n.natAbs := by
    rw [Datum.digits, Expr.text, String.toList_ofList]
  split
  · have hgap : Expr.gap "-" (Datum.digits n) = [] := rfl
    have hlevel : Precedence.unary ≤ (Datum.digits n).level := by
      change 7 ≤ 9
      decide
    rw [Expr.text, hgap, Expr.enclosed, if_neg (Nat.not_lt.mpr hlevel), hdigits]
    rfl
  · exact hdigits.symm

theorem printEntry_eq (key text : String) :
    key ++ ": " ++ text = String.ofList (key.toList ++ ':' :: ' ' :: text.toList) := by
  rw [← String.toList_inj]
  simp

mutual

/-- A value is printed as the text of the expression that writes its datum. -/
theorem Shows.print_eq {v : Value} {d : Datum} : v.Shows d → v.print.toList = d.expr.text
  | .null => rfl
  | .bool (b := b) => by cases b <;> rfl
  | .integer => print_integer _ _
  | .text => rfl
  | .list h => by
    rw [print, Datum.expr, Expr.text, Datum.trailing_exprEach, h.print_eq, intercalate_textsOf]
    simp
  | .map _ h => by
    rw [print, Datum.expr, Expr.text, h.print_eq, intercalate_textsOf]
    simp

theorem ShowsEach.print_eq {items : List Value} {data : List Datum} :
    ShowsEach items data → printEach items = textsOf (Datum.exprEach data)
  | .nil => rfl
  | .cons h hs => by
    rw [printEach, Datum.exprEach, textsOf, List.map_cons, hs.print_eq, ← h.print_eq,
      String.ofList_toList]
    rfl

theorem ShowsEntries.print_eq {entries : List (String × Value)} {data : List (String × Datum)} :
    ShowsEntries entries data → printEntries entries = textsOf (Datum.exprEntries data)
  | .nil => rfl
  | .cons h hs => by
    rw [printEntries, Datum.exprEntries, textsOf, List.map_cons, hs.print_eq, Expr.text, Expr.text,
      ← h.print_eq, printEntry_eq]
    rfl

end

end Value

/-! ## Reading and compiling -/

namespace Datum

/-- Where the nodes are that show an expression makes no difference. -/
def anywhere : Span :=
  ⟨0, 0⟩

theorem readable_literal {raw : String} {value : Value}
    (h : Token.IsNumber raw value ∨ Token.IsString raw value ∨ Token.IsKeyword raw value) :
    Expr.Readable .value (.literal raw) :=
  ⟨⟨_, @Depicts.literal _ _ anywhere h⟩, rfl⟩

theorem readable_integer (n : Int) : Expr.Readable .value (integer n).expr := by
  obtain ⟨⟨v, hd⟩, hdots⟩ : Expr.Readable .value (digits n) :=
    readable_literal (.inl (Token.isNumber_decimal n.natAbs))
  rw [expr]
  split
  · exact ⟨⟨_, @Depicts.unary _ _ _ anywhere (by decide) hd⟩, hdots⟩
  · exact ⟨⟨v, hd⟩, hdots⟩

mutual

/-- The text of the expression that writes a datum can be read back. -/
theorem readable : ∀ d : Datum, Expr.Readable .value d.expr
  | .null => readable_literal (.inr (.inr .null))
  | .bool true => readable_literal (.inr (.inr .true))
  | .bool false => readable_literal (.inr (.inr .false))
  | .integer n => readable_integer n
  | .text s => readable_literal (.inr (.inl (Token.isString_literal s)))
  | .list items => by
    obtain ⟨⟨values, hl, hall⟩, hdots⟩ := readableEach items
    exact ⟨⟨_, @Depicts.array _ _ anywhere hl hall⟩, hdots⟩
  | .map entries => by
    obtain ⟨⟨values, hl, hall⟩, hdots⟩ := readableEntries entries
    exact ⟨⟨_, @Depicts.object _ _ anywhere hl hall⟩, hdots⟩

theorem readableEach : ∀ data : List Datum,
    (∃ values, DepictsEach .element values (exprEach data)) ∧
      Expr.anyDotsInteger (exprEach data) = false
  | [] => ⟨⟨_, .nil⟩, rfl⟩
  | d :: data => by
    obtain ⟨⟨v, hd⟩, hdots⟩ := readable d
    obtain ⟨⟨values, hall⟩, hrest⟩ := readableEach data
    refine ⟨⟨_, .cons (.element hd) hall⟩, ?_⟩
    rw [exprEach, Expr.anyDotsInteger, hdots, hrest]
    rfl

theorem readableEntries : ∀ data : List (String × Datum),
    (∃ values, DepictsEach .property values (exprEntries data)) ∧
      Expr.anyDotsInteger (exprEntries data) = false
  | [] => ⟨⟨_, .nil⟩, rfl⟩
  | (key, d) :: data => by
    obtain ⟨⟨v, hd⟩, hdots⟩ := readable d
    obtain ⟨⟨values, hall⟩, hrest⟩ := readableEntries data
    have hkey := @Depicts.keyLiteral _ _ anywhere (.inr (Token.isString_literal key))
    refine ⟨⟨_, .cons (@Depicts.property _ _ _ _ anywhere hkey hd) hall⟩, ?_⟩
    rw [exprEntries, Expr.anyDotsInteger, Expr.dotsInteger, hdots, hrest]
    rfl

end

mutual

/-- Every whitelist permits what writes a datum. -/
theorem permits (whitelist : Whitelist) : ∀ d : Datum, whitelist.Permits d.expr
  | .null | .bool _ | .text _ => .literal
  | .integer n => by
    rw [expr]
    split
    · exact .unary .literal
    · exact .literal
  | .list items => .array (permitsEach whitelist items)
  | .map entries => .object (permitsEntries whitelist entries)

theorem permitsEach (whitelist : Whitelist) :
    ∀ data : List Datum, ∀ p ∈ exprEach data, whitelist.Permits p
  | [] => nofun
  | d :: data => List.forall_mem_cons.mpr ⟨permits whitelist d, permitsEach whitelist data⟩

theorem permitsEntries (whitelist : Whitelist) :
    ∀ data : List (String × Datum), ∀ p ∈ exprEntries data, whitelist.Permits p
  | [] => nofun
  | (_, d) :: data =>
    List.forall_mem_cons.mpr ⟨.property (permits whitelist d), permitsEntries whitelist data⟩

end

end Datum

end GatedExpr
