import Mathlib
import GatedExpr.Proofs.Closure.PrintedValues
import GatedExpr.Proofs.Grammar.Accepting
import GatedExpr.Proofs.Grammar.NumberTexts
import GatedExpr.Proofs.Grammar.Writing
import GatedExpr.Proofs.Value.Arithmetic

/-! # Numbers written as texts

A source that compares a number with the same number in quotes is accepted, compiles whatever the
whitelist is and yields whether the two readings of the number agree.
-/

namespace GatedExpr

open GatedExpr.Computation

/-! ## Quotes -/

/-- A text in single quotes. -/
def quoted (raw : List Char) : List Char :=
  '\'' :: (raw ++ ['\''])

namespace Token

open Regex.Spells

theorem resolveEscapes_of_not_mem {text : List Char} (h : '\\' ∉ text) :
    resolveEscapes 0 text = text := by
  induction text with
  | nil => rfl
  | cons c text ih =>
    obtain ⟨hc, htext⟩ := not_or.mp (mt List.mem_cons.mpr h)
    rw [resolveEscapes, if_neg (by simpa using Ne.symm hc), ih htext]

/-- What has no quote, backslash or line feed in it needs no escapes between quotes. -/
theorem isString_quoted {raw : List Char} (h : ∀ c ∈ raw, c ∉ ['\'', '\\', '\n']) :
    IsString (String.ofList (quoted raw)) (.text (String.ofList raw)) := by
  have hspells : string.regex.Spells (quoted raw) := by
    refine .right (.seq (s := ['\'']) (char_iff.mpr rfl) (.seq ?_ (char_iff.mpr rfl)))
    induction raw with
    | nil => exact .nil
    | cons c raw ih =>
      obtain ⟨hc, hraw⟩ := List.forall_mem_cons.mp h
      refine .more (s := [c]) (.left (.oneOf ?_)) (ih hraw)
      simpa [CharClass.contains, and_assoc] using hc
  have hdecode : decodeString (quoted raw) = raw := by
    rw [decodeString, quoted, List.drop_succ_cons, List.drop_zero, List.dropLast_concat,
      resolveEscapes_of_not_mem fun hmem => h '\\' hmem (by decide)]
  rw [IsString, String.toList_ofList, hdecode]
  exact ⟨accepts_string hspells, rfl⟩

end Token

/-! ## Sources -/

/-- Two sources with an operator between them. -/
def compared (a : List Char) (symbol : String) (b : List Char) : List Char :=
  a ++ (' ' :: symbol.toList ++ ' ' :: b)

namespace Family

/-- Two operands with an operator between them are accepted, at any depth that a parse reaches. -/
theorem parse_binary {symbol : String} {e f : Expr} {texts others : List String}
    {a b : List Char} (hsymbol : symbol ∈ infixSymbols)
    (he : Written nestingLimit (.operand e) texts) (hf : Written nestingLimit (.operand f) others)
    (ha : Fills texts a) (hb : Fills others b) :
    ∃ tree, expression.parse 0 (compared a symbol b) Grammar.rootKind = .ok tree ∧
      Depicts .value tree (.binary symbol e f) := by
  have hoperation : ∀ operation ∈ [((symbol, f), symbol :: others)],
      Written nestingLimit (.operation operation.1) operation.2 :=
    List.forall_mem_singleton.mpr (.operation hsymbol hf)
  have hw := Written.expression he hoperation .noBranches
  have hfold : (Expr.fold e [(symbol, f)]).withBranches none = .binary symbol e f := by
    simp [Expr.fold, Expr.feed, Expr.collapse, Expr.withBranches]
  rw [List.map_singleton, hfold, List.flatMap_singleton, List.append_nil] at hw
  exact parse_of_written hw (ha.append (hb.spaced symbol) (Begins.cons (by decide) _))

theorem written_literal {raw : String} {value : Value}
    (h : Token.IsNumber raw value ∨ Token.IsString raw value ∨ Token.IsKeyword raw value) :
    Written 3 (.operand (.literal raw)) [raw] := by
  have hsuffixes : ∀ suffix ∈ ([] : List (Expr.Suffix × List String)),
      Written 2 (.suffix suffix.1) suffix.2 := nofun
  exact .chain (.literal (Nat.le_refl 2) h) hsuffixes

theorem fills_single (raw : List Char) : Fills [String.ofList raw] raw := by
  have hfills := Fills.nil.cons (Token.ends_none (String.ofList raw))
  rwa [List.append_nil, String.toList_ofList] at hfills

theorem fills_signed {symbol : String} (hs : symbol ∈ UnaryOperator.all.map (·.symbol))
    (raw : List Char) : Fills [symbol, String.ofList raw] (symbol.toList ++ raw) :=
  (fills_single raw).cons (Token.ends_of_sign hs _)

end Family

/-! ## Evaluation -/

namespace Semantics

variable {whitelist : Whitelist} {env : Env} {tree : Value} {P Q : Value → Prop}

/-- The tree is a node that yields such a value wherever it stands, and calls nothing. -/
def AlwaysYields (whitelist : Whitelist) (env : Env) (tree : Value) (P : Value → Prop) : Prop :=
  ∃ node, tree = .ofTree node ∧ ∀ path : Path, path.node = node → ∀ w, ∃ v w',
    Evaluates whitelist env (.node path) w (.ok v) w' ∧ P v ∧ w'.calls = w.calls

theorem alwaysYields_literal {raw : String} {value : Value}
    (hl : Token.IsNumber raw value ∨ Token.IsString raw value ∨ Token.IsKeyword raw value)
    (hP : ∀ n, P (value.adopt.run n).1) (hd : Depicts .value tree (.literal raw)) :
    AlwaysYields whitelist env tree P := by
  cases hd with
  | literal hl' =>
    cases Token.literal_unique hl hl'
    exact ⟨_, rfl, fun path hp w =>
      ⟨_, _, .literal (by rw [hp]) (by rw [hp]; rfl) rfl, hP _, rfl⟩⟩

theorem alwaysYields_unary {symbol : String} {e : Expr} (operator : UnaryOperator)
    (hs : UnaryOperator.ofSymbol? symbol = some operator)
    (he : ∀ {tree}, Depicts .value tree e → AlwaysYields whitelist env tree P)
    (hP : ∀ v, P v → ∃ c, operator.apply v = .ok c ∧ ∀ n, Q (c.adopt.run n).1)
    (hd : Depicts .value tree (.unary symbol e)) : AlwaysYields whitelist env tree Q := by
  cases hd with
  | unary _ ha =>
    obtain ⟨node, rfl, harg⟩ := he ha
    refine ⟨_, rfl, fun path hp w => ?_⟩
    have hpart : path.Part "argument" (path.down "argument" node) :=
      ⟨.unassigned, node, by rw [hp]; rfl, rfl⟩
    obtain ⟨v, w₁, hev, hv, hcalls⟩ := harg _ (Path.node_down path "argument" node) w
    obtain ⟨c, hc, hQ⟩ := hP v hv
    exact ⟨_, _, .unary (by rw [hp]; rfl) (by rw [hp]; rfl) hs hpart hev hc rfl, hQ _, hcalls⟩

theorem alwaysYields_binary {symbol : String} {e f : Expr} {R : Value → Prop}
    (operator : BinaryOperator) (hs : BinaryOperator.ofSymbol? symbol = some operator)
    (he : ∀ {tree}, Depicts .value tree e → AlwaysYields whitelist env tree P)
    (hf : ∀ {tree}, Depicts .value tree f → AlwaysYields whitelist env tree Q)
    (hPQ : ∀ v u, P v → Q u → ∃ c, operator.apply v u = .ok c ∧ ∀ n, R (c.adopt.run n).1)
    (hd : Depicts .value tree (.binary symbol e f)) : AlwaysYields whitelist env tree R := by
  cases hd with
  | binary _ hl hr =>
    obtain ⟨left, rfl, hleft⟩ := he hl
    obtain ⟨right, rfl, hright⟩ := hf hr
    refine ⟨_, rfl, fun path hp w => ?_⟩
    have pl : path.Part "left" (path.down "left" left) := ⟨.unassigned, left, by rw [hp]; rfl, rfl⟩
    have pr : path.Part "right" (path.down "right" right) :=
      ⟨.unassigned, right, by rw [hp]; rfl, rfl⟩
    obtain ⟨v, w₁, hv, hP, hcalls⟩ := hleft _ (Path.node_down path "left" left) w
    obtain ⟨u, w₂, hu, hQ, hcalls'⟩ := hright _ (Path.node_down path "right" right) w₁
    obtain ⟨c, hc, hR⟩ := hPQ v u hP hQ
    exact ⟨_, _, .binary (by rw [hp]; rfl) (by rw [hp]; rfl) hs pl pr (.next hv (.next hu .done)) hc
      rfl, hR _, hcalls'.trans hcalls⟩

end Semantics

/-! ## Comparing a number with its text -/

/-- The sources that compare a number with the same number in quotes. -/
def comparisons (raw : List Char) : List (List Char) :=
  [compared ('+' :: quoted raw) "===" raw, compared raw "==" (quoted raw)]

/-- Accepted, compiled whatever the whitelist is, and evaluated to a truth value without calling
anything. -/
def Decides (source : List Char) (b : Bool) : Prop :=
  ∃ tree, Family.expression.parse 0 source Grammar.rootKind = .ok tree ∧
    ∀ (whitelist : Whitelist) ws, ∃ closure ws',
      (whitelist.compileTree tree).run ws = (.ok closure, ws') ∧
        ∀ env w, ∃ w', (closure env).run w = (.ok (.bool b), w') ∧ w'.calls = w.calls

theorem decides_compared {symbol : String} {e f : Expr} {texts others : List String}
    {a b : List Char} {r : Bool} (hsymbol : symbol ∈ infixSymbols)
    (he : Written Family.nestingLimit (.operand e) texts)
    (hf : Written Family.nestingLimit (.operand f) others)
    (ha : Fills texts a) (hb : Fills others b)
    (hpermits : ∀ whitelist : Whitelist, whitelist.Permits e ∧ whitelist.Permits f)
    (hyields : ∀ whitelist env tree, Depicts .value tree (.binary symbol e f) →
      Semantics.AlwaysYields whitelist env tree (· = .bool r)) :
    Decides (compared a symbol b) r := by
  obtain ⟨tree, htree, hd⟩ := Family.parse_binary hsymbol he hf ha hb
  refine ⟨tree, htree, fun whitelist ws => ?_⟩
  obtain ⟨closure, ws', hcompile⟩ :=
    Whitelist.exists_closure_of_permits hd
      (.binary (hpermits whitelist).1 (hpermits whitelist).2) ws
  refine ⟨closure, ws', hcompile, fun env w => ?_⟩
  obtain ⟨node, rfl, hnode⟩ := hyields whitelist env tree hd
  obtain ⟨_, w', hev, rfl, hcalls⟩ := hnode (.root node) (Path.node_root node) w
  have hroot : (whitelist.compile (.root node)).run ws = (.ok closure, ws') := hcompile
  exact ⟨w', (Whitelist.implements_of_compile hroot _ _ _ _).mpr hev, hcalls⟩

namespace Token

variable {raw : List Char} {n : Number}

theorem isNumber_of_readings {agree : Prop} (h : number.regex.Spells raw)
    (hn : Readings raw agree n) : IsNumber (String.ofList raw) (.ofNumber n) := by
  rw [IsNumber, String.toList_ofList]
  exact ⟨accepts_number_iff.mpr h, n, hn.token, rfl⟩

theorem isString_of_number (h : number.regex.Spells raw) :
    IsString (String.ofList (quoted raw)) (.text (String.ofList raw)) := by
  refine isString_quoted fun c hc hmem => ?_
  have hall : ∀ d ∈ ['\'', '\\', '\n'], number.regex.mentions d = false := by decide
  exact not_mem_of_mentions h (hall c hmem) hc

/-- A number with any identity. -/
def HoldsNumber (n : Number) (v : Value) : Prop :=
  ∃ id, v = .number id n

theorem holdsNumber_settled (id : Identity) (n : Number) :
    ∀ next, HoldsNumber n ((Value.number id n).adopt.run next).1 := by
  intro next
  cases id <;> exact ⟨_, rfl⟩

section

variable {whitelist : Whitelist} {env : Env} {tree : Value}
  (hnumber : IsNumber (String.ofList raw) (.ofNumber n))
  (hstring : IsString (String.ofList (quoted raw)) (.text (String.ofList raw)))

include hnumber in
theorem alwaysYields_number (hd : Depicts .value tree (.literal (String.ofList raw))) :
    Semantics.AlwaysYields whitelist env tree (HoldsNumber n) :=
  Semantics.alwaysYields_literal (.inl hnumber) (holdsNumber_settled _ n) hd

include hstring in
theorem alwaysYields_string (hd : Depicts .value tree (.literal (String.ofList (quoted raw)))) :
    Semantics.AlwaysYields whitelist env tree (· = .text (String.ofList raw)) :=
  Semantics.alwaysYields_literal (.inr (.inl hstring)) (fun _ => rfl) hd

variable (h : number.regex.Spells raw)

include h hnumber hstring

/-- The text in quotes is coerced by a sign before it is compared. -/
theorem decides_strictly :
    Decides (compared ('+' :: quoted raw) "===" raw) ((Number.ofText raw).equals n) := by
  have hplus : "+" ∈ UnaryOperator.all.map (·.symbol) := by decide
  refine decides_compared (by decide)
    ((Written.unary hplus (Family.written_literal (.inr (.inl hstring)))).mono (by decide))
    ((Family.written_literal (.inl hnumber)).mono (by decide))
    (Family.fills_signed hplus (quoted raw)) (Family.fills_single raw)
    (fun _ => ⟨.unary .literal, .literal⟩) ?_
  intro whitelist env tree hd
  refine Semantics.alwaysYields_binary .strictEqual (by decide)
    (Semantics.alwaysYields_unary (Q := HoldsNumber (Number.ofText raw)) .plus (by decide)
      (alwaysYields_string hstring) ?_) (alwaysYields_number hnumber) ?_ hd
  · rintro _ rfl
    obtain ⟨id, hid⟩ := Value.ofResult_eq (Number.ofText raw)
    have hvalue : Value.asNumber (.text (String.ofList raw)) = .number id (Number.ofText raw) := by
      rw [Value.asNumber, toNumber_of_spells h, hid] <;> nofun
    exact ⟨_, congrArg Except.ok hvalue, holdsNumber_settled id _⟩
  · rintro _ _ ⟨id, rfl⟩ ⟨id', rfl⟩
    exact ⟨_, rfl, fun _ => rfl⟩

/-- A number and a text are compared as numbers. -/
theorem decides_loosely :
    Decides (compared raw "==" (quoted raw)) ((Number.ofText raw).equals n) := by
  refine decides_compared (by decide)
    ((Family.written_literal (.inl hnumber)).mono (by decide))
    ((Family.written_literal (.inr (.inl hstring))).mono (by decide)) (Family.fills_single raw)
    (Family.fills_single (quoted raw)) (fun _ => ⟨.literal, .literal⟩) ?_
  intro whitelist env tree hd
  refine Semantics.alwaysYields_binary .looseEqual (by decide) (alwaysYields_number hnumber)
    (alwaysYields_string hstring) ?_ hd
  rintro _ _ ⟨id, rfl⟩ rfl
  have hloose : (Value.number id n).looseEquals (.text (String.ofList raw)) =
      n.equals (Value.text (String.ofList raw)).toNumber := rfl
  rw [toNumber_of_spells h, Number.equals_comm] at hloose
  exact ⟨_, rfl, fun _ => congrArg Value.bool hloose⟩

end

/-- A number token has a value. Coerced, its text has that value exactly if the readings agree, and
otherwise not even an equal one; that is what the sources that compare the two yield. -/
theorem text_of_number (h : number.regex.Spells raw) : ∃ n b, Number.ofToken? raw = some n ∧
    (b = true ↔ ReadsSame raw) ∧
    (ReadsSame raw → (Value.text (String.ofList raw)).toNumber = n) ∧
    (¬ ReadsSame raw → (Value.text (String.ofList raw)).toNumber.equals n = false) ∧
    ∀ source ∈ comparisons raw, Decides source b := by
  obtain ⟨n, hn⟩ := readings_of_number h
  have hnumber := isNumber_of_readings h hn
  have hstring := isString_of_number h
  have hagree : (Number.ofText raw).equals n = true ↔ ReadsSame raw := by
    constructor
    · intro hequal
      by_contra hne
      rw [hn.apart hne] at hequal
      cases hequal
    · intro halike
      obtain ⟨p, hp⟩ := Option.ne_none_iff_exists'.mp hn.exact
      exact Number.equals_iff.mpr ⟨p, hn.same halike ▸ hp, hp⟩
  rw [toNumber_of_spells h]
  refine ⟨n, _, hn.token, hagree, hn.same, hn.apart, ?_⟩
  simp only [comparisons, List.mem_cons, List.not_mem_nil, or_false]
  rintro source (rfl | rfl)
  · exact decides_strictly hnumber hstring h
  · exact decides_loosely hnumber hstring h

/-- The least natural number that is no double. -/
def pastMantissa : List Char :=
  "9007199254740993".toList

theorem text_of_number_pastMantissa : number.regex.Spells pastMantissa ∧
    Number.ofToken? pastMantissa = some (.int 9007199254740993) ∧ ¬ ReadsSame pastMantissa ∧
    ∀ source ∈ comparisons pastMantissa, Decides source false := by
  have hinteger : IsInteger pastMantissa := by decide +kernel
  have hspells := accepts_number_iff.mp (accepts_of_isInteger hinteger)
  have happart : ¬ ReadsSame pastMantissa := by
    have hvalue : decimalValue pastMantissa = 9007199254740993 := by decide +kernel
    rintro (hhex | ⟨-, ⟨c, hc, hinexact⟩ | hdouble⟩)
    · exact absurd hhex (by decide)
    · exact not_isInexact_of_isDecimal (hinteger.2 c hc) hinexact
    · rw [hvalue] at hdouble
      exact Number.not_isDouble_of_odd (by decide) (by decide) hdouble
  obtain ⟨n, b, -, hb, -, -, hdecides⟩ := text_of_number hspells
  obtain rfl : b = false := Bool.eq_false_iff.mpr (mt hb.mp happart)
  exact ⟨hspells, by decide +kernel, happart, hdecides⟩

end Token

end GatedExpr
