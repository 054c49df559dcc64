import GatedExpr.Proofs.Grammar.Reading

/-! # Sources that write expressions

How sources are put together such that the texts that fill them write an expression, one construct
at a time and at whatever depth it takes. What can come after a source without being taken for a
part of it depends on how the source ends: anything can come after a bracket.
-/

namespace GatedExpr

open ExpressionGrammar

/-! ## Texts side by side -/

/-- Whatever comes first in the text satisfies `C`. -/
def Begins (C : Char → Prop) (t : List Char) : Prop :=
  ∀ c, t.head? = some c → C c

namespace Begins

variable {C D : Char → Prop} {s t : List Char} {c : Char}

theorem nil : Begins C [] :=
  nofun

theorem cons (h : C c) (more : List Char) : Begins C (c :: more) := by
  rintro _ ⟨⟩
  exact h

theorem mono (h : Begins C t) (hc : ∀ c, C c → D c) : Begins D t :=
  fun c hd => hc c (h c hd)

theorem append (hs : Begins C s) (ht : Begins C t) : Begins C (s ++ t) := by
  cases s with
  | nil => exact ht
  | cons c more => exact cons (hs c rfl) _

theorem flatten {texts : List (List Char)} (h : ∀ t ∈ texts, Begins C t) :
    Begins C texts.flatten := by
  induction texts with
  | nil => exact nil
  | cons t texts ih =>
    obtain ⟨ht, hts⟩ := List.forall_mem_cons.mp h
    exact ht.append (ih hts)

theorem anything : Begins (fun _ => True) t :=
  fun _ _ => trivial

end Begins

namespace Fills

variable {text : String} {texts others : List String} {s t : List Char}

/-- Something between brackets, and what follows them. -/
theorem enclose {left right : String}
    (hl : ¬ Token.IsInteger left.toList ∧ left ∉ infixSymbols)
    (hr : ¬ Token.IsInteger right.toList ∧ right ∉ infixSymbols)
    (hc : ∃ c ∈ right.toList.head?, Token.Separates c) (h : Fills texts s) (h' : Fills others t) :
    Fills (left :: (texts ++ right :: others)) (left.toList ++ s ++ right.toList ++ t) := by
  rw [List.append_assoc, List.append_assoc]
  refine (h.append (h'.cons (Token.ends_of_mark hr _)) ?_).cons (Token.ends_of_mark hl _)
  obtain ⟨c, hc, hsep⟩ := hc
  rw [List.head?_append, Option.mem_def.mp hc]
  rintro d ⟨⟩
  exact hsep

/-- A text with a blank on either side of it. -/
theorem spaced (text : String) (h : Fills texts s) :
    Fills (text :: texts) (' ' :: text.toList ++ ' ' :: s) := by
  have hblank : Blanks [' '] := by decide
  have htext : Fills (text :: texts) ([' '] ++ (text.toList ++ ([' '] ++ s))) :=
    ((h.blanks_append hblank).cons (Token.ends_of_blank text (by decide))).blanks_append hblank
  exact htext

/-- A text that goes on with nothing may stand before anything. -/
theorem single_append (h : Fills [text] s) (he : ∀ next, Token.Ends text next)
    (h' : Fills others t) : Fills (text :: others) (s ++ t) := by
  obtain ⟨rest, hs, hr⟩ := h
  obtain ⟨gap, after, rfl, hg, -, hs⟩ := hs.of_cons
  cases hs
  rw [List.append_assoc, List.append_assoc]
  exact ((h'.blanks_append hr).cons (he _)).blanks_append hg

end Fills

/-! ## Sources side by side -/

/-- A source between two marks. -/
def enclosed (left : String) (source : List Char) (right : String) : List Char :=
  left.toList ++ source ++ right.toList

/-- A source in parentheses. -/
def bracketed (source : List Char) : List Char :=
  enclosed "(" source ")"

/-- Sources with commas between them. -/
def joined (sources : List (List Char)) : List Char :=
  ", ".toList.intercalate sources

theorem joined_cons (source : List Char) (sources : List (List Char)) :
    joined (source :: sources) = source ++ (sources.map (", ".toList ++ ·)).flatten := by
  induction sources generalizing source with
  | nil => simp [joined]
  | cons next sources ih =>
    have h := ih next
    rw [joined] at h ⊢
    rw [List.intercalate_cons_cons, h, List.map_cons, List.flatten_cons, List.append_assoc,
      List.append_assoc]

/-- Texts that write the construct at some depth fill the source, also before everything that
begins with a character that satisfies `C`. -/
def WritesBefore (C : Char → Prop) (c : Construct) (source : List Char) : Prop :=
  ∃ depth texts, Written depth c texts ∧ ∀ ⦃others : List String⦄ ⦃t : List Char⦄,
    Begins C t → Fills others t → Fills (texts ++ others) (source ++ t)

/-- The same before anything. -/
abbrev WritesClosed (c : Construct) (source : List Char) : Prop :=
  WritesBefore (fun _ => True) c source

/-- The source is filled with texts that write the construct at some depth. -/
def Writes (c : Construct) (source : List Char) : Prop :=
  ∃ depth texts, Written depth c texts ∧ Fills texts source

namespace WritesBefore

variable {C D : Char → Prop} {c : Construct} {source : List Char}

theorem mono (h : WritesBefore C c source) (hd : ∀ d, D d → C d) : WritesBefore D c source := by
  obtain ⟨n, texts, hw, hs⟩ := h
  exact ⟨n, texts, hw, fun others t ht hf => hs (ht.mono hd) hf⟩

theorem writes (h : WritesBefore C c source) : Writes c source := by
  obtain ⟨n, texts, hw, hs⟩ := h
  have hfills := hs .nil .nil
  rw [List.append_nil, List.append_nil] at hfills
  exact ⟨n, texts, hw, hfills⟩

/-- Things of one kind that follow each other, all of them written at the same depth. -/
theorem each {γ : Type} {construct : γ → Construct} {items : List γ}
    {sources : List (List Char)}
    (h : List.Forall₂ (fun item source => WritesBefore C (construct item) source) items sources)
    (hc : ∀ source ∈ sources, Begins C source) :
    ∃ n, ∃ parts : List (γ × List String), parts.map (·.1) = items ∧
      (∀ part ∈ parts, Written n (construct part.1) part.2) ∧
      ∀ ⦃others : List String⦄ ⦃t : List Char⦄, Begins C t → Fills others t →
        Fills (parts.flatMap (·.2) ++ others) (sources.flatten ++ t) := by
  induction h with
  | nil => exact ⟨0, [], rfl, nofun, fun _ _ _ hf => hf⟩
  | @cons item source items sources h _ ih =>
    obtain ⟨n, texts, hw, hs⟩ := h
    obtain ⟨m, parts, rfl, hws, hparts⟩ := ih (List.forall_mem_cons.mp hc).2
    refine ⟨max n m, (item, texts) :: parts, rfl, List.forall_mem_cons.mpr
      ⟨hw.mono (Nat.le_max_left n m), fun part hp => (hws part hp).mono (Nat.le_max_right n m)⟩,
      fun others t ht hf => ?_⟩
    rw [List.flatMap_cons, List.flatten_cons, List.append_assoc, List.append_assoc]
    exact hs ((Begins.flatten (List.forall_mem_cons.mp hc).2).append ht) (hparts ht hf)

end WritesBefore

namespace Writes

variable {e f g k : Expr} {role : Role} {a b c : List Char} {construct : Construct}

theorem before (h : Writes construct a) : WritesBefore Token.Separates construct a := by
  obtain ⟨n, texts, hw, hs⟩ := h
  exact ⟨n, texts, hw, fun others t ht hf => hs.append hf ht⟩

/-- One text may stand before whatever does not continue it. -/
theorem leaf {raw : String} {n : Nat} (h : Written n construct [raw]) :
    WritesBefore (fun d => Token.Ends raw (some d)) construct raw.toList := by
  refine ⟨n, [raw], h, fun others t ht hf => hf.cons ?_⟩
  cases t with
  | nil => exact Token.ends_none raw
  | cons d t => exact ht d rfl

/-! ## Runs of operands -/

theorem operation {symbol : String} (hsymbol : symbol ∈ infixSymbols)
    (h : Writes (.operand e) a) :
    Writes (.operation (symbol, e)) (' ' :: symbol.toList ++ ' ' :: a) := by
  obtain ⟨n, texts, hw, hs⟩ := h
  exact ⟨n, symbol :: texts, .operation hsymbol hw, hs.spaced symbol⟩

theorem noBranches : Writes (.branches none) [] :=
  ⟨0, [], .noBranches, .nil⟩

theorem branches (h : Writes (.item .value e) a) (h' : Writes (.item .value f) b) :
    Writes (.branches (some (e, f)))
      (' ' :: "?".toList ++ ' ' :: (a ++ ' ' :: ":".toList ++ ' ' :: b)) := by
  obtain ⟨n, texts, hw, hs⟩ := h
  obtain ⟨m, others, hw', hs'⟩ := h'
  refine ⟨max n m, _, .branches (hw.mono (Nat.le_max_left n m)) (hw'.mono (Nat.le_max_right n m)),
    Fills.spaced "?" ?_⟩
  rw [List.append_assoc]
  exact hs.append (hs'.spaced ":") (Begins.cons (by decide) _)

/-- A run of operands, and what it may be the test of. -/
theorem run {operations : List (String × Expr)} {sources : List (List Char)}
    {chosen : Option (Expr × Expr)} (h : Writes (.operand e) a)
    (hs : List.Forall₂ (fun operation source => Writes (.operation operation) source) operations
      sources) (hsep : ∀ source ∈ sources, Begins Token.Separates source)
    (hb : Writes (.branches chosen) b) (hsep' : Begins Token.Separates b) :
    Writes (.item .value ((Expr.fold e operations).withBranches chosen))
      (a ++ (sources.flatten ++ b)) := by
  obtain ⟨n, texts, hw, ha⟩ := h
  obtain ⟨m, parts, rfl, hws, hparts⟩ :=
    WritesBefore.each (hs.imp fun _ _ => Writes.before) hsep
  obtain ⟨l, last, hwb, hlast⟩ := hb
  refine ⟨max n (max m l) + 1, texts ++ (parts.flatMap (·.2) ++ last),
    .expression (hw.mono (by omega)) (fun part hp => (hws part hp).mono (by omega))
      (hwb.mono (by omega)), ?_⟩
  exact ha.append (hparts hsep' hlast) ((Begins.flatten hsep).append hsep')

theorem of_operand (h : Writes (.operand e) a) : Writes (.item .value e) a := by
  have hrun := @run e a [] [] [] none h .nil nofun noBranches .nil
  rwa [List.flatten_nil, List.append_nil, List.append_nil] at hrun

theorem binary {symbol : String} (hsymbol : symbol ∈ infixSymbols)
    (h : Writes (.operand e) a) (h' : Writes (.operand f) b) :
    Writes (.item .value (.binary symbol e f)) (a ++ ' ' :: symbol.toList ++ ' ' :: b) := by
  have hrun := @run e a [] [(symbol, f)] [' ' :: symbol.toList ++ ' ' :: b] none h
    (.cons (h'.operation hsymbol) .nil)
    (List.forall_mem_singleton.mpr (Begins.cons (by decide) _)) noBranches .nil
  rw [List.flatten_singleton, List.append_nil, ← List.append_assoc] at hrun
  have hfold : (Expr.fold e [(symbol, f)]).withBranches none = .binary symbol e f := by
    simp [Expr.fold, Expr.feed, Expr.collapse, Expr.withBranches]
  rwa [hfold] at hrun

theorem choice (h : Writes (.operand e) a) (h' : Writes (.item .value f) b)
    (h'' : Writes (.item .value g) c) :
    Writes (.item .value (.choice e f g))
      (a ++ ' ' :: "?".toList ++ ' ' :: (b ++ ' ' :: ":".toList ++ ' ' :: c)) := by
  have hrun := run h .nil nofun (h'.branches h'') (Begins.cons (by decide) _)
  rwa [List.flatten_nil, List.nil_append, ← List.append_assoc] at hrun

/-- An operator before an operand, or before blanks and an operand. -/
theorem signed {symbol : String} (hsymbol : symbol ∈ UnaryOperator.all.map (·.symbol))
    (hg : Blanks b) (h : Writes (.operand e) a) :
    Writes (.operand (.unary symbol e)) (symbol.toList ++ (b ++ a)) := by
  obtain ⟨n, texts, hw, hs⟩ := h
  exact ⟨n + 2, symbol :: texts, .unary hsymbol hw,
    (hs.blanks_append hg).cons (Token.ends_of_sign hsymbol _)⟩

/-! ## Chains of suffixes -/

/-- Suffixes after a base that they cannot be taken for a part of. -/
theorem chain {C : Char → Prop} {suffixes : List Expr.Suffix} {sources : List (List Char)}
    (h : WritesBefore C (.base e) a)
    (hs : List.Forall₂ (fun suffix source => WritesClosed (.suffix suffix) source) suffixes
      sources)
    (hc : Begins C sources.flatten) :
    Writes (.operand (suffixes.foldl Expr.Suffix.apply e)) (a ++ sources.flatten) := by
  obtain ⟨n, texts, hw, ha⟩ := h
  obtain ⟨m, parts, rfl, hws, hparts⟩ := WritesBefore.each hs fun _ _ => .anything
  have hfills := ha hc (by simpa using hparts .anything .nil)
  exact ⟨max n m + 1, _, .chain (hw.mono (Nat.le_max_left n m))
    (fun part hp => (hws part hp).mono (Nat.le_max_right n m)), hfills⟩

/-! ## Brackets -/

theorem bracket {left right : String}
    (hl : ¬ Token.IsInteger left.toList ∧ left ∉ infixSymbols)
    (hr : ¬ Token.IsInteger right.toList ∧ right ∉ infixSymbols)
    (hc : ∃ c ∈ right.toList.head?, Token.Separates c) {n : Nat} {texts : List String}
    (hw : Written n construct (left :: (texts ++ [right]))) (hs : Fills texts a) :
    WritesClosed construct (enclosed left a right) := by
  refine ⟨n, _, hw, fun others t _ hf => ?_⟩
  rw [List.cons_append, List.append_assoc]
  exact hs.enclose hl hr hc hf

/-- Parentheses make a base of an expression. -/
theorem parenthesized (h : Writes (.item .value e) a) :
    WritesClosed (.base e) (bracketed a) := by
  obtain ⟨n, texts, hw, hs⟩ := h
  exact bracket (by decide) (by decide) (by decide) (.parenthesized hw) hs

/-- Something to which suffixes can be added is an operand without any. -/
theorem of_base {C : Char → Prop} (h : WritesBefore C (.base e) a) : Writes (.operand e) a := by
  have hchain := @chain e a C [] [] h .nil .nil
  rwa [List.flatten_nil, List.append_nil] at hchain

theorem grouped (h : Writes (.item .value e) a) : Writes (.operand e) (bracketed a) :=
  of_base h.parenthesized

/-- A suffix may follow an expression in parentheses. -/
theorem suffixed {suffix : Expr.Suffix} (h : Writes (.item .value e) a)
    (h' : WritesClosed (.suffix suffix) b) :
    Writes (.operand (suffix.apply e)) (bracketed a ++ b) := by
  have hchain := chain h.parenthesized (.cons h' .nil) .anything
  rwa [List.flatten_singleton] at hchain

theorem dot {name : String} (hname : Token.IsName name) (hs : Fills [name] a) :
    WritesClosed (.suffix (.dot name)) (".".toList ++ a) := by
  refine ⟨2, _, .dot (Nat.le_refl 2) hname, fun others t _ hf => ?_⟩
  rw [List.append_assoc]
  exact (hs.single_append (Token.ends_of_name hname) hf).cons (Token.ends_of_mark (by decide) _)

theorem index (h : Writes (.item .value k) a) :
    WritesClosed (.suffix (.index k)) (enclosed "[" a "]") := by
  obtain ⟨n, texts, hw, hs⟩ := h
  exact bracket (by decide) (by decide) (by decide) (.index hw) hs

theorem property (h : Writes (.item .key k) a) (h' : Writes (.item .value e) b) :
    Writes (.item .property (.property k e)) (a ++ ": ".toList ++ b) := by
  obtain ⟨n, texts, hw, hs⟩ := h
  obtain ⟨m, others, hw', hs'⟩ := h'
  have hblank : Blanks [' '] := by decide
  have hvalue : Fills (":" :: others) (":".toList ++ ([' '] ++ b)) :=
    (hs'.blanks_append hblank).cons (Token.ends_of_mark (by decide) _)
  refine ⟨max n m + 1, _, .property (hw.mono (Nat.le_max_left n m))
    (hw'.mono (Nat.le_max_right n m)), ?_⟩
  rw [List.append_assoc]
  exact hs.append hvalue (Begins.cons (by decide) _)

theorem further (h : Writes (.item role e) a) :
    Writes (.further role e) (", ".toList ++ a) := by
  obtain ⟨n, texts, hw, hs⟩ := h
  have hblank : Blanks [' '] := by decide
  have hcomma : Fills ("," :: texts) (",".toList ++ ([' '] ++ a)) :=
    (hs.blanks_append hblank).cons (Token.ends_of_mark (by decide) _)
  exact ⟨n, _, .further hw, hcomma⟩

/-- A list that is not empty: its first item, the items after commas, and all of the texts. -/
theorem listed {es : List Expr} {source : List Char} {sources : List (List Char)}
    (h : Writes (.item role e) source)
    (hs : List.Forall₂ (fun e a => Writes (.item role e) a) es sources) :
    ∃ n, ∃ texts, ∃ parts : List (Expr × List String), parts.map (·.1) = es ∧
      Written n (.item role e) texts ∧
      (∀ part ∈ parts, Written n (.further role part.1) part.2) ∧
      Fills (texts ++ parts.flatMap (·.2)) (joined (source :: sources)) := by
  obtain ⟨n, texts, hw, hfirst⟩ := h
  have hfurther : List.Forall₂ (fun e a => WritesBefore Token.Separates (.further role e) a) es
      (sources.map (", ".toList ++ ·)) :=
    List.forall₂_map_right_iff.mpr (hs.imp fun _ _ h => h.further.before)
  have hcomma : ∀ source ∈ sources.map (", ".toList ++ ·), Begins Token.Separates source := by
    intro source hm
    obtain ⟨a, -, rfl⟩ := List.mem_map.mp hm
    exact Begins.cons (by decide) _
  obtain ⟨m, parts, rfl, hws, hparts⟩ := WritesBefore.each hfurther hcomma
  refine ⟨max n m, texts, parts, rfl, hw.mono (Nat.le_max_left n m),
    fun part hp => (hws part hp).mono (Nat.le_max_right n m), ?_⟩
  rw [joined_cons]
  exact hfirst.append (by simpa using hparts .nil .nil) (Begins.flatten hcomma)

theorem arguments {es : List Expr} {sources : List (List Char)}
    (h : List.Forall₂ (fun e a => Writes (.item .value e) a) es sources) :
    WritesClosed (.suffix (.arguments es)) (enclosed "(" (joined sources) ")") := by
  cases h with
  | nil =>
    exact bracket (by decide) (by decide) (by decide) (.noArguments (Nat.le_refl 4)) .nil
  | cons h hs =>
    obtain ⟨n, texts, parts, rfl, hw, hws, hlist⟩ := h.listed hs
    have hwritten := Written.arguments hw hws
    rw [← List.append_assoc] at hwritten
    exact bracket (by decide) (by decide) (by decide) hwritten hlist

theorem object {es : List Expr} {sources : List (List Char)}
    (h : List.Forall₂ (fun e a => Writes (.item .property e) a) es sources) :
    WritesClosed (.base (.object es)) (enclosed "\x7b" (joined sources) "\x7d") := by
  cases h with
  | nil =>
    exact bracket (by decide) (by decide) (by decide) (.emptyObject (Nat.le_refl 3)) .nil
  | cons h hs =>
    obtain ⟨n, texts, parts, rfl, hw, hws, hlist⟩ := h.listed hs
    have hwritten := Written.object hw hws (.inl rfl)
    rw [List.nil_append, ← List.append_assoc] at hwritten
    exact bracket (by decide) (by decide) (by decide) hwritten hlist

/-- Nothing where an element of an array may stand. -/
theorem hole : Writes (.item .element .hole) [] :=
  ⟨4, [], .hole (Nat.le_refl 4), .nil⟩

theorem element (h : Writes (.item .value e) a) : Writes (.item .element e) a :=
  h.imp fun _ => Exists.imp fun _ => And.imp_left .element

/-- The elements of an array: nothing after the last comma is no hole, and nothing between two
brackets is not one either. -/
theorem array {es : List Expr} {source : List Char} {sources : List (List Char)}
    (h : Writes (.item .element e) source)
    (hs : List.Forall₂ (fun e a => Writes (.item .element e) a) es sources) :
    WritesClosed (.base (.array (Expr.kept (e :: es))))
      (enclosed "[" (joined (source :: sources)) "]") := by
  obtain ⟨n, texts, parts, rfl, hw, hws, hlist⟩ := h.listed hs
  have hwritten := Written.array hw hws
  rw [← List.append_assoc] at hwritten
  exact bracket (by decide) (by decide) (by decide) hwritten hlist

theorem array_of_values {es : List Expr} {sources : List (List Char)}
    (h : List.Forall₂ (fun e a => Writes (.item .value e) a) es sources)
    (hholes : ∀ e ∈ es, e.isHole = false) :
    WritesClosed (.base (.array es)) (enclosed "[" (joined sources) "]") := by
  cases h with
  | nil => exact hole.array .nil
  | cons h hs =>
    have harray := h.element.array (hs.imp fun _ _ => element)
    rwa [Expr.kept_eq_self hholes] at harray

end Writes

end GatedExpr
