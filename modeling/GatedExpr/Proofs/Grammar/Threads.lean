import GatedExpr.Proofs.Grammar.Written

/-! # Leaves in a text

A text that is read as an expression is a thread of the leaves of the expression with blanks and
punctuation between them. Each leaf has a character that cannot stand between leaves.
-/

namespace GatedExpr

open Token

/-- Nothing but marks. -/
def Marks (text : List Char) : Prop :=
  ∀ c ∈ text, isMark c = true

instance (text : List Char) : Decidable (Marks text) :=
  inferInstanceAs (Decidable (∀ c ∈ text, isMark c = true))

namespace Marks

variable {s t : List Char}

theorem nil : Marks [] :=
  nofun

theorem append (hs : Marks s) (ht : Marks t) : Marks (s ++ t) :=
  fun c hc => (List.mem_append.mp hc).elim (hs c) (ht c)

end Marks

/-- A number that ends in digits is not followed by a point, which it would have read on with. -/
def Token.Apart (leaf : String) (rest : List Char) : Prop :=
  Token.IsInteger leaf.toList → rest.head? ≠ some '.'

/-- The leaves stand in the text in their order, each apart from what follows it, with nothing but
marks around them. -/
inductive Threads : List String → List Char → Prop where

  | done {marks : List Char} : Marks marks → Threads [] marks

  | leaf {marks after : List Char} {leaf : String} {leaves : List String} :
      Marks marks → Apart leaf after → Threads leaves after →
      Threads (leaf :: leaves) (marks ++ (leaf.toList ++ after))

namespace Threads

variable {leaf : String} {leaves : List String} {marks s : List Char}

theorem marks_append (hm : Marks marks) (h : Threads leaves s) : Threads leaves (marks ++ s) := by
  cases h with
  | done hd => exact .done (hm.append hd)
  | leaf hd hl h =>
    rw [← List.append_assoc]
    exact .leaf (hm.append hd) hl h

theorem of_cons (h : Threads (leaf :: leaves) s) :
    ∃ marks after, s = marks ++ (leaf.toList ++ after) ∧ Marks marks ∧ Apart leaf after ∧
      Threads leaves after := by
  cases h with
  | leaf hm hl h => exact ⟨_, _, rfl, hm, hl, h⟩

end Threads

/-! ## Texts that are no marks -/

/-- Something that cannot stand between leaves occurs in the text. -/
def Solid (leaf : String) : Prop :=
  ∃ c ∈ leaf.toList, isMark c = false

namespace Token

variable {raw : String} {value : Value}

theorem number_decimal {t : List Char} (h : number.regex.Spells t) :
    ∃ c ∈ t, Text.isDecimal c = true := by
  have hdigit {m : List Char} (h : IsInteger m) : ∃ c ∈ m, Text.isDecimal c = true := by
    obtain ⟨c, rest, rfl⟩ := List.exists_cons_of_ne_nil h.1
    exact ⟨c, List.mem_cons_self, h.2 c List.mem_cons_self⟩
  rcases number_cases h with ⟨digits, rfl, -⟩ | ⟨mantissa, exponent, rfl, hm, -⟩
  · exact ⟨'0', List.mem_cons_self, by decide⟩
  · have hmantissa : ∃ c ∈ mantissa, Text.isDecimal c = true := by
      rcases hm with hm | ⟨whole, fraction, rfl, hw, -⟩ | ⟨fraction, rfl, hf⟩
      · exact hdigit hm
      · obtain ⟨c, hc, hd⟩ := hdigit hw
        exact ⟨c, List.mem_append_left _ hc, hd⟩
      · obtain ⟨c, hc, hd⟩ := hdigit hf
        exact ⟨c, List.mem_cons_of_mem _ hc, hd⟩
    obtain ⟨c, hc, hd⟩ := hmantissa
    exact ⟨c, List.mem_append_left _ hc, hd⟩

theorem solid_literal (h : IsNumber raw value ∨ IsString raw value ∨ IsKeyword raw value) :
    Solid raw := by
  rcases h with h | h | h
  · obtain ⟨c, hc, hd⟩ := number_decimal (h.1.spells rfl)
    exact ⟨c, hc, isMark_of_decimal hd⟩
  · obtain ⟨mark, body, hm, he, -⟩ := string_cases (h.1.spells rfl)
    refine ⟨mark, he ▸ List.mem_cons_self, ?_⟩
    rcases hm with rfl | rfl <;> decide
  · cases h
    · exact ⟨'t', by decide, by decide⟩
    · exact ⟨'f', by decide, by decide⟩
    · exact ⟨'n', by decide, by decide⟩

theorem solid_name (h : IsName raw) : Solid raw := by
  obtain ⟨c, rest, he, hc, -⟩ := name_cases (h.spells rfl)
  exact ⟨c, he ▸ List.mem_cons_self, isMark_of_start hc⟩

end Token

instance (text : String) : Decidable (Solid text) :=
  inferInstanceAs (Decidable (∃ c ∈ text.toList, isMark c = false))

theorem marks_of_not_solid {text : String} (h : ¬ Solid text) : Marks text.toList := by
  intro c hc
  by_contra hmark
  exact h ⟨c, hc, Bool.eq_false_of_not_eq_true hmark⟩

theorem Blanks.marks {s : List Char} (h : Blanks s) : Marks s := by
  intro c hc
  rw [isMark, h c hc, Bool.true_or]

/-- The texts that are no marks. -/
def solids (texts : List String) : List String :=
  texts.filter (Solid ·)

theorem solids_append (texts others : List String) :
    solids (texts ++ others) = solids texts ++ solids others :=
  List.filter_append texts others

theorem solids_cons {text : String} (h : Solid text) (texts : List String) :
    solids (text :: texts) = text :: solids texts :=
  List.filter_cons_of_pos (decide_eq_true h)

theorem solids_mark {text : String} (h : ¬ Solid text) (texts : List String) :
    solids (text :: texts) = solids texts :=
  List.filter_cons_of_neg (by rwa [decide_eq_true_iff])

theorem solids_enclosed {left right : String} (hl : ¬ Solid left) (hr : ¬ Solid right)
    (texts : List String) : solids (left :: (texts ++ [right])) = solids texts := by
  rw [solids_mark hl, solids_append, solids_mark hr, solids, solids, List.filter_nil,
    List.append_nil]

/-- What fills a source and is no mark is threaded through it. -/
theorem Fills.threads {texts : List String} {source : List Char} (h : Fills texts source) :
    Threads (solids texts) source := by
  obtain ⟨rest, hs, hr⟩ := h
  induction hs with
  | done => exact .done hr.marks
  | @text gap after rest text texts hg he _ ih =>
    by_cases hs : Solid text
    · rw [solids_cons hs]
      exact .leaf hg.marks he.integer (ih hr)
    · rw [solids_mark hs, ← List.append_assoc]
      exact (ih hr).marks_append (hg.marks.append (marks_of_not_solid hs))

/-! ## Texts of constructs -/

namespace Construct

/-- The leaves of what a construct is about. -/
def leaves : Construct → List String
  | item _ e | operand e | base e | further _ e => e.leaves
  | suffix s => s.leaves
  | operation o => o.2.leaves
  | branches none => []
  | branches (some (e, f)) => e.leaves ++ f.leaves

end Construct

theorem solids_flatMap {β : Type} (construct : β → Construct) {parts : List (β × List String)}
    (h : ∀ part ∈ parts, solids part.2 = (construct part.1).leaves) :
    solids (parts.flatMap (·.2)) = (parts.map (·.1)).flatMap fun x => (construct x).leaves := by
  induction parts with
  | nil => rfl
  | cons part parts ih =>
    obtain ⟨hpart, hparts⟩ := List.forall_mem_cons.mp h
    rw [List.flatMap_cons, solids_append, hpart, ih hparts, List.map_cons, List.flatMap_cons]

/-- A list: its first item, and the items after commas. -/
theorem solids_listed {role : Role} {e : Expr} {s : List String}
    {es : List (Expr × List String)} (h : solids s = e.leaves)
    (hs : ∀ f ∈ es, solids f.2 = (Construct.further role f.1).leaves) :
    solids (s ++ es.flatMap (·.2)) = Expr.leavesOf (e :: es.map (·.1)) := by
  rw [solids_append, h, solids_flatMap (.further role) hs, Expr.leavesOf,
    Expr.leavesOf_eq_flatMap]
  rfl

/-- The texts of a construct that are no marks are its leaves. -/
theorem Written.solids_eq {n : Nat} {c : Construct} {texts : List String}
    (h : Written n c texts) : solids texts = c.leaves := by
  have symbol {text : String} (h : text ∈ infixSymbols ++ UnaryOperator.all.map (·.symbol)) :
      ¬ Solid text := by
    have hall : ∀ x ∈ infixSymbols ++ UnaryOperator.all.map (·.symbol), ¬ Solid x := by decide
    exact hall text h
  induction h with
  | @expression n e chosen operations s t _ _ _ ih ihs ih' =>
    rw [solids_append, solids_append, ih, solids_flatMap .operation ihs, ih']
    cases chosen with
    | none => simp [Construct.leaves, Expr.withBranches, Expr.leaves_fold]
    | some b => simp [Construct.leaves, Expr.withBranches, Expr.leaves_fold, Expr.leaves]
  | operation hs _ ih => exact (solids_mark (symbol (List.mem_append_left _ hs)) _).trans ih
  | noBranches | hole | emptyObject | noArguments => rfl
  | branches _ _ ih ih' =>
    rw [solids_mark (by decide), solids_append, solids_mark (by decide), ih, ih']
    rfl
  | element _ ih => exact ih
  | keyName _ hn => exact solids_cons (solid_name hn) []
  | keyLiteral _ hl => exact solids_cons (solid_literal (hl.imp_right .inl)) []
  | property _ _ ih ih' =>
    rw [solids_append, solids_mark (by decide), ih, ih']
    rfl
  | further _ ih => exact (solids_mark (by decide) _).trans ih
  | literal _ hl => exact solids_cons (solid_literal hl) []
  | name _ hn => exact solids_cons (solid_name hn) []
  | array _ _ ih ihs =>
    rw [← List.append_assoc, solids_enclosed (by decide) (by decide), solids_listed ih ihs]
    exact (Expr.leavesOf_kept _).symm
  | object _ _ ht ih ihs =>
    have htrailing : ∀ t ∈ [[], [","]], solids t = [] := by decide
    rw [← List.append_assoc, ← List.append_assoc, solids_enclosed (by decide) (by decide),
      solids_append, solids_listed ih ihs, htrailing _ (by simpa using ht), List.append_nil]
    rfl
  | parenthesized _ ih => exact (solids_enclosed (by decide) (by decide) _).trans ih
  | dot _ hn => exact (solids_mark (by decide) _).trans (solids_cons (solid_name hn) [])
  | index _ ih => exact (solids_enclosed (by decide) (by decide) _).trans ih
  | arguments _ _ ih ihs =>
    rw [← List.append_assoc, solids_enclosed (by decide) (by decide)]
    exact solids_listed ih ihs
  | unary hs _ ih => exact (solids_mark (symbol (List.mem_append_right _ hs)) _).trans ih
  | chain _ _ ih ihs =>
    rw [solids_append, ih, solids_flatMap .suffix ihs]
    exact (Expr.Suffix.leaves_foldl _ _).symm

end GatedExpr
