import GatedExpr.Proofs.Grammar.Traces

/-! # Matchers that give up

At a small depth some rules can only give up: whatever they begin with leads to references nested
too deeply. So where such a rule fails and does not give up, the depth is not that small.
-/

namespace GatedExpr

namespace Matcher

open ExpressionGrammar Family

/-- Wherever the matcher runs, it breaks off. -/
def Breaks (depth : Nat) (matcher : Matcher) : Prop :=
  ∀ cursor : Cursor, ∃ fault next,
    matcher.run (followExpression depth) cursor = (.broken fault, next)

/-- Nowhere does the matcher match. -/
def Barren (depth : Nat) (matcher : Matcher) : Prop :=
  ∀ ⦃cursor next : Cursor⦄ ⦃v : Value⦄,
    matcher.run (followExpression depth) cursor ≠ (.matched v, next)

variable {depth : Nat} {matcher : Matcher} {parts options : List Matcher}

theorem Breaks.barren (h : matcher.Breaks depth) : matcher.Barren depth := by
  intro cursor next v hr
  obtain ⟨fault, last, hb⟩ := h cursor
  cases hb.symm.trans hr

/-- What fails somewhere is deep enough not to break off everywhere. -/
theorem le_of_mayFail {bound : Nat} (hb : depth < bound → matcher.Breaks depth)
    (h : MayFail depth matcher) : bound ≤ depth := by
  refine Nat.not_lt.mp fun hlt => ?_
  obtain ⟨start, next, hr⟩ := h
  obtain ⟨fault, last, hbroken⟩ := hb hlt start
  cases hbroken.symm.trans hr

theorem breaks_named (kind : String) : (named kind).Breaks 0 :=
  fun cursor => ⟨.nestedTooDeeply, cursor, rfl⟩

theorem breaks_rule {kind : String} {onMatch : Option Transform}
    (hl : withOperators.rules.lookup kind =
      some { kind, rule := some matcher, onMatch, fallback := none })
    (hm : matcher.Breaks depth) : (named kind).Breaks (depth + 1) := by
  intro cursor
  obtain ⟨fault, next, hr⟩ := hm cursor
  refine ⟨fault, next, ?_⟩
  rw [named, run, followExpression_succ hl, Descriptor.run]
  simp only [hr]

theorem barren_rule {kind : String} {onMatch : Option Transform}
    (hl : withOperators.rules.lookup kind =
      some { kind, rule := some matcher, onMatch, fallback := none })
    (hm : matcher.Barren depth) : (named kind).Barren (depth + 1) := by
  intro cursor next v hr
  rw [named, run, followExpression_succ hl] at hr
  obtain ⟨read, _, hread, -⟩ :=
    Descriptor.matched_of_run (lexemesExpression depth) hr
  exact hm hread

theorem breaks_sequence (h : matcher.Breaks depth) :
    (Matcher.sequence (matcher :: parts)).Breaks depth := by
  intro cursor
  obtain ⟨fault, next, hr⟩ := h cursor
  refine ⟨fault, next, ?_⟩
  rw [run, runEach, hr]
  rfl

/-- One part that never matches is enough. -/
theorem barren_sequence (hp : matcher ∈ parts) (h : matcher.Barren depth) :
    (Matcher.sequence parts).Barren depth := by
  have heach : ∀ {cursor next : Cursor} {vs : List Value},
      runEach (followExpression depth) parts cursor ≠ (.matched vs, next) := by
    induction parts with
    | nil => cases hp
    | cons part parts ih =>
      intro cursor next vs hr
      rw [runEach] at hr
      cases hv : part.run (followExpression depth) cursor with
      | mk outcome middle =>
        rw [hv] at hr
        cases outcome with
        | failed => cases hr
        | broken fault => cases hr
        | matched v =>
          rcases List.mem_cons.mp hp with rfl | hp
          · exact h hv
          · cases hrest : runEach (followExpression depth) parts middle with
            | mk outcome last =>
              simp only [hrest] at hr
              cases outcome with
              | failed => cases hr
              | broken fault => cases hr
              | matched rest => exact ih hp hrest
  intro cursor next v hr
  rw [run] at hr
  cases he : runEach (followExpression depth) parts cursor with
  | mk outcome last =>
    rw [he] at hr
    cases outcome with
    | failed => cases hr
    | broken fault => cases hr
    | matched vs => exact heach he

/-- Some option breaks off, and none before it matches. -/
theorem breaks_alternation (h : ∀ option ∈ options, option.Barren depth)
    (hb : ∃ option ∈ options, option.Breaks depth) :
    (Matcher.alternation options).Breaks depth := by
  intro cursor
  rw [run]
  induction options generalizing cursor with
  | nil =>
    obtain ⟨_, ho, _⟩ := hb
    cases ho
  | cons option options ih =>
    rw [runFirst]
    cases hr : option.run (followExpression depth) cursor with
    | mk outcome last =>
      cases outcome with
      | matched v => exact (h option List.mem_cons_self hr).elim
      | broken fault => exact ⟨fault, last, rfl⟩
      | failed =>
        refine ih (fun o ho => h o (List.mem_cons_of_mem _ ho)) ?_ _
        obtain ⟨o, ho, hbreaks⟩ := hb
        rcases List.mem_cons.mp ho with rfl | ho
        · obtain ⟨fault, next, hbroken⟩ := hbreaks cursor
          cases hr.symm.trans hbroken
        · exact ⟨o, ho, hbreaks⟩

/-! ## Expressions and properties -/

theorem breaks_operand (hu : (named "UnaryOperation").Barren depth)
    (hp : (named "Postfix").Breaks depth) : operand.Breaks depth := by
  refine breaks_alternation ?_ ⟨_, List.mem_cons_of_mem _ List.mem_cons_self, hp⟩
  simp only [List.forall_mem_cons]
  exact ⟨hu, hp.barren, by simp⟩

theorem barren_unaryOperation (h : (named "Unary").Breaks depth) :
    (named "UnaryOperation").Barren (depth + 1) :=
  barren_rule rfl (barren_sequence (List.mem_cons_of_mem _ List.mem_cons_self) h.barren)

/-- An expression is tried as every kind of token and bracket before it fails. -/
theorem breaks_expression (h : depth < 4) : (named "Expression").Breaks depth := by
  have hoperand₀ : operand.Breaks 0 := breaks_operand (breaks_named _).barren (breaks_named _)
  have hunary₁ : (named "Unary").Breaks 1 := breaks_rule rfl hoperand₀
  have hoperand₁ : operand.Breaks 1 :=
    breaks_operand (barren_unaryOperation (breaks_named _))
      (breaks_rule rfl (breaks_sequence (breaks_named _)))
  have hprimary : (named "Primary").Breaks 1 := by
    refine breaks_rule rfl (breaks_alternation ?_ ⟨_, List.mem_cons_self, breaks_named _⟩)
    simp only [List.forall_mem_cons]
    exact ⟨(breaks_named _).barren, (breaks_named _).barren, (breaks_named _).barren,
      (breaks_named _).barren, (breaks_named _).barren, (breaks_named _).barren,
      (breaks_named _).barren, by simp⟩
  have hoperand₂ : operand.Breaks 2 :=
    breaks_operand (barren_unaryOperation hunary₁) (breaks_rule rfl (breaks_sequence hprimary))
  match depth, h with
  | 0, _ => exact breaks_named _
  | 1, _ => exact breaks_rule rfl (breaks_sequence hoperand₀)
  | 2, _ => exact breaks_rule rfl (breaks_sequence hoperand₁)
  | 3, _ => exact breaks_rule rfl (breaks_sequence hoperand₂)

/-- A property is tried with every kind of key before it fails. -/
theorem breaks_property (h : depth < 3) : (named "Property").Breaks depth := by
  have hkey : (named "PropertyKey").Breaks 1 := by
    refine breaks_rule rfl (breaks_alternation ?_ ⟨_, List.mem_cons_self, breaks_named _⟩)
    simp only [List.forall_mem_cons]
    exact ⟨(breaks_named _).barren, (breaks_named _).barren, (breaks_named _).barren, by simp⟩
  match depth, h with
  | 0, _ => exact breaks_named _
  | 1, _ => exact breaks_rule rfl (breaks_sequence (breaks_named _))
  | 2, _ => exact breaks_rule rfl (breaks_sequence hkey)

end Matcher

end GatedExpr
