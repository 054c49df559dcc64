import GatedExpr.Proofs.Grammar.Reading

/-! # Parsing expressions

A parse runs the root rule and looks for what is left. The lexemes of a source that is accepted
write the expression that its tree shows.
-/

namespace GatedExpr

namespace Family

open ExpressionGrammar

/-- The cursor after the blanks that follow. -/
def skipBlanks (cursor : Cursor) : Cursor :=
  (cursor.readPattern .blanks).2

/-- A parse runs the root rule and looks for what is left. -/
theorem parse_of_rule {family : Family} {id : GrammarId} {grammar : Grammar}
    {descriptor : Descriptor} {kind : String} (hget : family.get? id = some grammar)
    (hrule : grammar.rules.lookup kind = some descriptor)
    (hkept : (grammar.pattern .blanks).1 = .pattern .blanks) (source : List Char) :
    family.parse id source kind =
      match family.runRule id descriptor (.start source 0) with
      | (.broken .nestedTooDeeply, cursor) =>
        .error (.parse { reason := .nestedTooDeeply, position := cursor.furthest.toNat, source })
      | (.broken fault, _) => .error fault
      | (.failed, cursor) => .error (.parse (errorAt cursor))
      | (.matched value, cursor) =>
        if (skipBlanks cursor).atEnd then .ok value
        else .error (.parse (errorAt (skipBlanks cursor))) := by
  have hblanks : ∀ cursor, (family.runMatcher (.pattern .blanks) cursor).2 =
      skipBlanks cursor := by
    intro cursor
    rw [runMatcher, Matcher.run, skipBlanks]
    cases cursor.readPattern .blanks with
    | mk found next => cases found <;> rfl
  rw [parse, parseKeeping, hget]
  simp only [hrule]
  cases family.runRule id descriptor (.start source 0) with
  | mk outcome cursor =>
    cases outcome with
    | broken fault => cases fault <;> rfl
    | failed => rfl
    | matched value => simp only [hkept, hblanks]

theorem run_named (follow : Follow) (kind : String) (cursor : Cursor) :
    (named kind).run follow cursor = follow 0 kind cursor := by
  rw [named, Matcher.run]

theorem get?_expression : expression.get? 0 = some withOperators := by
  rw [get?, expression, List.getElem?_cons_zero, Grammar.expression_eq]

/-- The rule for whole expressions. -/
def rootRule : Descriptor :=
  { kind := "Expression"
    rule := some (.sequence [operand, .repetition 0 operation, .optional branches])
    onMatch := some onExpression
    fallback := none }

theorem parse_expression (source : List Char) :
    expression.parse 0 source Grammar.rootKind =
      match (named "Expression").run (followExpression (nestingLimit + 1)) (.start source 0) with
      | (.broken .nestedTooDeeply, cursor) =>
        .error (.parse { reason := .nestedTooDeeply, position := cursor.furthest.toNat, source })
      | (.broken fault, _) => .error fault
      | (.failed, cursor) => .error (.parse (errorAt cursor))
      | (.matched value, cursor) =>
        if (skipBlanks cursor).atEnd then .ok value
        else .error (.parse (errorAt (skipBlanks cursor))) := by
  have hrule : withOperators.rules.lookup "Expression" = some rootRule := rfl
  have hkept : (withOperators.pattern .blanks).1 = .pattern .blanks := rfl
  have hrun : followExpression (nestingLimit + 1) 0 "Expression" (.start source 0) =
      expression.runRule 0 rootRule (.start source 0) :=
    followExpression_succ hrule nestingLimit (.start source 0)
  rw [run_named, hrun]
  exact parse_of_rule get?_expression hrule hkept source

/-- The parser gives up on the source because references are nested too deeply. -/
def NestsTooDeeply (source : List Char) : Prop :=
  ∃ error, expression.parse 0 source Grammar.rootKind = .error (.parse error) ∧
    error.reason = .nestedTooDeeply

theorem exists_tree_of_isOk {source : List Char}
    (h : (expression.parse 0 source Grammar.rootKind).isOk = true) :
    ∃ tree, expression.parse 0 source Grammar.rootKind = .ok tree := by
  cases hr : expression.parse 0 source Grammar.rootKind with
  | ok tree => exact ⟨tree, rfl⟩
  | error fault =>
    rw [hr] at h
    cases h

theorem parse_of_mem_toOption {source : List Char} {tree : Value}
    (h : tree ∈ (expression.parse 0 source Grammar.rootKind).toOption) :
    expression.parse 0 source Grammar.rootKind = .ok tree := by
  cases hr : expression.parse 0 source Grammar.rootKind with
  | ok other =>
    rw [hr] at h
    cases h
    rfl
  | error fault =>
    rw [hr] at h
    cases h

theorem not_nestsTooDeeply_of_parse {source : List Char} {tree : Value}
    (h : expression.parse 0 source Grammar.rootKind = .ok tree) : ¬ NestsTooDeeply source := by
  rintro ⟨error, herror, -⟩
  cases h.symm.trans herror

theorem rest_skipBlanks {cursor : Cursor} (h : cursor.InSource) :
    (skipBlanks cursor).InSource ∧
      (skipBlanks cursor).rest = cursor.rest.dropWhile Text.isBlank := by
  cases hr : cursor.readPattern .blanks with
  | mk found next =>
    rw [skipBlanks, hr]
    cases found with
    | none =>
      rw [Cursor.readPattern, Cursor.clamp_eq h, Token.match?_blanks] at hr
      cases hr
    | some raw =>
      obtain ⟨hn, he, hm⟩ := Cursor.readPattern_eq_some h hr
      rw [← he, Token.match?_blanks, Option.some.injEq, Regex.Way.mk.injEq] at hm
      exact ⟨hn, hm.2.symm⟩

theorem atEnd_iff {cursor : Cursor} (h : cursor.InSource) :
    cursor.atEnd = true ↔ cursor.rest = [] := by
  simp [Cursor.atEnd, h.nonneg]

/-! ## Sources that are accepted -/

variable {source : List Char} {tree : Value}

/-- The lexemes of a parse are those of the reference to the root rule. -/
theorem lexemes_expression (source : List Char) :
    expression.lexemes 0 source Grammar.rootKind =
      (named "Expression").lexemes (followExpression (nestingLimit + 1))
        (lexemesExpression (nestingLimit + 1)) (.start source 0) := by
  have hl : withOperators.rules.lookup "Expression" = some rootRule := rfl
  have hrule : expression.rule? 0 Grammar.rootKind = some rootRule := by
    rw [rule?, get?_expression, Option.bind_some]
    exact hl
  rw [named, Matcher.lexemes, lexemesExpression_succ hl, lexemes, hrule]
  rfl

/-- A source is accepted if its rule matches all of it but blanks. -/
theorem run_of_parse {kind : String} {matcher : Matcher} {onMatch : Option Transform}
    (hl : withOperators.rules.lookup kind =
      some { kind, rule := some matcher, onMatch, fallback := none })
    (h : expression.parse 0 source kind = .ok tree) :
    ∃ cursor, (named kind).run (followExpression (nestingLimit + 1)) (.start source 0) =
      (.matched tree, cursor) ∧ Blanks cursor.place.rest := by
  have hkept : (withOperators.pattern .blanks).1 = .pattern .blanks := rfl
  have hrun : (named kind).run (followExpression (nestingLimit + 1)) (.start source 0) =
      expression.runRule 0 { kind, rule := some matcher, onMatch, fallback := none }
        (.start source 0) := by
    rw [run_named]
    exact followExpression_succ hl nestingLimit (.start source 0)
  have hparse := parse_of_rule get?_expression hl hkept source
  rw [hparse, ← hrun] at h
  cases hr : (named kind).run (followExpression (nestingLimit + 1)) (.start source 0) with
  | mk outcome cursor =>
    rw [hr] at h
    cases outcome with
    | failed => cases h
    | broken fault => cases fault <;> cases h
    | matched value =>
      simp only at h
      split at h
      · next hend =>
        cases h
        have hstart := Cursor.inSource_start source
        obtain ⟨hlast, hrest⟩ :=
          rest_skipBlanks ((progress_expression hstart hr).inSource hstart)
        rw [atEnd_iff hlast, hrest, List.dropWhile_eq_nil_iff] at hend
        exact ⟨cursor, rfl, hend⟩
      · cases h

/-- The lexemes of an accepted source write the expression that its tree shows. -/
theorem written_of_parse (h : expression.parse 0 source Grammar.rootKind = .ok tree) :
    ∃ e place, Depicts .value tree e ∧
      Written (nestingLimit + 1) (.item .value e)
        ((expression.lexemes 0 source Grammar.rootKind).map (·.text)) ∧
      Laid ⟨0, source⟩ (expression.lexemes 0 source Grammar.rootKind) place ∧
      Blanks place.rest := by
  have hl : withOperators.rules.lookup Grammar.rootKind = some rootRule := rfl
  obtain ⟨cursor, hr, hrest⟩ := run_of_parse hl h
  obtain ⟨e, hd, hw, hlaid⟩ :=
    (Matcher.sound (nestingLimit + 1)).expression (Cursor.inSource_start source) hr
  rw [lexemes_expression]
  exact ⟨e, cursor.place, hd, hw, hlaid, hrest⟩

theorem depicts_of_parse (h : expression.parse 0 source Grammar.rootKind = .ok tree) :
    ∃ e, Depicts .value tree e := by
  obtain ⟨e, -, hd, -⟩ := written_of_parse h
  exact ⟨e, hd⟩

end Family

end GatedExpr
