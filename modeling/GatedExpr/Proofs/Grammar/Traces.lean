import GatedExpr.Proofs.Grammar.Backtracking
import GatedExpr.Proofs.Grammar.Layout
import GatedExpr.Proofs.Grammar.Rules
import GatedExpr.Proofs.Grammar.Transforms

/-! # Traces of runs

How the result of a run that succeeds and the lexemes of the run are related to the places where
the run begins and ends, one combinator at a time.
-/

namespace GatedExpr

namespace Cursor

variable {cursor next : Cursor}

@[simp] theorem place_rewind (cursor later : Cursor) :
    (cursor.rewind later).place = cursor.place :=
  rfl

/-- What a run has read is what it has moved on by. -/
theorem Progress.position_eq (h : cursor.Progress next) (hc : cursor.InSource) :
    cursor.place.position + cursor.place.rest.length =
      next.place.position + next.place.rest.length := by
  have hstart := length_rest hc
  have hstop := length_rest (h.inSource hc)
  rw [h.source_eq] at hstop
  simp only [place]
  omega

end Cursor

namespace Family

/-- The lexemes of what references inside of the expression grammar lead to. -/
def lexemesExpression (depth : Nat) : LexemesOf :=
  expression.lexemesOf depth (some 0)

open ExpressionGrammar

theorem resolve?_expression {kind : String} {descriptor : Descriptor}
    (h : withOperators.rules.lookup kind = some descriptor) :
    expression.resolve? (some 0) 0 kind = some (0, descriptor) := by
  have hget : expression.get? 0 = some (Grammar.expression 0) := by
    rw [get?, expression, List.getElem?_cons_zero]
  have hrule : expression.rule? 0 kind = some descriptor := by
    rw [rule?, hget, Grammar.expression_eq, Option.bind_some, h]
  simp only [resolve?, Option.getD_some, hrule]

theorem lexemesExpression_succ {kind : String} {descriptor : Descriptor}
    (h : withOperators.rules.lookup kind = some descriptor) (depth : Nat) (cursor : Cursor) :
    lexemesExpression (depth + 1) 0 kind cursor =
      descriptor.lexemes (followExpression depth) (lexemesExpression depth) cursor := by
  simp only [lexemesExpression, lexemesOf, resolve?_expression h]
  rfl

theorem progress_expression {depth : Nat} {matcher : Matcher} {cursor next : Cursor}
    {outcome : Outcome Value} (hc : cursor.InSource)
    (h : matcher.run (followExpression depth) cursor = (outcome, next)) : cursor.Progress next :=
  (Matcher.backtracks_run (backtracks_follow expression depth (some 0)) matcher cursor hc h).1

end Family

namespace Descriptor

/-- A rule without a fallback yields what it makes of a match. -/
theorem matched_of_run {follow : Follow} (inner : LexemesOf) {kind : String} {matcher : Matcher}
    {onMatch : Option Transform} {start next : Cursor} {v : Value}
    (h : Descriptor.run follow { kind, rule := some matcher, onMatch, fallback := none } start =
      (.matched v, next)) :
    ∃ read result, matcher.run follow start = (.matched read, next) ∧
      transformed { kind, rule := some matcher, onMatch, fallback := none } read =
        .ok (some result) ∧
      v = settle kind ⟨start.position, next.position⟩ result ∧
      Descriptor.lexemes follow inner { kind, rule := some matcher, onMatch, fallback := none }
        start = matcher.lexemes follow inner start := by
  rw [run] at h
  simp only at h
  split at h
  · cases h
  · cases h
  · next read last hr =>
    split at h
    · cases h
    · cases h
    · next result ht =>
      cases h
      refine ⟨read, result, hr, ht, rfl, ?_⟩
      rw [lexemes]
      simp only [hr, ht]

end Descriptor

namespace Matcher

open ExpressionGrammar Family

/-- Whenever the matcher succeeds, the relation holds between the result, the lexemes of the run
and the places before and after. -/
def Traces (depth : Nat) (matcher : Matcher)
    (P : Value → List Lexeme → Place → Place → Prop) : Prop :=
  ∀ ⦃start next : Cursor⦄ ⦃v : Value⦄, start.InSource →
    matcher.run (followExpression depth) start = (.matched v, next) →
      P v (matcher.lexemes (followExpression depth) (lexemesExpression depth) start) start.place
        next.place

/-- The same of matchers that run one after the other. -/
def TraceEach (depth : Nat) (parts : List Matcher)
    (Q : List Value → List Lexeme → Place → Place → Prop) : Prop :=
  ∀ ⦃start next : Cursor⦄ ⦃vs : List Value⦄, start.InSource →
    runEach (followExpression depth) parts start = (.matched vs, next) →
      Q vs (lexemesEach (followExpression depth) (lexemesExpression depth) parts start)
        start.place next.place

/-- Somewhere the matcher fails at that depth. -/
def MayFail (depth : Nat) (matcher : Matcher) : Prop :=
  ∃ start next : Cursor, matcher.run (followExpression depth) start = (.failed, next)

/-- Results that follow each other, and their lexemes. -/
inductive TraceChain (P : Value → List Lexeme → Place → Place → Prop) :
    List Value → List Lexeme → Place → Place → Prop where

  | nil {a : Place} : TraceChain P [] [] a a

  | cons {v : Value} {vs : List Value} {l m : List Lexeme} {a b c : Place} : P v l a b →
      TraceChain P vs m b c → TraceChain P (v :: vs) (l ++ m) a c

variable {depth : Nat} {matcher : Matcher} {parts : List Matcher}
  {P P' : Value → List Lexeme → Place → Place → Prop}
  {Q : List Value → List Lexeme → Place → Place → Prop}

theorem Traces.mono (h : matcher.Traces depth P) (hp : ∀ v l a b, P v l a b → P' v l a b) :
    matcher.Traces depth P' :=
  fun _ _ _ hs hr => hp _ _ _ _ (h hs hr)

theorem Traces.and (h : matcher.Traces depth P) (h' : matcher.Traces depth P') :
    matcher.Traces depth fun v l a b => P v l a b ∧ P' v l a b :=
  fun _ _ _ hs hr => ⟨h hs hr, h' hs hr⟩

/-! ## Leaves -/

/-- What was read is one lexeme between the places. -/
def IsPiece (raw : String) (v : Value) (l : List Lexeme) (a b : Place) : Prop :=
  v = .ofTree (.token raw ⟨a.position, b.position⟩) ∧
    l = [⟨raw, ⟨a.position, b.position⟩⟩] ∧ a.rest = raw.toList ++ b.rest ∧
    b.position = a.position + raw.toList.length

theorem traces_literal (text : String) : (Matcher.literal text).Traces depth (IsPiece text) := by
  intro start next v hs hr
  have hp := (progress_expression hs hr).position_eq hs
  rw [run] at hr
  rw [lexemes]
  cases hl : start.readLiteral text.toList with
  | mk found last =>
    rw [hl] at hr
    cases found with
    | false => cases hr
    | true =>
      cases hr
      have hrest := (Cursor.readLiteral_eq_true hs hl).2
      refine ⟨rfl, rfl, hrest, ?_⟩
      simp only [Cursor.place, hrest, List.length_append] at hp ⊢
      omega

theorem traces_pattern (pattern : Pattern) :
    (Matcher.pattern pattern).Traces depth fun v l a b => ∃ raw : String, IsPiece raw v l a b ∧
      pattern.match? (raw.toList ++ b.rest) = some ⟨raw.toList.length, b.rest⟩ := by
  intro start next v hs hr
  have hp := (progress_expression hs hr).position_eq hs
  rw [run] at hr
  rw [lexemes]
  cases hl : start.readPattern pattern with
  | mk found last =>
    rw [hl] at hr
    cases found with
    | none => cases hr
    | some raw =>
      cases hr
      obtain ⟨-, hrest, hm⟩ := Cursor.readPattern_eq_some hs hl
      refine ⟨String.ofList raw, ⟨rfl, rfl, ?_, ?_⟩, ?_⟩
      · rw [String.toList_ofList]
        exact hrest
      · rw [String.toList_ofList]
        simp only [Cursor.place, hrest, List.length_append] at hp ⊢
        omega
      · rw [String.toList_ofList]
        exact hm

theorem traces_spaced (h : matcher.Traces depth P) :
    (spaced matcher).Traces depth fun v l a b => P v l a.skip b := by
  intro start next v hs hr
  rw [spaced, run] at hr
  rw [spaced, lexemes]
  cases hb : (Matcher.pattern .blanks).run (followExpression depth) start with
  | mk outcome middle =>
    rw [hb] at hr
    cases outcome with
    | failed => cases hr
    | broken fault => cases hr
    | matched w =>
      simp only at hr ⊢
      obtain ⟨raw, ⟨-, -, hrest, hposition⟩, hm⟩ := traces_pattern .blanks hs hb
      rw [← hrest, Token.match?_blanks, Option.some.injEq, Regex.Way.mk.injEq] at hm
      have hplace : middle.place = start.place.skip := by
        obtain ⟨hlength, hafter⟩ := hm
        rw [← hlength] at hposition
        have hmiddle : middle.place = ⟨middle.place.position, middle.place.rest⟩ := rfl
        rw [hmiddle, hposition, ← hafter]
        rfl
      cases hbody : matcher.run (followExpression depth) middle with
      | mk outcome last =>
        rw [hbody] at hr
        cases outcome with
        | failed => cases hr
        | broken fault => cases hr
        | matched u =>
          cases hr
          rw [← hplace]
          exact h ((progress_expression hs hb).inSource hs) hbody

/-! ## Combinators -/

theorem traceEach_nil : TraceEach depth [] fun vs l a b => vs = [] ∧ l = [] ∧ b = a := by
  intro start next vs hs hr
  cases hr
  exact ⟨rfl, rfl, rfl⟩

theorem traceEach_cons (h : matcher.Traces depth P) (hs : TraceEach depth parts Q) :
    TraceEach depth (matcher :: parts) fun vs l a b =>
      ∃ v rest k m c, vs = v :: rest ∧ l = k ++ m ∧ P v k a c ∧ Q rest m c b := by
  intro start next vs hstart hr
  rw [runEach] at hr
  rw [lexemesEach]
  cases hv : matcher.run (followExpression depth) start with
  | mk outcome middle =>
    rw [hv] at hr
    cases outcome with
    | failed => cases hr
    | broken fault => cases hr
    | matched v =>
      simp only at hr ⊢
      have hm := (progress_expression hstart hv).inSource hstart
      cases hrest : runEach (followExpression depth) parts middle with
      | mk outcome last =>
        rw [hrest] at hr
        cases outcome with
        | failed => cases hr
        | broken fault => cases hr
        | matched rest =>
          cases hr
          exact ⟨v, rest, _, _, _, rfl, rfl, h hstart hv, hs hm hrest⟩

theorem traces_sequence (h : TraceEach depth parts Q) :
    (Matcher.sequence parts).Traces depth fun v l a b => ∃ vs, v = .ofList vs ∧ Q vs l a b := by
  intro start next v hs hr
  rw [run] at hr
  rw [lexemes]
  cases he : runEach (followExpression depth) parts start with
  | mk outcome last =>
    rw [he] at hr
    cases outcome with
    | failed => cases hr
    | broken fault => cases hr
    | matched vs =>
      cases hr
      exact ⟨vs, rfl, h hs he⟩

theorem traces_alternation {options : List Matcher}
    (h : ∀ option ∈ options, option.Traces depth P) :
    (Matcher.alternation options).Traces depth P := by
  intro start next v hs hr
  rw [run] at hr
  rw [lexemes]
  induction options generalizing start with
  | nil => cases hr
  | cons option options ih =>
    rw [runFirst] at hr
    rw [lexemesFirst]
    cases ho : option.run (followExpression depth) start with
    | mk outcome last =>
      rw [ho] at hr
      cases outcome with
      | failed =>
        simp only at hr ⊢
        rw [← Cursor.place_rewind start last]
        exact ih (fun o ho => h o (List.mem_cons_of_mem _ ho)) (Cursor.inSource_rewind hs) hr
      | broken fault => cases hr
      | matched u =>
        cases hr
        exact h option List.mem_cons_self hs ho

theorem traces_repetition (h : matcher.Traces depth P) (atLeast : Nat) :
    (Matcher.repetition atLeast matcher).Traces depth fun v l a b =>
      ∃ vs, v = .ofList vs ∧ TraceChain P vs l a b := by
  have hrepeat : ∀ (rounds : List Char) {start next : Cursor} {vs : List Value},
      start.InSource →
      repeatStep (run (followExpression depth) matcher) rounds start = (.matched vs, next) →
        TraceChain P vs (repeatLexemes (run (followExpression depth) matcher)
          (lexemes (followExpression depth) (lexemesExpression depth) matcher) rounds start)
          start.place next.place := by
    intro rounds
    induction rounds with
    | nil =>
      intro start next vs hs hr
      cases hr
      exact .nil
    | cons c rounds ih =>
      intro start next vs hs hr
      rw [repeatStep] at hr
      rw [repeatLexemes]
      split at hr
      · next hend =>
        cases hr
        rw [if_pos hend]
        exact .nil
      · next hend =>
        rw [if_neg hend]
        cases ho : matcher.run (followExpression depth) start with
        | mk outcome middle =>
          rw [ho] at hr
          cases outcome with
          | broken fault => cases hr
          | failed =>
            cases hr
            exact .nil
          | matched v =>
            have hp := h hs ho
            simp only at hr ⊢
            split at hr
            · next hsame =>
              cases hr
              rw [if_pos hsame, ← List.append_nil (lexemes _ _ _ _)]
              exact .cons hp .nil
            · next hmoved =>
              rw [if_neg hmoved]
              cases hrest : repeatStep (run (followExpression depth) matcher) rounds middle with
              | mk outcome last =>
                rw [hrest] at hr
                cases outcome with
                | failed => cases hr
                | broken fault => cases hr
                | matched rest =>
                  cases hr
                  exact .cons hp (ih ((progress_expression hs ho).inSource hs) hrest)
  intro start next v hs hr
  rw [run] at hr
  rw [lexemes]
  cases he : repeatStep (run (followExpression depth) matcher) start.ahead start with
  | mk outcome last =>
    rw [he] at hr
    cases outcome with
    | failed => cases hr
    | broken fault => cases hr
    | matched vs =>
      simp only at hr
      split at hr
      · cases hr
      · cases hr
        exact ⟨vs, rfl, hrepeat _ hs he⟩

theorem traces_optional (h : matcher.Traces depth P) :
    (Matcher.optional matcher).Traces depth fun v l a b =>
      (v = .absent ∧ l = [] ∧ b = a ∧ MayFail depth matcher) ∨ P v l a b := by
  intro start next v hs hr
  rw [run] at hr
  rw [lexemes]
  cases ho : matcher.run (followExpression depth) start with
  | mk outcome last =>
    rw [ho] at hr
    cases outcome with
    | failed =>
      cases hr
      exact .inl ⟨rfl, rfl, rfl, start, last, ho⟩
    | broken fault => cases hr
    | matched u =>
      cases hr
      exact .inr (h hs ho)

/-! ## Rules -/

/-- A rule is related to what it makes of what its matcher yields. -/
theorem traces_rule {kind : String} {onMatch : Option Transform}
    (hl : withOperators.rules.lookup kind =
      some { kind, rule := some matcher, onMatch, fallback := none })
    (hm : matcher.Traces depth P)
    (ht : ∀ {read result : Value} {l : List Lexeme} {a b : Place}, P read l a b →
      Descriptor.transformed { kind, rule := some matcher, onMatch, fallback := none } read =
        .ok (some result) →
      P' (Descriptor.settle kind ⟨a.position, b.position⟩ result) l a b) :
    (named kind).Traces (depth + 1) P' := by
  intro start next v hs hr
  rw [named, run, followExpression_succ hl] at hr
  obtain ⟨read, result, hread, hresult, rfl, hlexemes⟩ :=
    Descriptor.matched_of_run (lexemesExpression depth) hr
  rw [named, lexemes_reference, lexemesExpression_succ hl, hlexemes]
  exact ht (hm hs hread) hresult

end Matcher

end GatedExpr
