import GatedExpr.Proofs.Grammar.Layout
import GatedExpr.Proofs.Grammar.Transforms

/-! # Where nodes stand

A tree is placed if the span of every node in it holds the spans of its parts, one after the other,
and if its leaves are lexemes of the source. What the grammar makes of placed trees is placed.
-/

namespace GatedExpr

open ExpressionGrammar

namespace Value

/-- The values that are the parts of a node with these fields. -/
def partsOf (fields : List (String × Value)) : List Value :=
  fields.flatMap fun field => Node.directNodes field.2

end Value

namespace Node

@[simp] theorem directNodes_text (s : String) : directNodes (.text s) = [] :=
  rfl

@[simp] theorem directNodes_bool (b : Bool) : directNodes (.bool b) = [] :=
  rfl

end Node

mutual

/-- `Placed v span leaves`: the node `v` has that span, and its leaves are those lexemes. -/
inductive Placed : Value → Span → List Lexeme → Prop where

  | literal {span : Span} {raw : String} {value : Value} : span.start ≤ span.stop →
      Node.directNodes value = [] → Placed (.literal span raw value) span [⟨raw, span⟩]

  | identifier {span : Span} {name : String} : span.start ≤ span.stop →
      Placed (.identifier span name) span [⟨name, span⟩]

  | branch {kind : String} {span : Span} {fields : List (String × Value)} {leaves : List Lexeme} :
      kind ≠ "Literal" ∧ kind ≠ "Identifier" →
      PlacedEach (Value.partsOf fields) span.start leaves span.stop →
      Placed (.branch kind span fields) span leaves

/-- `PlacedEach vs start leaves stop`: the nodes stand one after the other between two offsets. -/
inductive PlacedEach : List Value → Int → List Lexeme → Int → Prop where

  | nil {start stop : Int} : start ≤ stop → PlacedEach [] start [] stop

  | cons {v : Value} {vs : List Value} {span : Span} {start stop : Int} {k l : List Lexeme} :
      start ≤ span.start → Placed v span k → PlacedEach vs span.stop l stop →
      PlacedEach (v :: vs) start (k ++ l) stop

end

mutual

theorem Placed.start_le_stop {v : Value} {span : Span} {k : List Lexeme} :
    Placed v span k → span.start ≤ span.stop
  | .literal h _ => h
  | .identifier h => h
  | .branch _ h => h.start_le_stop

theorem PlacedEach.start_le_stop {vs : List Value} {a b : Int} {k : List Lexeme} :
    PlacedEach vs a k b → a ≤ b
  | .nil h => h
  | .cons h hv hs => Int.le_trans h (Int.le_trans hv.start_le_stop hs.start_le_stop)

end

namespace Placed

variable {v : Value} {span : Span} {k : List Lexeme}

theorem isNode (h : Placed v span k) : v.node?.isSome = true := by
  cases h <;> rfl

theorem directNodes_eq (h : Placed v span k) : Node.directNodes v = [v] := by
  cases h <;> rfl

theorem matchedSpan_eq (h : Placed v span k) : v.matchedSpan = .ok span := by
  cases h <;> rfl

/-- A placed tree keeps its kind and its span. -/
theorem settle_eq (h : Placed v span k) (kind : String) (other : Span) :
    Descriptor.settle kind other v = v := by
  cases h <;> rfl

end Placed

namespace PlacedEach

variable {v w : Value} {vs ws : List Value} {a b c d : Int} {k l m : List Lexeme} {span : Span}

theorem mono (h : PlacedEach vs a k b) (ha : c ≤ a) (hb : b ≤ d) : PlacedEach vs c k d := by
  induction vs generalizing a c k with
  | nil =>
    cases h with
    | nil h => exact .nil (by omega)
  | cons v vs ih =>
    cases h with
    | cons h hv hs => exact .cons (Int.le_trans ha h) hv (ih hs (Int.le_refl _))

theorem append (h : PlacedEach vs a k b) (h' : PlacedEach ws b l c) :
    PlacedEach (vs ++ ws) a (k ++ l) c := by
  induction vs generalizing a k with
  | nil =>
    cases h with
    | nil h => exact h'.mono h (Int.le_refl _)
  | cons v vs ih =>
    cases h with
    | cons h hv hs =>
      rw [List.append_assoc]
      exact .cons h hv (ih hs)

theorem of_append (h : PlacedEach (vs ++ ws) a m c) :
    ∃ k l b, m = k ++ l ∧ PlacedEach vs a k b ∧ PlacedEach ws b l c := by
  induction vs generalizing a m with
  | nil => exact ⟨[], m, a, rfl, .nil (Int.le_refl a), h⟩
  | cons v vs ih =>
    cases h with
    | cons h hv hs =>
      obtain ⟨k, l, b, rfl, hk, hl⟩ := ih hs
      exact ⟨_, l, b, (List.append_assoc _ _ _).symm, .cons h hv hk, hl⟩

theorem single (h : Placed v span k) (ha : a ≤ span.start) (hb : span.stop ≤ b) :
    PlacedEach [v] a k b := by
  rw [← List.append_nil k]
  exact .cons ha h (.nil hb)

theorem of_single (h : PlacedEach [v] a k b) :
    ∃ span, Placed v span k ∧ a ≤ span.start ∧ span.stop ≤ b := by
  cases h with
  | cons h hv hs =>
    cases hs with
    | nil hb =>
      rw [List.append_nil]
      exact ⟨_, hv, h, hb⟩

theorem placed_of_mem (h : PlacedEach vs a k b) : ∀ v ∈ vs, ∃ span l, Placed v span l := by
  induction vs generalizing a k with
  | nil => exact nofun
  | cons v vs ih =>
    cases h with
    | cons _ hv hs => exact List.forall_mem_cons.mpr ⟨⟨_, _, hv⟩, ih hs⟩

theorem directNodes_of_mem (h : PlacedEach vs a k b) (hv : v ∈ vs) :
    Node.directNodes v = [v] := by
  obtain ⟨span, l, hp⟩ := h.placed_of_mem v hv
  exact hp.directNodes_eq

end PlacedEach

/-! ## What the grammar makes of placed trees -/

namespace PlacedEach

variable {u v w : Value} {vs : List Value} {a b c : Int} {k l m : List Lexeme}

/-- A node around the last of the trees, which takes the span from the first to the last of its
parts. -/
theorem branch {kind : String} {fields : List (String × Value)} {span : Span}
    (hk : kind ≠ "Literal" ∧ kind ≠ "Identifier")
    (h : PlacedEach (Value.partsOf fields) span.start k span.stop) (ha : a ≤ span.start)
    (hb : span.stop ≤ b) : PlacedEach [.branch kind span fields] a k b :=
  single (.branch hk h) ha hb

/-- The span from the first of the trees to the last of them holds all of them. -/
theorem spanning (vs : List Value) (h : PlacedEach (v :: (vs ++ [w])) a k b) :
    ∃ span, v.spanning w = .ok span ∧ a ≤ span.start ∧ span.stop ≤ b ∧
      PlacedEach (v :: (vs ++ [w])) span.start k span.stop := by
  cases h with
  | @cons _ _ s _ _ k l ha hv hs =>
    obtain ⟨m, n, c, rfl, hm, hn⟩ := hs.of_append
    obtain ⟨t, hw, hst, hb⟩ := hn.of_single
    have hfirst : s.start ≤ s.start := Int.le_refl _
    have hlast : PlacedEach [w] c n t.stop := single hw hst (Int.le_refl _)
    refine ⟨⟨s.start, t.stop⟩, ?_, ha, hb, .cons hfirst hv (hm.append hlast)⟩
    simp only [Value.spanning, hv.matchedSpan_eq, hw.matchedSpan_eq]
    rfl

end PlacedEach

namespace Precedence

variable {vs : List Value} {a b : Int} {k : List Lexeme}

/-- The operands that wait, from left to right, and the current one. -/
def inOrder (stack : List Pending) (current : Value) : List Value :=
  (stack.map (·.left)).reverse ++ [current]

theorem inOrder_cons (pending : Pending) (stack : List Pending) (current : Value) :
    inOrder (pending :: stack) current =
      (stack.map (·.left)).reverse ++ [pending.left, current] := by
  simp [inOrder]

theorem placed_join {pending : Pending} {stack : List Pending} {right v : Value}
    (h : PlacedEach (inOrder (pending :: stack) right) a k b) (hj : join pending right = .ok v) :
    PlacedEach (inOrder stack v) a k b := by
  rw [inOrder_cons] at h
  obtain ⟨l, m, c, rfl, hl, hm⟩ := h.of_append
  obtain ⟨span, hspan, hstart, hstop, hparts⟩ := hm.spanning []
  simp only [join, hspan] at hj
  cases hj
  have hfields : Value.partsOf [("operator", .text pending.operator), ("left", pending.left),
      ("right", right)] = [pending.left, right] := by
    simp [Value.partsOf, hm.directNodes_of_mem]
  exact hl.append (.branch (by decide) (hfields ▸ hparts) hstart hstop)

theorem placed_collapse (level : Nat) {stack rest : List Pending} {current v : Value}
    (h : PlacedEach (inOrder stack current) a k b)
    (hc : collapse level stack current = .ok (rest, v)) : PlacedEach (inOrder rest v) a k b := by
  induction stack generalizing current with
  | nil =>
    cases hc
    exact h
  | cons pending stack ih =>
    rw [collapse] at hc
    split at hc
    · cases hj : join pending current with
      | error fault =>
        rw [hj] at hc
        cases hc
      | ok joined =>
        rw [hj] at hc
        exact ih (placed_join h hj) hc
    · cases hc
      exact h

theorem collapse_zero {stack rest : List Pending} {current v : Value}
    (hc : collapse 0 stack current = .ok (rest, v)) : rest = [] := by
  induction stack generalizing current with
  | nil =>
    cases hc
    rfl
  | cons pending stack ih =>
    rw [collapse, if_pos (Nat.zero_le _)] at hc
    cases hj : join pending current with
    | error fault =>
      rw [hj] at hc
      cases hc
    | ok joined =>
      rw [hj] at hc
      exact ih hc

theorem placed_foldFrom {operations : List (String × Value)} {stack : List Pending}
    {current v : Value} (h : PlacedEach (inOrder stack current ++ operations.map (·.2)) a k b)
    (hf : foldFrom stack current operations = .ok v) : PlacedEach [v] a k b := by
  induction operations generalizing stack current with
  | nil =>
    rw [List.map_nil, List.append_nil] at h
    rw [foldFrom] at hf
    cases hc : collapse 0 stack current with
    | error fault =>
      rw [hc] at hf
      cases hf
    | ok result =>
      obtain ⟨rest, joined⟩ := result
      rw [hc] at hf
      cases hf
      cases collapse_zero hc
      exact placed_collapse 0 h hc
  | cons operation operations ih =>
    obtain ⟨operator, right⟩ := operation
    rw [foldFrom] at hf
    split at hf
    · cases hf
    · next level _ =>
      cases hc : collapse level stack current with
      | error fault =>
        rw [hc] at hf
        cases hf
      | ok result =>
        obtain ⟨rest, left⟩ := result
        rw [hc] at hf
        obtain ⟨l, m, c, rfl, hl, hm⟩ := h.of_append
        refine ih ?_ hf
        rw [inOrder_cons]
        have hnext := (placed_collapse level hl hc).append hm
        simpa [inOrder] using hnext

/-- Folding placed operands puts one placed tree in their place. -/
theorem placed_fold {first v : Value} {operations : List (String × Value)}
    (h : PlacedEach (first :: operations.map (·.2)) a k b) (hf : fold first operations = .ok v) :
    PlacedEach [v] a k b := by
  have hstart : PlacedEach (inOrder [] first ++ operations.map (·.2)) a k b := h
  exact placed_foldFrom hstart hf

end Precedence

/-- The node of a suffix: what it holds stands between two offsets, the second of which is its
end. -/
inductive PlacedSuffix : Value → Int → List Lexeme → Int → Prop where

  | property {kind : String} {span : Span} {v : Value} {a : Int} {k : List Lexeme} :
      kind = "DotSuffix" ∨ kind = "IndexSuffix" → PlacedEach [v] a k span.stop →
      PlacedSuffix (.branch kind span [("property", v)]) a k span.stop

  | arguments {span : Span} {items : List Value} {a : Int} {k : List Lexeme} :
      PlacedEach (Node.directNodes (.ofList items)) a k span.stop →
      PlacedSuffix (.branch "Arguments" span [("arguments", .ofList items)]) a k span.stop

namespace ExpressionGrammar

variable {v w : Value} {a b c : Int} {k l : List Lexeme}

theorem placed_applySuffix (h : PlacedEach [v] a k b) (hw : PlacedSuffix w b l c) {u : Value}
    (hu : applySuffix v w = .ok u) : PlacedEach [u] a (k ++ l) c := by
  obtain ⟨span, hv, ha, hb⟩ := h.of_single
  have hbase : PlacedEach [v] span.start k b := .single hv (Int.le_refl _) hb
  cases hw with
  | @property kind last held _ _ hkind hheld =>
    have hresult : applySuffix v (.branch kind last [("property", held)]) =
        .ok (.branch "MemberExpression" ⟨span.start, last.stop⟩
          [("object", v), ("property", held), ("computed", .bool (kind == "IndexSuffix"))]) := by
      simp only [applySuffix, Value.spanning, hv.matchedSpan_eq]
      rcases hkind with rfl | rfl <;> rfl
    cases hresult.symm.trans hu
    have hparts := hbase.append hheld
    refine .branch (by decide) ?_ ha (Int.le_refl _)
    simpa [Value.partsOf, hv.directNodes_eq, hheld.directNodes_of_mem] using hparts
  | @arguments last items _ _ hitems =>
    have hresult : applySuffix v (.branch "Arguments" last [("arguments", .ofList items)]) =
        .ok (.branch "CallExpression" ⟨span.start, last.stop⟩
          [("callee", v), ("arguments", .ofList items)]) := by
      simp only [applySuffix, Value.spanning, hv.matchedSpan_eq]
      rfl
    cases hresult.symm.trans hu
    have hparts := hbase.append hitems
    refine .branch (by decide) ?_ ha (Int.le_refl _)
    simpa [Value.partsOf, hv.directNodes_eq] using hparts

/-- Holes are no nodes, and neither is what is missing after the last comma. -/
theorem filter_elementsOf {first : Value} {pairs items : List Value} (h : Pairs pairs items) :
    (elementsOf first pairs).filter (·.node?.isSome) =
      (first :: items).filter (·.node?.isSome) := by
  have hmap (vs : List Value) :
      (vs.map fun v => if v.isAbsent then .null else v).filter (·.node?.isSome) =
        vs.filter (·.node?.isSome) := by
    induction vs with
    | nil => rfl
    | cons v vs ih =>
      rw [List.map_cons, List.filter_cons, List.filter_cons, ih]
      cases v <;> rfl
  unfold elementsOf
  rw [seconds_pairs h]
  simp only [hmap]
  split
  · next habsent =>
    rw [Option.any_eq_true] at habsent
    obtain ⟨last, hlast, habsent⟩ := habsent
    have hnone : last.node?.isSome = false := by
      cases last <;> first | rfl | cases habsent
    conv_rhs => rw [← List.dropLast_append_getLast? last hlast]
    simp [hnone]
  · rfl

end ExpressionGrammar

end GatedExpr
