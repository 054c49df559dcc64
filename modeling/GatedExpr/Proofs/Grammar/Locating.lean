import GatedExpr.Proofs.Grammar.Accepting
import GatedExpr.Proofs.Grammar.Extents

/-! # Where the nodes of a parse stand

The nodes of an accepted source stand in it as their spans say: parts inside of what they are parts
of, one after the other, and leaves exactly where their texts are. Outside of the leaves there is
nothing but blanks, punctuation and operators.
-/

namespace GatedExpr

/-- The node is at the root of the tree or somewhere among its parts. -/
inductive Value.HasNode : Value → Node → Prop where

  | root {id : Identity} {node : Node} : HasNode (.node id node) node

  | part {id : Identity} {tree node : Node} {parts : List Value} {v : Value} :
      tree.parts? = some parts → v ∈ parts → HasNode v node → HasNode (.node id tree) node

/-- The spans of the nodes lie inside of the span, one after the other. -/
def Span.Holds (span : Span) (parts : List Value) : Prop :=
  ∃ spans : List Span, List.Forall₂ (fun v inner => v.matchedSpan = .ok inner) parts spans ∧
    (∀ inner ∈ spans, span.start ≤ inner.start ∧ inner.stop ≤ span.stop) ∧
    spans.Pairwise fun s t => s.stop ≤ t.start

namespace Node

/-- A literal or a name. -/
def IsLeaf (node : Node) : Prop :=
  node.kind = some "Literal" ∨ node.kind = some "Identifier"

/-- The node stands in the source as its span says. -/
structure Fits (source : List Char) (node : Node) (span : Span) : Prop where
  span_eq : node.span = some span
  inside : 0 ≤ span.start ∧ span.start ≤ span.stop ∧ span.stop ≤ source.length
  parts : ∀ parts, node.parts? = some parts → span.Holds parts
  raw : node.kind = some "Literal" →
    node.raw = some (String.ofList (Text.slice span.start span.stop source))
  name : node.kind = some "Identifier" →
    node.field? "name" = some (.text (String.ofList (Text.slice span.start span.stop source)))

/-- The node stands somewhere between two offsets, and if it is a leaf, it is one of the
lexemes. -/
structure StandsAmong (node : Node) (start stop : Int) (k : List Lexeme) (span : Span) : Prop where
  span_eq : node.span = some span
  inside : start ≤ span.start ∧ span.start ≤ span.stop ∧ span.stop ≤ stop
  parts : ∀ parts, node.parts? = some parts → span.Holds parts
  raw : node.kind = some "Literal" → ∃ raw, node.raw = some raw ∧ ⟨raw, span⟩ ∈ k
  name : node.kind = some "Identifier" →
    ∃ name, node.field? "name" = some (.text name) ∧ ⟨name, span⟩ ∈ k

theorem StandsAmong.mono {node : Node} {a b c d : Int} {k l : List Lexeme} {span : Span}
    (h : node.StandsAmong a b k span) (ha : c ≤ a) (hb : b ≤ d) (hk : k ⊆ l) :
    node.StandsAmong c d l span where
  span_eq := h.span_eq
  inside := ⟨Int.le_trans ha h.inside.1, h.inside.2.1, Int.le_trans h.inside.2.2 hb⟩
  parts := h.parts
  raw hkind := (h.raw hkind).imp fun _ => And.imp_right (@hk _)
  name hkind := (h.name hkind).imp fun _ => And.imp_right (@hk _)

end Node

namespace PlacedEach

variable {v : Value} {vs : List Value} {a b : Int} {k : List Lexeme}

theorem holds {span : Span} (h : PlacedEach vs span.start k span.stop) : span.Holds vs := by
  have hspans {vs : List Value} {a b : Int} {k : List Lexeme} (h : PlacedEach vs a k b) :
      ∃ spans : List Span, List.Forall₂ (fun v inner => v.matchedSpan = .ok inner) vs spans ∧
        (∀ inner ∈ spans, a ≤ inner.start ∧ inner.stop ≤ b) ∧
        spans.Pairwise fun s t => s.stop ≤ t.start := by
    induction vs generalizing a k with
    | nil => exact ⟨[], .nil, nofun, .nil⟩
    | cons v vs ih =>
      cases h with
      | @cons _ _ inner _ _ k l ha hv hs =>
        obtain ⟨spans, hall, hin, hpair⟩ := ih hs
        have hle := hv.start_le_stop
        have hle' := hs.start_le_stop
        refine ⟨inner :: spans, .cons hv.matchedSpan_eq hall,
          List.forall_mem_cons.mpr ⟨⟨ha, hle'⟩, fun s hm => ?_⟩,
          List.pairwise_cons.mpr ⟨fun s hm => (hin s hm).1, hpair⟩⟩
        have := hin s hm
        omega
  exact hspans h

/-- One of the nodes stands somewhere between the offsets. -/
theorem exists_placed (h : PlacedEach vs a k b) (hv : v ∈ vs) :
    ∃ span l, Placed v span l ∧ a ≤ span.start ∧ span.stop ≤ b ∧ l ⊆ k := by
  induction vs generalizing a k with
  | nil => cases hv
  | cons w vs ih =>
    cases h with
    | @cons _ _ inner _ _ m n ha hw hs =>
      have hle := hw.start_le_stop
      have hle' := hs.start_le_stop
      rcases List.mem_cons.mp hv with rfl | hv
      · exact ⟨inner, m, hw, ha, hle', List.subset_append_left _ _⟩
      · obtain ⟨span, l, hv, hstart, hstop, hl⟩ := ih hs hv
        exact ⟨span, l, hv, by omega, hstop, List.subset_append_of_subset_right _ hl⟩

end PlacedEach

theorem Node.parts?_make {kind : String} {span : Option Span} {fields : List (String × Value)}
    (hne : fields ≠ []) : (Node.make kind span fields).parts? = some (Value.partsOf fields) := by
  cases fields with
  | nil => exact absurd rfl hne
  | cons field fields => rfl

namespace Placed

variable {v : Value} {span : Span} {k : List Lexeme} {node : Node} {parts : List Value}

/-- The parts of a placed node are placed in its span. -/
theorem placedEach_parts {id : Identity} {tree : Node} (h : Placed (.node id tree) span k)
    (hp : tree.parts? = some parts) : ∃ l ⊆ k, PlacedEach parts span.start l span.stop := by
  generalize hv : Value.node id tree = v at h
  cases h with
  | literal hle hvalue =>
    cases hv
    obtain rfl : parts = [] := by
      simpa [Node.parts?, hvalue, eq_comm] using hp
    exact ⟨[], List.nil_subset _, .nil hle⟩
  | identifier hle =>
    cases hv
    obtain rfl : parts = [] := by
      simpa [Node.parts?, Node.make, eq_comm] using hp
    exact ⟨[], List.nil_subset _, .nil hle⟩
  | @branch _ _ fields _ _ hs =>
    cases hv
    cases fields with
    | nil => cases hp
    | cons field fields =>
      cases hp
      exact ⟨k, List.Subset.refl k, hs⟩

theorem standsAmong_root {id : Identity} (h : Placed (.node id node) span k) :
    node.StandsAmong span.start span.stop k span := by
  have hle := h.start_le_stop
  have hparts (parts : List Value) (hp : node.parts? = some parts) : span.Holds parts := by
    obtain ⟨l, -, hs⟩ := h.placedEach_parts hp
    exact hs.holds
  generalize hv : Value.node id node = v at h
  cases h with
  | literal _ _ =>
    cases hv
    exact ⟨rfl, ⟨Int.le_refl _, hle, Int.le_refl _⟩, hparts,
      fun _ => ⟨_, rfl, List.mem_singleton_self _⟩,
      fun hk => absurd (Option.some.inj hk) (by decide)⟩
  | identifier _ =>
    cases hv
    exact ⟨rfl, ⟨Int.le_refl _, hle, Int.le_refl _⟩, hparts,
      fun hk => absurd (Option.some.inj hk) (by decide),
      fun _ => ⟨_, rfl, List.mem_singleton_self _⟩⟩
  | branch hkind _ =>
    cases hv
    exact ⟨rfl, ⟨Int.le_refl _, hle, Int.le_refl _⟩, hparts,
      fun hk => absurd (Option.some.inj hk) hkind.1, fun hk => absurd (Option.some.inj hk) hkind.2⟩

/-- Every node of a placed tree stands inside of it. -/
theorem standsAmong (h : Placed v span k) (hn : v.HasNode node) :
    ∃ inner, node.StandsAmong span.start span.stop k inner := by
  induction hn generalizing span k with
  | root => exact ⟨span, h.standsAmong_root⟩
  | part hparts hv _ ih =>
    obtain ⟨l, hl, hs⟩ := h.placedEach_parts hparts
    obtain ⟨middle, m, hw, hstart, hstop, hm⟩ := hs.exists_placed hv
    obtain ⟨inner, hinner⟩ := ih hw
    exact ⟨inner, hinner.mono hstart hstop (List.Subset.trans hm hl)⟩

end Placed

/-! ## Leaves -/

mutual

/-- Each of the lexemes is a leaf of the tree. -/
theorem Placed.exists_leaf {v : Value} {span : Span} {k : List Lexeme} {lexeme : Lexeme} :
    Placed v span k → lexeme ∈ k →
      ∃ node, v.HasNode node ∧ node.IsLeaf ∧ node.span = some lexeme.span
  | .literal _ _, hm => by
    obtain rfl := List.mem_singleton.mp hm
    exact ⟨_, .root, .inl rfl, rfl⟩
  | .identifier _, hm => by
    obtain rfl := List.mem_singleton.mp hm
    exact ⟨_, .root, .inr rfl, rfl⟩
  | @Placed.branch _ _ fields _ _ hs, hm => by
    obtain ⟨v, hv, node, hn, hleaf⟩ := hs.exists_leaf hm
    have hne (hnil : fields = []) : False := by
      rw [hnil] at hv
      cases hv
    exact ⟨node, .part (Node.parts?_make hne) hv hn, hleaf⟩

theorem PlacedEach.exists_leaf {vs : List Value} {a b : Int} {k : List Lexeme} {lexeme : Lexeme} :
    PlacedEach vs a k b → lexeme ∈ k →
      ∃ v ∈ vs, ∃ node, v.HasNode node ∧ node.IsLeaf ∧ node.span = some lexeme.span
  | .nil _, hm => by cases hm
  | .cons _ hv hs, hm => by
    rcases List.mem_append.mp hm with hm | hm
    · exact ⟨_, List.mem_cons_self, hv.exists_leaf hm⟩
    · obtain ⟨w, hw, hleaf⟩ := hs.exists_leaf hm
      exact ⟨w, List.mem_cons_of_mem _ hw, hleaf⟩

end

namespace Family

variable {source : List Char} {tree : Value}

/-- Every node of an accepted source stands in it as its span says, and every character outside of
the leaves is a blank or belongs to punctuation or operators. -/
theorem fits_of_parse (h : expression.parse 0 source Grammar.rootKind = .ok tree) :
    (∀ node, tree.HasNode node → ∃ span, node.Fits source span) ∧
      ∀ (offset : Nat) (c : Char), source[offset]? = some c → Token.isMark c = true ∨
        ∃ node span, tree.HasNode node ∧ node.IsLeaf ∧ node.span = some span ∧
          span.start ≤ offset ∧ offset < span.stop := by
  obtain ⟨-, place, -, -, hl, hr⟩ := written_of_parse h
  have hrule : ExpressionGrammar.withOperators.rules.lookup Grammar.rootKind = some rootRule := rfl
  obtain ⟨cursor, hrun, -⟩ := run_of_parse hrule h
  obtain ⟨k, hk, hsub, hmarks⟩ :=
    (Matcher.placing (nestingLimit + 1)).expression (Cursor.inSource_start source) hrun
  rw [← lexemes_expression] at hsub hmarks
  obtain ⟨span, hplaced, hstart, hstop⟩ := hk.of_single
  have hsource := Cursor.inSource_start source
  have hposition : 0 + (source.length : Int) = cursor.place.position + cursor.place.rest.length :=
    (progress_expression hsource hrun).position_eq hsource
  refine ⟨fun node hn => ?_, fun offset c hc => ?_⟩
  · obtain ⟨inner, hinner⟩ := hplaced.standsAmong hn
    have hslice {text : String} (hm : ⟨text, inner⟩ ∈ k) :
        text = String.ofList (Text.slice inner.start inner.stop source) := by
      have hbefore : source = [] ++ source := rfl
      rw [hl.slice_eq hbefore rfl _ (hsub hm), String.ofList_toList]
    refine ⟨inner, hinner.span_eq, ?_, hinner.parts, fun hkind => ?_, fun hkind => ?_⟩
    · have hinside := hinner.inside
      change 0 ≤ span.start at hstart
      omega
    · obtain ⟨raw, hraw, hm⟩ := hinner.raw hkind
      rw [hraw, ← hslice hm]
    · obtain ⟨name, hname, hm⟩ := hinner.name hkind
      rw [hname, ← hslice hm]
  · rcases hl.covers hc with hb | hb | ⟨lexeme, hm, hin, hlow, hhigh⟩
    · exact .inl (by rw [Token.isMark, hb, Bool.true_or])
    · exact .inl (by rw [Token.isMark, hr c hb, Bool.true_or])
    · simp only [zero_add] at hlow hhigh
      refine (hmarks lexeme hm).symm.imp (fun h => h c hin) fun hleaf => ?_
      obtain ⟨node, hn, hnode, hspan⟩ := hplaced.exists_leaf hleaf
      exact ⟨node, lexeme.span, hn, hnode, hspan, hlow, hhigh⟩

/-- The nodes of a sum with parentheses around one of its operands. -/
theorem fits_of_parse_sum : ∃ tree,
    expression.parse 0 "( a ) + b.c".toList Grammar.rootKind = .ok tree ∧
      (∀ node, tree.HasNode node → ∃ span, node.Fits "( a ) + b.c".toList span) ∧
      ∀ (offset : Nat) (c : Char), "( a ) + b.c".toList[offset]? = some c →
        Token.isMark c = true ∨
          ∃ node span, tree.HasNode node ∧ node.IsLeaf ∧ node.span = some span ∧
            span.start ≤ offset ∧ offset < span.stop := by
  obtain ⟨tree, h⟩ : ∃ tree,
      expression.parse 0 "( a ) + b.c".toList Grammar.rootKind = .ok tree :=
    exists_tree_of_isOk (by decide +kernel)
  have hfits := fits_of_parse h
  exact ⟨tree, h, hfits⟩

end Family

end GatedExpr
