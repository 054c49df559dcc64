import GatedExpr.Proofs.Expr.Positions
import GatedExpr.Proofs.Grammar.Layout
import GatedExpr.Proofs.Grammar.RoundBrackets

/-! # Slices of a run

The span of a node reaches from the beginning of one lexeme to the end of another. What it leaves
out of the lexemes that were read for the node are round brackets: opening ones before it and
closing ones after it. What is in between writes the node again, or has lost a bracket.
-/

namespace GatedExpr

namespace Lexeme

/-- Where the first lexeme begins. -/
def start? (l : List Lexeme) : Option Int :=
  l.head?.map (·.span.start)

/-- Where the last lexeme ends. -/
def stop? (l : List Lexeme) : Option Int :=
  l.getLast?.map (·.span.stop)

variable {l m : List Lexeme} {s t : Int}

theorem start?_append (h : start? l = some s) (m : List Lexeme) : start? (l ++ m) = some s := by
  obtain ⟨lexeme, hl, rfl⟩ := Option.map_eq_some_iff.mp h
  rw [start?, List.head?_append, hl]
  rfl

theorem stop?_append (h : stop? m = some t) (l : List Lexeme) : stop? (l ++ m) = some t := by
  obtain ⟨lexeme, hm, rfl⟩ := Option.map_eq_some_iff.mp h
  rw [stop?, List.getLast?_append, hm]
  rfl

end Lexeme

open Lexeme Token

/-- A run of lexemes ends where the last of them does. -/
theorem Laid.stop?_eq {a b : Place} {l : List Lexeme} (h : Laid a l b) (hne : l ≠ []) :
    stop? l = some b.position := by
  induction h with
  | done => exact absurd rfl hne
  | @lexeme _ _ _ _ lexemes _ _ _ h ih =>
    cases lexemes with
    | nil =>
      cases h
      rfl
    | cons next lexemes => exact stop?_append (ih (List.cons_ne_nil next lexemes)) [_]

namespace Lexeme

/-- The texts of lexemes. -/
abbrev textsOf (l : List Lexeme) : List String :=
  l.map (·.text)

/-- The span of the node reaches from the first to the last of the lexemes. -/
def Reaches (l : List Lexeme) (v : Value) : Prop :=
  ∃ s t, start? l = some s ∧ stop? l = some t ∧ v.matchedSpan = .ok ⟨s, t⟩

/-- Some of the lexemes are those between the ends of the node. They write what it shows, unless
they have lost a bracket. -/
def Slices (depth : Nat) (l : List Lexeme) (v : Value) : Prop :=
  ∃ e m, m <:+: l ∧ Reaches m v ∧ Depicts .value v e ∧
    (Written depth (.item .value e) (textsOf m) ∨ ¬ Balanced (textsOf m))

/-- So it is with every expression in the value. -/
def Sliced (depth : Nat) (l : List Lexeme) (v : Value) : Prop :=
  ∀ w ∈ v.expressions, Slices depth l w

/-- Nothing but opening brackets stands before the offset. -/
def OpensAt (l : List Lexeme) (s : Int) : Prop :=
  ∃ opens m, l = opens ++ m ∧ (∀ lexeme ∈ opens, lexeme.text = "(") ∧ start? m = some s

/-- Nothing but closing brackets stands after the offset. -/
def ClosesAt (l : List Lexeme) (t : Int) : Prop :=
  ∃ m closes, l = m ++ closes ∧ (∀ lexeme ∈ closes, lexeme.text = ")") ∧ stop? m = some t

/-- The lexemes were read for the node: they reach from one end of it to the other, brackets
aside, and slices of them are what stands between the ends of the expressions in it. -/
structure Cuts (depth : Nat) (l : List Lexeme) (v : Value) : Prop where
  edges : ∃ span, v.matchedSpan = .ok span ∧ OpensAt l span.start ∧ ClosesAt l span.stop
  slices : Sliced depth l v

/-- The same of a node that no brackets stand around, where the node itself is yet to be
considered. -/
structure Encloses (depth : Nat) (l : List Lexeme) (v : Value) : Prop where
  bounds : Reaches l v
  slices : ∀ w ∈ v.expressions, w = v ∨ Slices depth l w

variable {depth n : Nat} {l k m l₁ l₂ : List Lexeme} {v w : Value} {e : Expr} {s t : Int}

/-! ## More lexemes -/

theorem Slices.mono (h : Slices depth m v) (hl : m <:+: l) (hn : depth ≤ n) : Slices n l v := by
  obtain ⟨e, k, hk, hb, hd, hw⟩ := h
  exact ⟨e, k, hk.trans hl, hb, hd, hw.imp_left (·.mono hn)⟩

theorem Sliced.mono (h : Sliced depth m v) (hl : m <:+: l) (hn : depth ≤ n) : Sliced n l v :=
  fun w hw => (h w hw).mono hl hn

theorem Sliced.append_right (h : Sliced depth l v) (m : List Lexeme) : Sliced depth (l ++ m) v :=
  h.mono (List.prefix_append l m).isInfix (Nat.le_refl depth)

theorem Sliced.append_left (h : Sliced depth m v) (l : List Lexeme) : Sliced depth (l ++ m) v :=
  h.mono (List.suffix_append l m).isInfix (Nat.le_refl depth)

/-- More lexemes on either side change nothing. -/
theorem Sliced.append_both (h : Sliced depth l v) (k m : List Lexeme) :
    Sliced depth (k ++ (l ++ m)) v :=
  (h.append_right m).append_left k

theorem Sliced.mono_depth (h : Sliced depth l v) (hn : depth ≤ n) : Sliced n l v :=
  h.mono List.infix_rfl hn

theorem sliced_ofList {items : List Value} :
    Sliced depth l (.ofList items) ↔ ∀ v ∈ items, Sliced depth l v := by
  simp only [Sliced, Value.expressions_ofList, List.mem_flatMap]
  constructor
  · intro h v hv w hw
    exact h w ⟨v, hv, hw⟩
  · rintro h w ⟨v, hv, hw⟩
    exact h v hv w hw

theorem opensAt_of_start? (h : start? l = some s) : OpensAt l s :=
  ⟨[], l, rfl, List.forall_mem_nil _, h⟩

theorem closesAt_of_stop? (h : stop? l = some t) : ClosesAt l t :=
  ⟨l, [], (List.append_nil l).symm, List.forall_mem_nil _, h⟩

theorem OpensAt.append (h : OpensAt l s) (m : List Lexeme) : OpensAt (l ++ m) s := by
  obtain ⟨opens, k, rfl, ho, hk⟩ := h
  exact ⟨opens, k ++ m, List.append_assoc .., ho, start?_append hk m⟩

theorem ClosesAt.append (h : ClosesAt m t) (l : List Lexeme) : ClosesAt (l ++ m) t := by
  obtain ⟨k, closes, rfl, hc, hk⟩ := h
  exact ⟨l ++ k, closes, (List.append_assoc ..).symm, hc, stop?_append hk l⟩

theorem Cuts.mono (h : Cuts depth l v) (hn : depth ≤ n) : Cuts n l v :=
  ⟨h.edges, h.slices.mono_depth hn⟩

/-! ## Brackets around a node -/

/-- Lexemes may have lost brackets that they had where they were read. -/
theorem Cuts.enclosed {opening closing : Lexeme} (h : Cuts depth l v) (ho : opening.text = "(")
    (hc : closing.text = ")") : Cuts depth (opening :: (l ++ [closing])) v := by
  obtain ⟨span, hspan, ⟨opens, m, hm, hopens, hstart⟩, ⟨k, closes, hk, hcloses, hstop⟩⟩ := h.edges
  refine ⟨⟨span, hspan, ⟨opening :: opens, m ++ [closing], ?_, ?_, start?_append hstart _⟩,
    ⟨opening :: k, closes ++ [closing], ?_, ?_, stop?_append hstop [opening]⟩⟩,
    h.slices.append_both [opening] _⟩
  · rw [hm]
    simp
  · exact List.forall_mem_cons.mpr ⟨ho, hopens⟩
  · rw [hk]
    simp
  · exact List.forall_mem_append.mpr ⟨hcloses, List.forall_mem_singleton.mpr hc⟩

/-! ## Nodes between two others -/

/-- What reaches from one end to another writes the node, unless brackets before or after it have
been cut off: then it lacks them. -/
theorem slices_between (hs : OpensAt l₁ s) (ht : ClosesAt l₂ t) (hv : v.matchedSpan = .ok ⟨s, t⟩)
    (h₁ : Balanced (textsOf l₁)) (hk : Balanced (textsOf k)) (h₂ : Balanced (textsOf l₂))
    (hd : Depicts .value v e)
    (hw : Written depth (.item .value e) (textsOf (l₁ ++ (k ++ l₂)))) :
    Slices depth (l₁ ++ (k ++ l₂)) v := by
  obtain ⟨opens, m₁, rfl, ho, hstart⟩ := hs
  obtain ⟨m₂, closes, rfl, hc, hstop⟩ := ht
  refine ⟨e, m₁ ++ (k ++ m₂), ⟨opens, closes, by simp⟩,
    ⟨s, t, start?_append hstart _, ?_, hv⟩, hd, ?_⟩
  · rw [← List.append_assoc]
    exact stop?_append hstop _
  · simp only [textsOf, List.map_append] at h₁ hk h₂ hw ⊢
    by_cases hopens : opens = []
    · by_cases hcloses : closes = []
      · left
        subst hopens hcloses
        simpa using hw
      · right
        subst hopens
        rw [← List.append_assoc]
        refine (h₁.append hk).not_of_closes h₂ ?_ ?_
        · simpa using hc
        · simpa using hcloses
    · right
      refine h₁.not_of_opens ?_ ?_ _
      · simpa using ho
      · simpa using hopens

theorem cuts_between (hs : OpensAt l₁ s) (ht : ClosesAt l₂ t) (hv : v.matchedSpan = .ok ⟨s, t⟩)
    (h₁ : Balanced (textsOf l₁)) (hk : Balanced (textsOf k)) (h₂ : Balanced (textsOf l₂))
    (hd : Depicts .value v e) (hw : Written depth (.item .value e) (textsOf (l₁ ++ (k ++ l₂))))
    (h : ∀ w ∈ v.expressions, w = v ∨ Slices depth (l₁ ++ (k ++ l₂)) w) :
    Cuts depth (l₁ ++ (k ++ l₂)) v := by
  refine ⟨⟨⟨s, t⟩, hv, hs.append _, ?_⟩, fun w hm => ?_⟩
  · rw [← List.append_assoc]
    exact ht.append _
  · rcases h w hm with rfl | h
    · exact slices_between hs ht hv h₁ hk h₂ hd hw
    · exact h

/-- A node that no brackets stand around is written by all of its lexemes. -/
theorem Encloses.cuts (h : Encloses depth l v) (hd : Depicts .value v e)
    (hw : Written depth (.item .value e) (textsOf l)) : Cuts depth l v := by
  obtain ⟨s, t, hs, ht, hv⟩ := h.bounds
  refine ⟨⟨⟨s, t⟩, hv, opensAt_of_start? hs, closesAt_of_stop? ht⟩, fun w hm => ?_⟩
  rcases h.slices w hm with rfl | h
  · exact ⟨e, l, List.infix_rfl, ⟨s, t, hs, ht, hv⟩, hd, .inl hw⟩
  · exact h

end Lexeme

end GatedExpr
