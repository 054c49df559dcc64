import GatedExpr.Proofs.Expr.Readable
import GatedExpr.Proofs.Grammar.Threads

/-! # Leaves kept apart

The leaves of an expression are threaded through its text in one way only, so where they can be
threaded such that no integer stands before a point, the expression reads no member by name off
an integer.
-/

namespace GatedExpr

open Token

/-- There is one way to find a leaf behind marks. -/
theorem Solid.unique {leaf : String} (h : Solid leaf) {marks others s t : List Char}
    (hm : Marks marks) (ho : Marks others)
    (he : marks ++ (leaf.toList ++ s) = others ++ (leaf.toList ++ t)) : s = t := by
  have hstart (rest : List Char) :
      (leaf.toList ++ rest).takeWhile isMark = leaf.toList.takeWhile isMark := by
    obtain ⟨c, hc, hmark⟩ := h
    rw [List.takeWhile_append, if_neg]
    intro hl
    have hall := List.takeWhile_eq_self_iff.mp ((List.takeWhile_prefix isMark).eq_of_length hl)
    rw [hall c hc] at hmark
    cases hmark
  have htake := congrArg (List.takeWhile isMark) he
  rw [List.takeWhile_append_of_pos hm, List.takeWhile_append_of_pos ho, hstart, hstart,
    List.append_cancel_right_eq] at htake
  rw [htake] at he
  exact List.append_cancel_left (List.append_cancel_left he)

/-- Leaves that are kept apart after marks and a text of their own tell that `P`, and further
leaves are kept apart in what follows. -/
def Peels (leaves : List String) (text : List Char) (P : Prop) : Prop :=
  ∀ ⦃marks r : List Char⦄ ⦃others : List String⦄, Marks marks →
    Threads (leaves ++ others) (marks ++ (text ++ r)) →
    P ∧ ∃ more, Marks more ∧ Threads others (more ++ r)

namespace Peels

variable {leaves others : List String} {s t before after : List Char} {leaf : String} {c : Char}
  {P Q : Prop}

theorem mono (h : Peels leaves t P) (hp : P → Q) : Peels leaves t Q :=
  fun _ _ _ hm ht => (h hm ht).imp_left hp

theorem marks (hm : Marks t) : Peels [] t True :=
  fun before _ _ hb h => ⟨trivial, before ++ t, hb.append hm, by rwa [List.append_assoc]⟩

theorem append (h : Peels leaves s P) (h' : Peels others t Q) :
    Peels (leaves ++ others) (s ++ t) (P ∧ Q) := by
  intro marks r more hm ht
  rw [List.append_assoc, List.append_assoc] at ht
  obtain ⟨hp, between, hb, ht⟩ := h hm ht
  obtain ⟨hq, ht⟩ := h' hb ht
  exact ⟨⟨hp, hq⟩, ht⟩

theorem leaf_append (hs : Solid leaf) (h : Peels leaves t P) :
    Peels (leaf :: leaves) (leaf.toList ++ t) ((t ≠ [] → Apart leaf t) ∧ P) := by
  intro marks r more hm ht
  obtain ⟨others, after, he, ho, hapart, ht⟩ := ht.of_cons
  rw [List.append_assoc] at he
  cases hs.unique hm ho he
  refine ⟨⟨fun hne hi => ?_, (h .nil ht).1⟩, (h .nil ht).2⟩
  rw [← List.head?_append_of_ne_nil t hne]
  exact hapart hi

theorem single (hs : Solid leaf) : Peels [leaf] leaf.toList True := by
  have h := leaf_append hs (marks .nil)
  rw [List.append_nil] at h
  exact h.mono fun _ => trivial

theorem behind (h : Peels leaves t P) (hb : Marks before) : Peels leaves (before ++ t) P :=
  ((marks hb).append h).mono And.right

/-- Marks around a text. -/
theorem within (h : Peels leaves t P) (hb : Marks before) (ha : Marks after) :
    Peels leaves (before ++ (t ++ after)) P := by
  have hall := h.append (marks ha)
  rw [List.append_nil] at hall
  exact (hall.mono And.left).behind hb

theorem enclosed (h : Peels leaves t P) (minimum : Nat) (e : Expr) :
    Peels leaves (Expr.enclosed minimum e t) P := by
  rw [Expr.enclosed]
  split
  · have hopening : Marks ['('] := by decide
    exact h.within hopening (by decide)
  · exact h

variable {e : Expr} {es : List Expr}

theorem further (h : ∀ e ∈ es, Peels e.leaves e.text (e.dotsInteger = false)) :
    Peels (Expr.leavesOf es) (Expr.furtherText es) (Expr.anyDotsInteger es = false) := by
  induction es with
  | nil => exact (marks .nil).mono fun _ => rfl
  | cons e es ih =>
    obtain ⟨he, hes⟩ := List.forall_mem_cons.mp h
    have hcomma : Marks [',', ' '] := by decide
    exact ((he.behind hcomma).append (ih hes)).mono fun h => by
      rw [Expr.anyDotsInteger, h.1, h.2, Bool.or_false]

theorem listed (h : ∀ e ∈ es, Peels e.leaves e.text (e.dotsInteger = false)) :
    Peels (Expr.leavesOf es) (Expr.listText es) (Expr.anyDotsInteger es = false) := by
  cases es with
  | nil => exact (marks .nil).mono fun _ => rfl
  | cons e es =>
    obtain ⟨he, hes⟩ := List.forall_mem_cons.mp h
    exact (he.append (further hes)).mono fun h => by
      rw [Expr.anyDotsInteger, h.1, h.2, Bool.or_false]

end Peels

theorem marks_symbol {symbol : String} (h : symbol ∈ infixSymbols) : Marks symbol.toList := by
  have hall : ∀ x ∈ infixSymbols, Marks x.toList := by decide
  exact hall symbol h

theorem marks_sign {symbol : String} (h : symbol ∈ UnaryOperator.all.map (·.symbol)) (e : Expr) :
    Marks (symbol.toList ++ Expr.gap symbol e) := by
  have hall : ∀ x ∈ UnaryOperator.all.map (·.symbol), Marks x.toList := by decide
  apply (hall symbol h).append
  rw [Expr.gap]
  split <;> decide

theorem marks_trailing (es : List Expr) : Marks (Expr.trailing es ++ [']']) := by
  rw [Expr.trailing]
  split <;> decide

/-- Where the leaves of an expression are kept apart in its text, no point follows an integer. -/
theorem Depicts.peels {role : Role} {v : Value} {e : Expr} (h : Depicts role v e) :
    Peels e.leaves e.text (e.dotsInteger = false) := by
  induction h with
  | literal hl => exact (Peels.single (solid_literal hl)).mono fun _ => rfl
  | keyLiteral hl =>
    exact (Peels.single (solid_literal (hl.imp_right .inl))).mono fun _ => rfl
  | name hn | keyName hn => exact (Peels.single (solid_name hn)).mono fun _ => rfl
  | hole => exact (Peels.marks .nil).mono fun _ => rfl
  | element _ ih => exact ih
  | @array items es span hl _ ih =>
    have hopening : Marks ['['] := by decide
    have h := (Peels.listed (forall_of_zip hl ih)).within hopening (marks_trailing es)
    rw [Expr.text, List.append_assoc]
    exact h
  | object hl _ ih =>
    have hopening : Marks ['\x7b'] := by decide
    exact (Peels.listed (forall_of_zip hl ih)).within hopening (by decide)
  | property _ _ ihk ihv =>
    have hcolon : Marks [':', ' '] := by decide
    exact (ihk.append (ihv.behind hcolon)).mono And.right
  | @member v target s inner span ht hn ih =>
    have hpoint : Marks ['.'] := by decide
    have hname := (Peels.single (solid_name hn)).behind hpoint
    cases hi : target.isInteger with
    | false =>
      refine ((ih.enclosed Precedence.chain target).append hname).mono fun h => ?_
      rw [Expr.dotsInteger, hi, h.1, Bool.or_false]
    | true =>
      cases target with
      | literal raw =>
        have hsolid : Solid raw := by
          cases ht with
          | literal hl => exact solid_literal hl
        refine (hname.leaf_append hsolid).mono fun h => ?_
        exact absurd rfl (h.1 (by simp) (of_decide_eq_true hi))
      | _ => cases hi
  | @index v w target k span _ _ iht ihk =>
    have hopening : Marks ['['] := by decide
    have hclosing : Marks [']'] := by decide
    have h := (iht.enclosed Precedence.chain target).append (ihk.within hopening hclosing)
    rw [Expr.text, List.append_assoc]
    refine h.mono fun h => ?_
    rw [Expr.dotsInteger, h.1, h.2, Bool.or_false]
  | @call v items callee arguments span _ hl _ ih ihs =>
    have hopening : Marks ['('] := by decide
    have hclosing : Marks [')'] := by decide
    have h := (ih.enclosed Precedence.chain callee).append
      ((Peels.listed (forall_of_zip hl ihs)).within hopening hclosing)
    rw [Expr.text, List.append_assoc]
    refine h.mono fun h => ?_
    rw [Expr.dotsInteger, h.1, h.2, Bool.or_false]
  | unary hs _ ih => exact (ih.enclosed Precedence.unary _).behind (marks_sign hs _)
  | @binary symbol v w left right span hs _ _ ihl ihr =>
    have hblank : Marks [' '] := by decide
    have hsymbol := (hblank.append (marks_symbol hs)).append hblank
    have h := (ihl.enclosed (Expr.levelOf symbol) left).append
      ((ihr.enclosed (Expr.levelOf symbol + 1) right).behind hsymbol)
    rw [Expr.text, List.append_assoc]
    rw [List.append_assoc] at h
    exact h.mono fun h => by rw [Expr.dotsInteger, h.1, h.2, Bool.or_false]
  | @choice t c a test consequent alternate span _ _ _ iht ihc iha =>
    have hquestion : Marks [' ', '?', ' '] := by decide
    have hcolon : Marks [' ', ':', ' '] := by decide
    have h := ((iht.enclosed (Precedence.choice + 1) test).append (ihc.behind hquestion)).append
      (iha.behind hcolon)
    exact h.mono fun h => by rw [Expr.dotsInteger, h.1.1, h.1.2, h.2, Bool.or_false, Bool.or_false]

end GatedExpr
