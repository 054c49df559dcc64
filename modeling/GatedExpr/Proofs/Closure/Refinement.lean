import GatedExpr.Proofs.Closure.CompiledFrom
import GatedExpr.Proofs.Closure.Implements

/-! # Compiled closures refine the meaning of trees

A closure that is compiled from a node implements the node: what the compiler looked up is what
the relation looks up while evaluating.
-/

namespace GatedExpr

open GatedExpr.Computation Semantics

/-- What is compiled from a task runs as the task evaluates. -/
theorem Semantics.CompiledFrom.implements {whitelist : Whitelist} {closure : Closure} {task : Task}
    (h : CompiledFrom whitelist closure task) : Implements whitelist closure task := by
  induction h with
  | hole => exact implements_hole
  | object hl => exact implements_object hl
  | literal hk hv => exact implements_literal hk hv
  | ownName hk ho hn => exact implements_ownName hk ho hn
  | lookup hk ho hn => exact implements_lookup hk ho hn
  | choice hk pt pc pa _ _ _ it ic ia => exact implements_choice hk pt pc pa it ic ia
  | logical hk ho hs pl pr _ _ il ir => exact implements_logical hk ho hs pl pr il ir
  | binary hk ho hs pl pr _ _ il ir => exact implements_binary hk ho hs pl pr il ir
  | unary hk ho hs pq _ iq => exact implements_unary hk ho hs pq iq
  | array hk he hlength _ ih =>
    exact implements_array hk he (List.forall₂_iff_zip.mpr ⟨hlength, fun hm => ih hm⟩)
  | map hk hp hlength _ ih =>
    exact implements_map hk hp (List.forall₂_iff_zip.mpr ⟨hlength, fun hm => ih hm⟩)
  | property hk pk pq _ _ ik iq => exact implements_property hk pk pq ik iq
  | member hk ho pt pk _ _ it ik => exact implements_member hk ho pt pk it ik
  | call hk hc hlength _ ih =>
    exact implements_call hk (hc _ _) (List.forall₂_iff_zip.mpr ⟨hlength, fun hm => ih hm⟩)

namespace Whitelist

variable {whitelist : Whitelist} {path : Path} {ws ws' : List Warning}

/-- A closure that a node compiles to implements the node. -/
theorem implements_of_compile {closure : Closure}
    (h : (whitelist.compile path).run ws = (.ok closure, ws')) :
    Implements whitelist closure (.node path) :=
  ((yields_compile whitelist path).of_run h).implements

/-- The closure of a tree runs to exactly the outcome and the world that the tree evaluates to. -/
theorem compileTree_refines {tree : Value} {closure : Closure}
    (h : (whitelist.compileTree tree).run ws = (.ok closure, ws')) (env : Env)
    (w : World) (r : Except Failure Value) (w' : World) :
    (closure env).run w = (r, w') ↔
      ∃ id node, tree = .node id node ∧
        Evaluates whitelist env (.node (.root node)) w r w' := by
  simp only [compileTree, run_bind_eq_ok, Gate.run_ofExcept_eq_ok] at h
  obtain ⟨_, _, ⟨_, rfl⟩, ⟨node, _⟩, _, ⟨hnode, rfl⟩, h⟩ := h
  have himpl := implements_of_compile h env w r w'
  cases tree with
  | node id tree =>
    cases hnode
    rw [himpl]
    constructor
    · intro he
      exact ⟨id, _, rfl, he⟩
    · rintro ⟨_, _, ⟨⟩, he⟩
      exact he
  | _ => cases hnode

/-- The tree of `a && "b"`. -/
def conjunction : Node :=
  .make "BinaryExpression" none
    [("operator", .text "&&"),
      ("left", .node .unassigned (.make "Identifier" none [("name", .text "a")])),
      ("right", .node .unassigned (.make "Literal" none [("value", .text "b")]))]

theorem compileTree_conjunction : ∃ closure,
    (empty.compileTree (.node .unassigned conjunction)).run [] = (.ok closure, []) := by
  let left : Node := .make "Identifier" none [("name", .text "a")]
  let right : Node := .make "Literal" none [("value", .text "b")]
  have hl : (empty.compile ((Path.root conjunction).down "left" left)).run [] =
      (.ok (Closure.lookup left (.text "a")), []) := by
    unfold compile
    rfl
  have hr : (empty.compile ((Path.root conjunction).down "right" right)).run [] =
      (.ok (Closure.constant (.text "b")), []) := by
    unfold compile
    rfl
  have h : (empty.compile (Path.root conjunction)).run [] =
      (.ok (Closure.logical .and (Closure.lookup left (.text "a"))
        (Closure.constant (.text "b"))), []) := by
    unfold compile
    refine run_bind_eq_ok.mpr ⟨⟨.text "&&", by decide⟩, _, rfl, ?_⟩
    refine run_bind_eq_ok.mpr ⟨some .and, _, rfl, ?_⟩
    refine run_bind_eq_ok.mpr ⟨none, _, rfl, ?_⟩
    refine run_bind_eq_ok.mpr ⟨⟨.node .unassigned left, by decide⟩, _, rfl, ?_⟩
    refine run_bind_eq_ok.mpr ⟨_, _, by unfold compilePart; exact hl, ?_⟩
    refine run_bind_eq_ok.mpr ⟨⟨.node .unassigned right, by decide⟩, _, rfl, ?_⟩
    exact run_bind_eq_ok.mpr ⟨_, _, by unfold compilePart; exact hr, rfl⟩
  exact ⟨_, h⟩

theorem compileTree_refines_conjunction : ∃ closure,
    (empty.compileTree (.node .unassigned conjunction)).run [] = (.ok closure, []) ∧
      ∀ env w r w', (closure env).run w = (r, w') ↔
        ∃ id node, Value.node .unassigned conjunction = .node id node ∧
          Evaluates empty env (.node (.root node)) w r w' := by
  obtain ⟨closure, h⟩ := compileTree_conjunction
  exact ⟨closure, h, compileTree_refines h⟩

end Whitelist

end GatedExpr
