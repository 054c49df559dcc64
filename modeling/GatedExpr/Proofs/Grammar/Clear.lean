import GatedExpr.Proofs.Grammar.Rules

/-! # Making nodes takes no depth

Only following a reference can fail for want of depth: what a rule makes of its match fails, if it
does, for other reasons, whatever it is given.
-/

namespace GatedExpr

namespace ExpressionGrammar

/-- The computation does not end for want of depth. -/
def Clear {α : Type} (result : Except Fault α) : Prop :=
  result ≠ .error .nestedTooDeeply

variable {α β : Type} {x : Except Fault α} {f : α → Except Fault β}

theorem clear_ok (a : α) : Clear (.ok a : Except Fault α) :=
  nofun

theorem clear_bind (hx : Clear x) (hf : ∀ a, Clear (f a)) : Clear (x >>= f) := by
  cases x with
  | ok a => exact hf a
  | error fault => exact fun he => hx (by cases he; rfl)

theorem clear_map (hx : Clear x) (g : α → β) : Clear (g <$> x) := by
  cases x with
  | ok a => exact nofun
  | error fault => exact fun he => hx (by cases he; rfl)

/-! ## Parts -/

theorem clear_matchedSpan (v : Value) : Clear v.matchedSpan := by
  unfold Value.matchedSpan
  split
  · split <;> rintro ⟨⟩
  · rintro ⟨⟩

theorem clear_spanning (v w : Value) : Clear (v.spanning w) :=
  clear_bind (clear_matchedSpan v) fun _ => clear_bind (clear_matchedSpan w) fun _ => clear_ok _

theorem clear_rawOf (v : Value) : Clear (rawOf v) := by
  unfold rawOf
  split
  · split <;> rintro ⟨⟩
  · rintro ⟨⟩

theorem clear_readAttribute (v : Value) (name : String) : Clear (v.readAttribute name) := by
  unfold Value.readAttribute
  split <;> exact nofun

theorem clear_isOfKind (v : Value) (kind : String) : Clear (v.isOfKind kind) :=
  clear_bind (clear_readAttribute v "kind") fun _ => clear_ok _

theorem clear_literalNode (token : Value) {value : String → Except Fault Value}
    (h : ∀ raw, Clear (value raw)) : Clear (literalNode token value) :=
  clear_bind (clear_rawOf token) fun raw => clear_bind (clear_matchedSpan token) fun _ =>
    clear_bind (h raw) fun _ => clear_ok _

/-! ## Leaves and brackets -/

theorem clear_onNumber (items : List Value) : Clear (onNumber items) := by
  unfold onNumber
  split
  · refine clear_literalNode _ fun raw => ?_
    split <;> exact nofun
  · exact nofun

theorem clear_onString (items : List Value) : Clear (onString items) := by
  unfold onString
  split
  · exact clear_literalNode _ fun raw => clear_ok _
  · exact nofun

theorem clear_onKeyword (items : List Value) : Clear (onKeyword items) := by
  unfold onKeyword
  split
  · refine clear_literalNode _ fun raw => ?_
    repeat' split
    all_goals exact nofun
  · exact nofun

theorem clear_onIdentifierName (items : List Value) : Clear (onIdentifierName items) := by
  unfold onIdentifierName
  split
  · exact clear_bind (clear_matchedSpan _) fun _ => clear_bind (clear_rawOf _) fun _ => clear_ok _
  · exact nofun

theorem clear_onIdentifier (items : List Value) : Clear (onIdentifier items) := by
  unfold onIdentifier
  split
  · refine clear_bind (clear_rawOf _) fun raw => ?_
    split
    · exact clear_ok _
    · exact clear_onIdentifierName _
  · exact nofun

theorem clear_onArray (items : List Value) : Clear (onArray items) := by
  unfold onArray
  split
  · exact clear_bind (clear_spanning _ _) fun _ => clear_ok _
  · exact nofun

theorem clear_onProperty (items : List Value) : Clear (onProperty items) := by
  unfold onProperty
  split
  · exact clear_bind (clear_spanning _ _) fun _ => clear_ok _
  · exact nofun

theorem clear_onObject (items : List Value) : Clear (onObject items) := by
  unfold onObject
  split
  · exact clear_bind (clear_spanning _ _) fun _ => clear_ok _
  · exact nofun

theorem clear_onParenthesized (items : List Value) : Clear (onParenthesized items) := by
  unfold onParenthesized
  split <;> exact nofun

theorem clear_onDotSuffix (items : List Value) : Clear (onDotSuffix items) := by
  unfold onDotSuffix
  split <;> exact nofun

theorem clear_onIndexSuffix (items : List Value) : Clear (onIndexSuffix items) := by
  unfold onIndexSuffix
  split <;> exact nofun

theorem clear_onArguments (items : List Value) : Clear (onArguments items) := by
  unfold onArguments
  split <;> exact nofun

/-! ## Chains and operators -/

theorem clear_applySuffix (base suffix : Value) : Clear (applySuffix base suffix) := by
  refine clear_bind (clear_spanning base suffix) fun span =>
    clear_bind (clear_isOfKind suffix "Arguments") fun isCall => ?_
  split
  · exact clear_bind (clear_readAttribute _ _) fun _ => clear_ok _
  · exact clear_bind (clear_readAttribute _ _) fun _ =>
      clear_bind (clear_isOfKind _ _) fun _ => clear_ok _

theorem clear_onPostfix (items : List Value) : Clear (onPostfix items) := by
  have hfold (suffixes : List Value) : ∀ base, Clear (suffixes.foldlM applySuffix base) := by
    induction suffixes with
    | nil => exact fun _ => clear_ok _
    | cons suffix suffixes ih =>
      intro base
      rw [List.foldlM_cons]
      exact clear_bind (clear_applySuffix base suffix) ih
  unfold onPostfix
  split
  · exact clear_map (hfold _ _) _
  · exact nofun

theorem clear_onUnary (items : List Value) : Clear (onUnary items) := by
  unfold onUnary
  split
  · exact clear_bind (clear_spanning _ _) fun _ => clear_bind (clear_rawOf _) fun _ => clear_ok _
  · exact nofun

theorem clear_operations (pairs : List Value) : Clear (operations pairs) := by
  fun_induction operations pairs with
  | case1 => exact clear_ok _
  | case2 _ operator right _ rest ih =>
    exact clear_bind (clear_rawOf operator) fun _ => clear_bind ih fun _ => clear_ok _
  | case3 _ _ _ ih => exact ih

theorem clear_collapse (level : Nat) (stack : List Precedence.Pending) :
    ∀ current, Clear (Precedence.collapse level stack current) := by
  induction stack with
  | nil => exact fun _ => clear_ok _
  | cons pending stack ih =>
    intro current
    rw [Precedence.collapse]
    split
    · exact clear_bind (clear_bind (clear_spanning _ _) fun _ => clear_ok _) ih
    · exact clear_ok _

theorem clear_foldFrom (operations : List (String × Value)) :
    ∀ stack current, Clear (Precedence.foldFrom stack current operations) := by
  induction operations with
  | nil =>
    intro stack current
    rw [Precedence.foldFrom]
    exact clear_bind (clear_collapse 0 stack current) fun _ => clear_ok _
  | cons operation operations ih =>
    obtain ⟨operator, right⟩ := operation
    intro stack current
    rw [Precedence.foldFrom]
    split
    · exact nofun
    · exact clear_bind (clear_collapse _ stack current) fun _ => ih _ _

theorem clear_onExpression (items : List Value) : Clear (onExpression items) := by
  unfold onExpression
  split
  · refine clear_bind (clear_operations _) fun read =>
      clear_bind (clear_foldFrom read [] _) fun test => ?_
    split
    · exact clear_bind (clear_spanning _ _) fun _ => clear_ok _
    · exact clear_ok _
  · exact nofun

end ExpressionGrammar

/-- A rule clears whatever it matches if what it makes of a list of results does. -/
theorem Descriptor.clear_transformed {kind : String} {rule fallback : Option Matcher}
    {onMatch : Option Transform}
    (h : ∀ transform ∈ onMatch, ∀ items, ExpressionGrammar.Clear (transform items))
    (value : Value) :
    ExpressionGrammar.Clear (Descriptor.transformed { kind, rule, onMatch, fallback } value) := by
  cases onMatch with
  | none => exact nofun
  | some transform => cases value <;> exact h transform rfl _

end GatedExpr
