import GatedExpr.Closure.Compile
import GatedExpr.Proofs.Closure.Coinciding
import GatedExpr.Proofs.Closure.Path
import GatedExpr.Proofs.Expr.Content
import GatedExpr.Proofs.Expr.Printed
import GatedExpr.Proofs.Gate.Admission

/-! # Trees that can be interchanged

Trees of equal contents show the same expression. They are printed alike, and compile to closures
that do the same, or are rejected for the same reason: nothing depends on where they were matched.
-/

namespace GatedExpr

open GatedExpr.Computation

namespace Path

variable {p q : Path}

/-- Whatever is put into a slot stands for itself in both places or in neither. -/
def PlacesLike (p q : Path) : Prop :=
  ∀ slot node other, (p.down slot node).isOwnName = (q.down slot other).isOwnName

theorem placesLike_of_kind (hkind : p.node.kind = q.node.kind)
    (hcomputed : p.node.kind = some "MemberExpression" → ∃ computed,
      p.node.field? "computed" = some computed ∧ q.node.field? "computed" = some computed) :
    p.PlacesLike q := by
  intro slot node other
  have hkey : (p.down slot node).isAt "Property.key" = (q.down slot other).isAt "Property.key" := by
    rw [Bool.eq_iff_iff, isAt_key, isAt_key]
    simp [down, hkind]
  have hproperty : (p.down slot node).isAt "MemberExpression.property" =
      (q.down slot other).isAt "MemberExpression.property" := by
    rw [Bool.eq_iff_iff, isAt_property, isAt_property]
    simp [down, hkind]
  unfold isOwnName
  rw [← hkey, ← hproperty]
  split
  · rfl
  split
  · next hprop =>
    obtain ⟨above, ha, hk, -⟩ := isAt_property.mp hprop
    cases ha
    obtain ⟨computed, hp, hq⟩ := hcomputed hk
    simp only [down, Node.get_of_field? hp, Node.get_of_field? hq]
    rfl
  · rfl

end Path

namespace Coincide

variable {α α' β β' : Type} {R : β → β' → Prop}

theorem read {r : Except Fault α} {r' : Except Fault α'} {f : α → Gate β} {g : α' → Gate β'}
    {a : α} {a' : α'} (hr : r = .ok a) (hr' : r' = .ok a') (h : Coincide R (f a) (g a')) :
    Coincide R (Gate.ofExcept r >>= f) (Gate.ofExcept r' >>= g) := by
  rw [hr, hr']
  exact h

theorem get {node other : Node} {name : String} {part part' : Value}
    {f : { part : Value // sizeOf part < sizeOf node } → Gate β}
    {g : { part : Value // sizeOf part < sizeOf other } → Gate β'}
    (hpart : node.field? name = some part) (hpart' : other.field? name = some part')
    (h : ∀ smaller smaller', Coincide R (f ⟨part, smaller⟩) (g ⟨part', smaller'⟩)) :
    Coincide R (Gate.ofExcept (node.get name) >>= f) (Gate.ofExcept (other.get name) >>= g) :=
  read (Node.get_of_field? hpart) (Node.get_of_field? hpart') (h _ _)

theorem failAt (node other : Option Node) (fault : Fault) :
    Coincide R (Gate.failAt node fault) (Gate.failAt other fault) :=
  fun _ => ⟨.error rfl, rfl⟩

end Coincide

namespace Whitelist

variable {whitelist : Whitelist} {p q : Path} {slot : String} {v w : Value} {e : Expr}

/-- Both trees compile alike in places where names mean the same. -/
def CompilesLike (whitelist : Whitelist) (v w : Value) : Prop :=
  ∃ node other, v = .ofTree node ∧ w = .ofTree other ∧ ∀ p q : Path, p.node = node →
    q.node = other → p.isOwnName = q.isOwnName →
    Coincide Closure.Coincides (whitelist.compile p) (whitelist.compile q)

/-- What stands in a place of each role compiles alike. Holes are not compiled. -/
def Interchanges (whitelist : Whitelist) : Role → Value → Value → Prop
  | .element, v, w => v = .null ∧ w = .null ∨ whitelist.CompilesLike v w
  | _, v, w => whitelist.CompilesLike v w

/-! ## Parts -/

theorem CompilesLike.part (h : whitelist.CompilesLike v w) (hpq : p.PlacesLike q) :
    Coincide Closure.Coincides (whitelist.compilePart p slot v)
      (whitelist.compilePart q slot w) := by
  obtain ⟨node, other, rfl, rfl, h⟩ := h
  rw [Value.ofTree, Value.ofTree, compilePart, compilePart]
  exact h _ _ rfl rfl (hpq slot node other)

theorem objectRoot_coincides (whitelist : Whitelist) (name : Value) (node other : Option Node) :
    Coincide Closure.Coincides (whitelist.objectRoot name node)
      (whitelist.objectRoot name other) := by
  refine (Coincide.self _).andThen fun found? => ?_
  cases found? with
  | some accessor => exact .pure (.self accessor)
  | none => exact (Coincide.self _).andThen fun _ => .failAt _ _ _

theorem callee_coincides (whitelist : Whitelist) (signature : Value) (node other : Node) :
    Coincide Eq (whitelist.callee signature node) (whitelist.callee signature other) := by
  refine (Coincide.self _).andThen fun found? => ?_
  cases found? with
  | some function => exact .pure rfl
  | none => exact (Coincide.self _).andThen fun _ => .failAt _ _ _

theorem CompilesLike.root (h : whitelist.CompilesLike v w) (hv : Depicts .value v e)
    (hw : Depicts .value w e) (hpq : p.PlacesLike q) :
    Coincide Closure.Coincides (whitelist.compileRoot p slot v)
      (whitelist.compileRoot q slot w) := by
  rw [compileRoot, compileRoot]
  by_cases hname : ∃ root, e = .name root
  · obtain ⟨root, rfl⟩ := hname
    cases hv
    cases hw
    exact objectRoot_coincides whitelist (.text root) _ _
  · have hne (s : String) : e ≠ .name s := fun hs => hname ⟨s, hs⟩
    rw [hv.isOfKind_identifier hne, hw.isOfKind_identifier hne]
    exact h.part hpq

theorem compileEach_coincides {items others : List Value}
    (h : List.Forall₂ whitelist.CompilesLike items others) (hpq : p.PlacesLike q) :
    Coincide (List.Forall₂ Closure.Coincides) (whitelist.compileEach p slot items)
      (whitelist.compileEach q slot others) := by
  induction h with
  | nil =>
    rw [compileEach, compileEach]
    exact .pure .nil
  | cons hv _ ih =>
    rw [compileEach, compileEach]
    exact (hv.part hpq).bind fun _ _ hf => ih.bind fun _ _ hfs => .pure (.cons hf hfs)

theorem compileHoles_coincides {items others : List Value}
    (h : List.Forall₂ (whitelist.Interchanges .element) items others) (hpq : p.PlacesLike q) :
    Coincide (List.Forall₂ Closure.Coincides) (whitelist.compileHoles p items)
      (whitelist.compileHoles q others) := by
  induction h with
  | nil =>
    rw [compileHoles, compileHoles]
    exact .pure .nil
  | cons hv _ ih =>
    rw [compileHoles, compileHoles]
    rcases hv with ⟨rfl, rfl⟩ | hv
    · refine (Coincide.pure (Closure.Coincides.self _)).bind fun _ _ hf => ?_
      exact ih.bind fun _ _ hfs => .pure (.cons hf hfs)
    · have hnull {v w : Value} (hv : whitelist.CompilesLike v w) :
          v.isNull = false ∧ w.isNull = false := by
        obtain ⟨node, other, rfl, rfl, -⟩ := hv
        exact ⟨rfl, rfl⟩
      simp only [hnull hv, Bool.false_eq_true, if_false]
      exact (hv.part hpq).bind fun _ _ hf => ih.bind fun _ _ hfs => .pure (.cons hf hfs)

theorem compileParts_coincides {items others : List Value}
    (h : List.Forall₂ whitelist.CompilesLike items others) (hpq : p.PlacesLike q) :
    Coincide (List.Forall₂ Closure.Coincides) (whitelist.compileParts p slot (.ofList items))
      (whitelist.compileParts q slot (.ofList others)) := by
  rw [Value.ofList, Value.ofList, compileParts, compileParts]
  exact compileEach_coincides h hpq

theorem compileElements_coincides {items others : List Value}
    (h : List.Forall₂ (whitelist.Interchanges .element) items others) (hpq : p.PlacesLike q) :
    Coincide (List.Forall₂ Closure.Coincides) (whitelist.compileElements p (.ofList items))
      (whitelist.compileElements q (.ofList others)) := by
  rw [Value.ofList, Value.ofList, compileElements, compileElements]
  exact compileHoles_coincides h hpq

/-! ## Kinds of nodes -/

section Kinds

variable {span inner : Span} {v' w' t t' : Value} {symbol : String}

/-- A node other than a member expression says nothing about what a name below it means. -/
theorem compilesLike_branch {kind : String} {fields others : List (String × Value)}
    (hne : kind ≠ "MemberExpression")
    (h : ∀ p q : Path, p.node = .make kind (some span) fields →
      q.node = .make kind (some inner) others → p.node.kind = some kind →
      q.node.kind = some kind → p.PlacesLike q →
      Coincide Closure.Coincides (whitelist.compile p) (whitelist.compile q)) :
    whitelist.CompilesLike (.branch kind span fields) (.branch kind inner others) := by
  refine ⟨_, _, rfl, rfl, fun p q hp hq _ => ?_⟩
  have hk : p.node.kind = some kind := by rw [hp]; rfl
  have hk' : q.node.kind = some kind := by rw [hq]; rfl
  refine h p q hp hq hk hk' (Path.placesLike_of_kind (hk.trans hk'.symm) fun hmember => ?_)
  exact absurd (Option.some.inj (hk.symm.trans hmember)) hne

theorem compilesLike_literal {raw : String} {value : Value} :
    whitelist.CompilesLike (.literal span raw value) (.literal inner raw value) := by
  refine ⟨_, _, rfl, rfl, fun p q hp hq _ => ?_⟩
  have hk : p.node.kind = some "Literal" := by rw [hp]
  have hk' : q.node.kind = some "Literal" := by rw [hq]
  unfold compile
  simp only [hk, hk', Option.getD_some]
  refine .get (by rw [hp]; rfl) (by rw [hq]; rfl) fun _ _ => ?_
  exact .pure (.self _)

theorem compilesLike_name {s : String} :
    whitelist.CompilesLike (.identifier span s) (.identifier inner s) := by
  refine ⟨_, _, rfl, rfl, fun p q hp hq hown => ?_⟩
  have hk : p.node.kind = some "Identifier" := by rw [hp]; rfl
  have hk' : q.node.kind = some "Identifier" := by rw [hq]; rfl
  unfold compile
  simp only [hk, hk', Option.getD_some, hown]
  refine .get (by rw [hp]; rfl) (by rw [hq]; rfl) fun _ _ => ?_
  refine (Coincide.self _).andThen fun own => ?_
  split
  · exact .pure (.self _)
  · exact .pure (.lookup _ _ _)

theorem compilesLike_choice (ht : whitelist.CompilesLike t t') (hv : whitelist.CompilesLike v v')
    (hw : whitelist.CompilesLike w w') :
    whitelist.CompilesLike
      (.branch "ConditionalExpression" span [("test", t), ("consequent", v), ("alternate", w)])
      (.branch "ConditionalExpression" inner
        [("test", t'), ("consequent", v'), ("alternate", w')]) := by
  refine compilesLike_branch (by decide) fun p q hp hq hk hk' hpq => ?_
  unfold compile
  simp only [hk, hk', Option.getD_some]
  refine .get (by rw [hp]; rfl) (by rw [hq]; rfl) fun _ _ => (ht.part hpq).bind fun _ _ ht => ?_
  refine .get (by rw [hp]; rfl) (by rw [hq]; rfl) fun _ _ => (hv.part hpq).bind fun _ _ hv => ?_
  refine .get (by rw [hp]; rfl) (by rw [hq]; rfl) fun _ _ => (hw.part hpq).bind fun _ _ hw => ?_
  exact .pure (.choice ht hv hw)

theorem compilesLike_binary (hv : whitelist.CompilesLike v v') (hw : whitelist.CompilesLike w w') :
    whitelist.CompilesLike
      (.branch "BinaryExpression" span [("operator", .text symbol), ("left", v), ("right", w)])
      (.branch "BinaryExpression" inner
        [("operator", .text symbol), ("left", v'), ("right", w')]) := by
  refine compilesLike_branch (by decide) fun p q hp hq hk hk' hpq => ?_
  unfold compile
  simp only [hk, hk', Option.getD_some]
  refine .get (by rw [hp]; rfl) (by rw [hq]; rfl) fun _ _ => ?_
  refine (Coincide.self _).andThen fun logical? => (Coincide.self _).andThen fun binary? => ?_
  split
  · exact Coincide.bind (R := fun _ _ => False) (.failAt _ _ _) fun _ _ h => h.elim
  refine .get (by rw [hp]; rfl) (by rw [hq]; rfl) fun _ _ => (hv.part hpq).bind fun _ _ hv => ?_
  refine .get (by rw [hp]; rfl) (by rw [hq]; rfl) fun _ _ => (hw.part hpq).bind fun _ _ hw => ?_
  cases logical? with
  | some operator => exact .pure (.logical operator hv hw)
  | none =>
    cases binary? with
    | some operator => exact .pure (.binary operator hv hw)
    | none => exact .failAt _ _ _

theorem compilesLike_unary (hv : whitelist.CompilesLike v v') :
    whitelist.CompilesLike
      (.branch "UnaryExpression" span [("operator", .text symbol), ("argument", v)])
      (.branch "UnaryExpression" inner [("operator", .text symbol), ("argument", v')]) := by
  refine compilesLike_branch (by decide) fun p q hp hq hk hk' hpq => ?_
  unfold compile
  simp only [hk, hk', Option.getD_some]
  refine .get (by rw [hp]; rfl) (by rw [hq]; rfl) fun _ _ => ?_
  refine (Coincide.self _).andThen fun operator? => ?_
  cases operator? with
  | none => exact .failAt _ _ _
  | some operator =>
    refine .get (by rw [hp]; rfl) (by rw [hq]; rfl) fun _ _ => (hv.part hpq).bind fun _ _ hv => ?_
    exact .pure (.unary operator hv)

theorem compilesLike_array {items others : List Value}
    (h : List.Forall₂ (whitelist.Interchanges .element) items others) :
    whitelist.CompilesLike (.branch "ArrayExpression" span [("elements", .ofList items)])
      (.branch "ArrayExpression" inner [("elements", .ofList others)]) := by
  refine compilesLike_branch (by decide) fun p q hp hq hk hk' hpq => ?_
  unfold compile
  simp only [hk, hk', Option.getD_some]
  refine .get (by rw [hp]; rfl) (by rw [hq]; rfl) fun _ _ => ?_
  exact (compileElements_coincides h hpq).bind fun _ _ hfs => .pure (.array hfs)

theorem compilesLike_object {items others : List Value}
    (h : List.Forall₂ whitelist.CompilesLike items others) :
    whitelist.CompilesLike (.branch "ObjectExpression" span [("properties", .ofList items)])
      (.branch "ObjectExpression" inner [("properties", .ofList others)]) := by
  refine compilesLike_branch (by decide) fun p q hp hq hk hk' hpq => ?_
  unfold compile
  simp only [hk, hk', Option.getD_some]
  refine .get (by rw [hp]; rfl) (by rw [hq]; rfl) fun _ _ => ?_
  exact (compileParts_coincides h hpq).bind fun _ _ hfs => .pure (.object hfs)

theorem compilesLike_property (hv : whitelist.CompilesLike v v')
    (hw : whitelist.CompilesLike w w') :
    whitelist.CompilesLike (.branch "Property" span [("key", v), ("value", w)])
      (.branch "Property" inner [("key", v'), ("value", w')]) := by
  refine compilesLike_branch (by decide) fun p q hp hq hk hk' hpq => ?_
  unfold compile
  simp only [hk, hk', Option.getD_some]
  refine .get (by rw [hp]; rfl) (by rw [hq]; rfl) fun _ _ => (hv.part hpq).bind fun _ _ hv => ?_
  refine .get (by rw [hp]; rfl) (by rw [hq]; rfl) fun _ _ => (hw.part hpq).bind fun _ _ hw => ?_
  exact .pure (.property hv hw)

/-- A member read by name or in brackets. -/
theorem compilesLike_member {computed : Bool} (hd : Depicts .value v e) (hd' : Depicts .value v' e)
    (hv : whitelist.CompilesLike v v') (hw : whitelist.CompilesLike w w') :
    whitelist.CompilesLike
      (.branch "MemberExpression" span
        [("object", v), ("property", w), ("computed", .bool computed)])
      (.branch "MemberExpression" inner
        [("object", v'), ("property", w'), ("computed", .bool computed)]) := by
  refine ⟨_, _, rfl, rfl, fun p q hp hq _ => ?_⟩
  have hk : p.node.kind = some "MemberExpression" := by rw [hp]; rfl
  have hk' : q.node.kind = some "MemberExpression" := by rw [hq]; rfl
  have hpq : p.PlacesLike q :=
    Path.placesLike_of_kind (hk.trans hk'.symm) fun _ =>
      ⟨.bool computed, by rw [hp]; rfl, by rw [hq]; rfl⟩
  unfold compile
  simp only [hk, hk', Option.getD_some]
  refine .get (by rw [hp]; rfl) (by rw [hq]; rfl) fun _ _ => (hw.part hpq).bind fun _ _ hw => ?_
  refine .get (by rw [hp]; rfl) (by rw [hq]; rfl) fun _ _ => ?_
  exact (hv.root hd hd' hpq).bind fun _ _ hv => .pure (.member _ _ hv hw)

/-- Every two trees that show a smaller expression can be interchanged. -/
def InterchangesBelow (whitelist : Whitelist) (e : Expr) : Prop :=
  ∀ ⦃role : Role⦄ ⦃v w : Value⦄ ⦃p : Expr⦄, sizeOf p < sizeOf e → Depicts role v p →
    Depicts role w p → whitelist.Interchanges role v w

/-- The signature is looked up first, then the receiver is compiled, then the arguments. -/
theorem compilesLike_call {callee : Expr} {items others : List Value} {arguments : List Expr}
    (below : whitelist.InterchangesBelow (.call callee arguments)) (hd : Depicts .value v callee)
    (hd' : Depicts .value v' callee) (h : List.Forall₂ whitelist.CompilesLike items others) :
    whitelist.CompilesLike
      (.branch "CallExpression" span [("callee", v), ("arguments", .ofList items)])
      (.branch "CallExpression" inner [("callee", v'), ("arguments", .ofList others)]) := by
  refine compilesLike_branch (by decide) fun p q hp hq hk hk' hpq => ?_
  have hc : p.node.field? "callee" = some v := by rw [hp]; rfl
  have hc' : q.node.field? "callee" = some v' := by rw [hq]; rfl
  have ha : p.node.field? "arguments" = some (.ofList items) := by rw [hp]; rfl
  have ha' : q.node.field? "arguments" = some (.ofList others) := by rw [hq]; rfl
  have hargs : Coincide (List.Forall₂ Closure.Coincides)
      (whitelist.compileParts p "arguments" (.ofList items))
      (whitelist.compileParts q "arguments" (.ofList others)) :=
    compileParts_coincides h hpq
  unfold compile
  simp only [hk, hk', Option.getD_some]
  by_cases hname : ∃ s, callee = .name s
  · obtain ⟨s, rfl⟩ := hname
    refine .read (CallTarget.of_name hc hd) (CallTarget.of_name hc' hd') ?_
    refine (callee_coincides whitelist (.text s) _ _).andThen fun function => ?_
    refine .get ha ha' fun _ _ => hargs.bind fun _ _ hfs => ?_
    exact .pure (.call _ _ function .nil hfs)
  by_cases hmember : ∃ receiver method, callee = .member receiver method
  · obtain ⟨receiver, method, rfl⟩ := hmember
    obtain ⟨w, hw, ⟨root, rfl, hcustom, ht⟩ | ⟨hother, _, ht⟩⟩ := CallTarget.of_member hc hd
    · obtain ⟨w', -, ⟨_, ⟨⟩, -, ht'⟩ | ⟨hother, -⟩⟩ := CallTarget.of_member hc' hd'
      · refine .read ht ht' ?_
        refine (callee_coincides whitelist _ _ _).andThen fun function => ?_
        refine .get ha ha' fun _ _ => hargs.bind fun _ _ hfs => ?_
        exact .pure (.call _ _ function .nil hfs)
      · exact absurd hcustom (hother root rfl)
    · obtain ⟨w', hw', ⟨root, rfl, hcustom, -⟩ | ⟨-, _, ht'⟩⟩ := CallTarget.of_member hc' hd'
      · exact absurd hcustom (hother root rfl)
      · have hlike : whitelist.CompilesLike w w' :=
          below (by simp only [Expr.call.sizeOf_spec, Expr.member.sizeOf_spec]; omega) hw hw'
        refine .read ht ht' ?_
        refine (callee_coincides whitelist _ _ _).andThen fun function => ?_
        refine (hlike.root hw hw' hpq).bind fun _ _ hf => ?_
        refine .get ha ha' fun _ _ => hargs.bind fun _ _ hfs => ?_
        exact .pure (.call _ _ function (.cons hf .nil) hfs)
  · have hu : callee.Uncallable :=
      ⟨fun s hs => hname ⟨s, hs⟩, fun r m hm => hmember ⟨r, m, hm⟩⟩
    refine .read (CallTarget.of_uncallable hc hd hu) (CallTarget.of_uncallable hc' hd' hu) ?_
    exact (Coincide.self _).andThen fun _ => .failAt _ _ _

end Kinds

/-! ## Whole trees -/

theorem InterchangesBelow.each {role : Role} {items others : List Value} {es : List Expr}
    (below : whitelist.InterchangesBelow e) (h : DepictsEach role items es)
    (h' : DepictsEach role others es) (hs : ∀ p ∈ es, sizeOf p < sizeOf e) :
    List.Forall₂ (whitelist.Interchanges role) items others := by
  induction items generalizing others es with
  | nil =>
    obtain rfl := h.of_nil
    rw [List.eq_nil_of_length_eq_zero h'.1]
    exact .nil
  | cons v items ih =>
    obtain ⟨p, es, rfl, hv, hitems⟩ := h.of_cons
    cases others with
    | nil => cases h'.1
    | cons w others =>
      obtain ⟨_, _, ⟨⟩, hw, hothers⟩ := h'.of_cons
      obtain ⟨hp, hes⟩ := List.forall_mem_cons.mp hs
      exact .cons (below hp hv hw) (ih hitems hothers hes)

/-- One more level: trees of each kind can be interchanged if smaller ones can. -/
theorem InterchangesBelow.interchanges {role : Role} (below : whitelist.InterchangesBelow e)
    (h : Depicts role v e) (h' : Depicts role w e) : whitelist.Interchanges role v w := by
  have value {v w : Value} {p : Expr} (hs : sizeOf p < sizeOf e) (hv : Depicts .value v p)
      (hw : Depicts .value w p) : whitelist.CompilesLike v w := below hs hv hw
  induction h generalizing w with
  | literal hl =>
    cases h' with
    | literal hl' =>
      obtain rfl := Token.literal_unique hl hl'
      exact compilesLike_literal
  | name =>
    cases h' with
    | name => exact compilesLike_name
  | hole =>
    cases h' with
    | hole => exact .inl ⟨rfl, rfl⟩
    | element hw => cases hw
  | element hv ih =>
    cases h' with
    | hole => cases hv
    | element hw => exact .inr (ih below hw value)
  | array hl hall =>
    cases h' with
    | array hl' hall' =>
      refine compilesLike_array (below.each ⟨hl, hall⟩ ⟨hl', hall'⟩ fun p hm => ?_)
      have := List.sizeOf_lt_of_mem hm
      simp only [Expr.array.sizeOf_spec]
      omega
  | keyName =>
    cases h' with
    | keyName => exact compilesLike_name
  | keyLiteral hl =>
    cases h' with
    | keyLiteral hl' =>
      obtain rfl := Token.literal_unique (hl.imp_right .inl) (hl'.imp_right .inl)
      exact compilesLike_literal
  | property hk hv =>
    cases h' with
    | property hk' hv' =>
      exact compilesLike_property
        (below (by simp only [Expr.property.sizeOf_spec]; omega) hk hk')
        (value (by simp only [Expr.property.sizeOf_spec]; omega) hv hv')
  | object hl hall =>
    cases h' with
    | object hl' hall' =>
      have hitems : List.Forall₂ (whitelist.Interchanges .property) _ _ :=
        below.each ⟨hl, hall⟩ ⟨hl', hall'⟩ fun p hm => by
          have := List.sizeOf_lt_of_mem hm
          simp only [Expr.object.sizeOf_spec]
          omega
      exact compilesLike_object hitems
  | member hv hn =>
    cases h' with
    | member hv' hn' =>
      exact compilesLike_member hv hv'
        (value (by simp only [Expr.member.sizeOf_spec]; omega) hv hv') compilesLike_name
  | index hv hw =>
    cases h' with
    | index hv' hw' =>
      exact compilesLike_member hv hv'
        (value (by simp only [Expr.index.sizeOf_spec]; omega) hv hv')
        (value (by simp only [Expr.index.sizeOf_spec]; omega) hw hw')
  | call hv hl hall =>
    cases h' with
    | call hv' hl' hall' =>
      have hitems : List.Forall₂ (whitelist.Interchanges .value) _ _ :=
        below.each ⟨hl, hall⟩ ⟨hl', hall'⟩ fun p hm => by
          have := List.sizeOf_lt_of_mem hm
          simp only [Expr.call.sizeOf_spec]
          omega
      exact compilesLike_call below hv hv' hitems
  | unary hs hv =>
    cases h' with
    | unary hs' hv' =>
      exact compilesLike_unary (value (by simp only [Expr.unary.sizeOf_spec]; omega) hv hv')
  | binary hs hv hw =>
    cases h' with
    | binary hs' hv' hw' =>
      exact compilesLike_binary (value (by simp only [Expr.binary.sizeOf_spec]; omega) hv hv')
        (value (by simp only [Expr.binary.sizeOf_spec]; omega) hw hw')
  | choice ht hc ha =>
    cases h' with
    | choice ht' hc' ha' =>
      exact compilesLike_choice (value (by simp only [Expr.choice.sizeOf_spec]; omega) ht ht')
        (value (by simp only [Expr.choice.sizeOf_spec]; omega) hc hc')
        (value (by simp only [Expr.choice.sizeOf_spec]; omega) ha ha')

theorem interchanges {role : Role} {v w : Value} {e : Expr} (h : Depicts role v e)
    (h' : Depicts role w e) : whitelist.Interchanges role v w := by
  have below : whitelist.InterchangesBelow e := fun _ _ _ _ _ hv hw => interchanges hv hw
  exact below.interchanges h h'
termination_by sizeOf e

/-- Accepted sources whose trees have equal contents are printed as the same text. Every whitelist
rejects both for the same reason, or compiles both to closures that do the same. -/
theorem compileTree_interchanges {source other : List Char} {tree twin : Value}
    (h : Family.expression.parse 0 source Grammar.rootKind = .ok tree)
    (h' : Family.expression.parse 0 other Grammar.rootKind = .ok twin)
    (hequal : tree.hasContentOf twin = true) :
    (∃ text, tree.printAny = .ok (.text text) ∧ twin.printAny = .ok (.text text)) ∧
      ∀ whitelist : Whitelist, Coincide Closure.Coincides (whitelist.compileTree tree)
        (whitelist.compileTree twin) := by
  obtain ⟨e, hd⟩ := Family.depicts_of_parse h
  obtain ⟨f, hd'⟩ := Family.depicts_of_parse h'
  obtain rfl := (hd.hasContentOf_iff hd').mp hequal
  refine ⟨⟨_, hd.printAny_eq, hd'.printAny_eq⟩, fun whitelist => ?_⟩
  obtain ⟨node, node', rfl, rfl, hlike⟩ : whitelist.CompilesLike tree twin := interchanges hd hd'
  exact hlike (.root node) (.root node') rfl rfl rfl

/-- Sources that differ in blanks. -/
theorem compileTree_interchanges_blanks : ∃ tree twin,
    Family.expression.parse 0 "a[ 1 ]+f(x)".toList Grammar.rootKind = .ok tree ∧
      Family.expression.parse 0 " a[1] + f(x ) ".toList Grammar.rootKind = .ok twin ∧
      (∃ text, tree.printAny = .ok (.text text) ∧ twin.printAny = .ok (.text text)) ∧
      ∀ whitelist : Whitelist, Coincide Closure.Coincides (whitelist.compileTree tree)
        (whitelist.compileTree twin) := by
  obtain ⟨tree, htree, twin, htwin, hequal⟩ :
      ∃ tree ∈ (Family.expression.parse 0 "a[ 1 ]+f(x)".toList Grammar.rootKind).toOption,
        ∃ twin ∈ (Family.expression.parse 0 " a[1] + f(x ) ".toList Grammar.rootKind).toOption,
          tree.hasContentOf twin = true := by
    decide +kernel
  have h := Family.parse_of_mem_toOption htree
  have h' := Family.parse_of_mem_toOption htwin
  exact ⟨tree, twin, h, h', compileTree_interchanges h h' hequal⟩

end Whitelist

end GatedExpr
