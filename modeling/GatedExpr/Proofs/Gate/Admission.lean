import GatedExpr.Closure.Compile
import GatedExpr.Proofs.Closure.Path
import GatedExpr.Proofs.Computation
import GatedExpr.Proofs.Gate.Permits
import GatedExpr.Proofs.Grammar.Parsing
import GatedExpr.Proofs.Node

/-! # What passes the gate

The compiler accepts a tree of the expression grammar exactly if the whitelist permits what the
tree shows. Otherwise it names something that the whitelist lacks.
-/

namespace GatedExpr

open GatedExpr.Computation

/-- The computation passes where `P` holds, and otherwise fails with a fault that satisfies
`D`. -/
def Gate.Decides {α : Type} (act : Gate α) (P : Prop) (D : Fault → Prop) : Prop :=
  ∀ ws, (∃ a ws', act.run ws = (.ok a, ws') ∧ P) ∨
    ∃ failure ws', act.run ws = (.error failure, ws') ∧ D failure.fault

namespace Gate.Decides

variable {α β : Type} {act : Gate α} {f : α → Gate β} {P Q : Prop} {D E : Fault → Prop}

theorem pure (a : α) (h : P) : Decides (Pure.pure a) P D :=
  fun ws => .inl ⟨a, ws, rfl, h⟩

theorem failAt {node : Option Node} {fault : Fault} (h : D fault) :
    Decides (Gate.failAt node fault : Gate α) P D :=
  fun ws => .inr ⟨⟨fault, node⟩, ws, rfl, h⟩

theorem mono (h : Decides act P D) (hP : P → Q) (hD : ∀ fault, D fault → E fault) :
    Decides act Q E := by
  intro ws
  rcases h ws with ⟨a, ws', hr, hp⟩ | ⟨failure, ws', hr, hd⟩
  · exact .inl ⟨a, ws', hr, hP hp⟩
  · exact .inr ⟨failure, ws', hr, hD _ hd⟩

/-- What follows decides the rest, and may rely on what has passed. -/
theorem bind (h : Decides act P D) (hf : ∀ a, P → Decides (f a) Q D) :
    Decides (act >>= f) Q D := by
  intro ws
  rcases h ws with ⟨a, ws₁, hr, hp⟩ | ⟨failure, ws₁, hr, hd⟩
  · rw [run_bind, hr]
    exact hf a hp ws₁
  · refine .inr ⟨failure, ws₁, ?_, hd⟩
    rw [run_bind, hr]

theorem read {r : Except Fault α} {a : α} (hr : r = .ok a) (h : Decides (f a) P D) :
    Decides (ofExcept r >>= f) P D := by
  rw [hr]
  exact h

theorem get {node : Node} {name : String} {part : Value}
    {f : { part : Value // sizeOf part < sizeOf node } → Gate β}
    (hf : node.field? name = some part) (h : ∀ smaller, Decides (f ⟨part, smaller⟩) P D) :
    Decides (ofExcept (node.get name) >>= f) P D :=
  read (Node.get_of_field? hf) (h _)

theorem warn {warning : Warning} (h : Decides act P D) :
    Decides (Gate.warn warning >>= fun _ => act) P D :=
  fun ws => h (ws ++ [warning])

end Gate.Decides

theorem Table.mem_keys_of_lookup {α : Type} {table : List (String × α)} {name : String} {found : α}
    (h : table.lookup name = some found) : name ∈ table.map Prod.fst :=
  List.mem_map.mpr ⟨(name, found), Table.mem_of_lookup h, rfl⟩

theorem Table.not_mem_keys_of_lookup {α : Type} {table : List (String × α)} {name : String}
    (h : table.lookup name = none) : name ∉ table.map Prod.fst := by
  intro hm
  obtain ⟨⟨key, found⟩, hp, rfl⟩ := List.mem_map.mp hm
  exact absurd (List.lookup_eq_none_iff.mp h _ hp) (by simp)

/-- Only a text equals a text. -/
theorem Value.isAmong_text {s : String} {values : List Value} :
    (Value.text s).isAmong values = true ↔ .text s ∈ values := by
  have hsame (v : Value) : ((Value.text s).isSameNumber v ||
      (Value.text s).hasContentOf v) = true ↔ .text s = v := by
    cases v <;> simp [Value.isSameNumber, Value.hasContentOf]
  simp only [Value.isAmong, List.any_eq_true, hsame]
  constructor
  · rintro ⟨v, hv, rfl⟩
    exact hv
  · exact fun h => ⟨_, h, rfl⟩

namespace Whitelist

variable {whitelist : Whitelist}

theorem decides_objectRoot (root : String) (node : Option Node) :
    Gate.Decides (whitelist.objectRoot (.text root) node) (whitelist.AllowsObject root)
      fun fault => ¬ whitelist.AllowsObject root ∧
        fault = .unauthorizedIdentifier (.text root) := by
  unfold objectRoot
  refine .read (a := whitelist.objects.lookup root) rfl ?_
  cases h : whitelist.objects.lookup root with
  | some accessor => exact .pure _ (Table.mem_keys_of_lookup h)
  | none => exact .warn (.failAt ⟨Table.not_mem_keys_of_lookup h, rfl⟩)

theorem decides_callee (signature : String) (call : Node) :
    Gate.Decides (whitelist.callee (.text signature) call) (whitelist.AllowsCall signature)
      fun fault => ¬ whitelist.AllowsCall signature ∧
        fault = .unauthorizedCall (.text signature) := by
  unfold callee
  refine .read (a := whitelist.callees.lookup signature) rfl ?_
  cases h : whitelist.callees.lookup signature with
  | some accessor => exact .pure _ (Table.mem_keys_of_lookup h)
  | none => exact .warn (.failAt ⟨Table.not_mem_keys_of_lookup h, rfl⟩)

theorem isCustom_text (root : String) :
    ∃ custom, whitelist.isCustom (.text root) = .ok custom ∧
      (custom = true ↔ whitelist.HasCustom root) :=
  ⟨_, rfl, Value.isAmong_text⟩

end Whitelist

namespace Depicts

variable {v : Value} {e : Expr}

theorem isOfKind_identifier (h : Depicts .value v e) (hne : ∀ s, e ≠ .name s) :
    v.isOfKind "Identifier" = .ok false := by
  cases h with
  | name => exact absurd rfl (hne _)
  | _ => rfl

end Depicts

namespace CallTarget

variable {whitelist : Whitelist} {call : Node} {v : Value} {callee : Expr}

theorem of_name {s : String} (hf : call.field? "callee" = some v)
    (h : Depicts .value v (.name s)) : of whitelist call = .ok (.function (.text s)) := by
  unfold of
  rw [Node.get_of_field? hf]
  cases h
  rfl

theorem of_uncallable (hf : call.field? "callee" = some v) (h : Depicts .value v callee)
    (hu : callee.Uncallable) : of whitelist call = .ok (.refused callee.shape) := by
  unfold of
  rw [Node.get_of_field? hf]
  cases h with
  | name => exact absurd rfl (hu.1 _)
  | member => exact absurd rfl (hu.2 _ _)
  | _ => rfl

/-- How whitelists read a member off a callee. -/
theorem of_eq_of_member {span inner : Span} {receiver : Value} {method : String}
    (hf : call.field? "callee" = some (.branch "MemberExpression" span
      [("object", receiver), ("property", .identifier inner method), ("computed", .bool false)])) :
    ∃ smaller, ∀ whitelist, of whitelist call = (do
      if ← receiver.isOfKind "Identifier" then
        let name ← receiver.readAttribute "name"
        if ← whitelist.isCustom name then
          return .function (.text s!"{name.displayPlain}.{method}")
      return .method s!"*.{method}" receiver smaller) := by
  have hless := Node.sizeOf_lt_of_field? hf
  have hsmaller : sizeOf receiver < sizeOf call := by
    refine Nat.lt_trans ?_ hless
    simp [Value.branch, Value.ofTree, Node.make]
    omega
  refine ⟨hsmaller, fun whitelist => ?_⟩
  unfold of
  rw [Node.get_of_field? hf]
  rfl

/-- How whitelists read a member off a callee if a name stands before the dot. -/
theorem of_eq_of_named {span inner outer : Span} {root method : String}
    (hf : call.field? "callee" = some (.branch "MemberExpression" span
      [("object", .identifier outer root), ("property", .identifier inner method),
        ("computed", .bool false)])) :
    ∃ smaller, ∀ whitelist, of whitelist call = (do
      if ← whitelist.isCustom (.text root) then
        return .function (.text (root ++ "." ++ method))
      return .method ("*." ++ method) (.identifier outer root) smaller) := by
  obtain ⟨smaller, hof⟩ := of_eq_of_member hf
  exact ⟨smaller, hof⟩

theorem of_member {receiver : Expr} {method : String} (hf : call.field? "callee" = some v)
    (h : Depicts .value v (.member receiver method)) :
    ∃ w, Depicts .value w receiver ∧
      ((∃ root, receiver = .name root ∧ whitelist.HasCustom root ∧
          of whitelist call = .ok (.function (.text (root ++ "." ++ method)))) ∨
        ((∀ root, receiver = .name root → ¬ whitelist.HasCustom root) ∧
          ∃ smaller, of whitelist call = .ok (.method ("*." ++ method) w smaller))) := by
  cases h with
  | @member w _ _ inner span hw hm =>
    refine ⟨w, hw, ?_⟩
    by_cases hname : ∃ root, receiver = .name root
    · obtain ⟨root, rfl⟩ := hname
      cases hw with
      | name =>
        obtain ⟨custom, hc, hiff⟩ := whitelist.isCustom_text root
        obtain ⟨hsmaller, hof⟩ := of_eq_of_named hf
        rw [hof, hc]
        cases custom with
        | true => exact .inl ⟨root, rfl, hiff.mp rfl, rfl⟩
        | false =>
          refine .inr ⟨fun _ hr hcustom => ?_, _, rfl⟩
          cases hr
          cases hiff.mpr hcustom
    · have hk := hw.isOfKind_identifier fun s hs => hname ⟨s, hs⟩
      obtain ⟨hsmaller, hof⟩ := of_eq_of_member hf
      rw [hof, hk]
      exact .inr ⟨fun root hr => absurd ⟨root, hr⟩ hname, _, rfl⟩

/-- Whitelists with the same custom objects read the same target off a call. -/
theorem of_eq_of_hasCustom {other : Whitelist} (hf : call.field? "callee" = some v)
    (h : Depicts .value v callee)
    (hcustom : ∀ root, other.HasCustom root ↔ whitelist.HasCustom root) :
    of other call = of whitelist call := by
  by_cases hname : ∃ s, callee = .name s
  · obtain ⟨s, rfl⟩ := hname
    rw [of_name hf h, of_name hf h]
  by_cases hmember : ∃ receiver method, callee = .member receiver method
  · obtain ⟨receiver, method, rfl⟩ := hmember
    cases h with
    | @member w _ _ inner span hw hm =>
      by_cases hroot : ∃ root, receiver = .name root
      · obtain ⟨root, rfl⟩ := hroot
        have hsame : other.isCustom (.text root) = whitelist.isCustom (.text root) := by
          obtain ⟨custom, hc, hiff⟩ := whitelist.isCustom_text root
          obtain ⟨custom', hc', hiff'⟩ := other.isCustom_text root
          rw [hc, hc', Bool.eq_iff_iff.mpr (hiff'.trans ((hcustom root).trans hiff.symm))]
        cases hw with
        | name =>
          obtain ⟨hsmaller, hof⟩ := of_eq_of_named hf
          rw [hof, hof, hsame]
      · obtain ⟨hsmaller, hof⟩ := of_eq_of_member hf
        rw [hof, hof, hw.isOfKind_identifier fun s hs => hroot ⟨s, hs⟩]
        rfl
  · have hu : callee.Uncallable :=
      ⟨fun s hs => hname ⟨s, hs⟩, fun r m hm => hmember ⟨r, m, hm⟩⟩
    rw [of_uncallable hf h hu, of_uncallable hf h hu]

end CallTarget

namespace Whitelist

variable {whitelist : Whitelist} {path : Path} {slot : String} {v w : Value} {e f : Expr}

/-- Wherever the node of `v` stands, compiling it decides whether `e` is permitted. -/
def Passes (whitelist : Whitelist) (v : Value) (e : Expr) : Prop :=
  ∃ node, v = .ofTree node ∧ ∀ path : Path, path.node = node →
    (∃ own, path.isOwnName = .ok own) →
    Gate.Decides (whitelist.compile path) (whitelist.Permits e) (whitelist.Denies e)

/-- What compiling decides in a place of each role. Holes are not compiled. -/
def Admits (whitelist : Whitelist) : Role → Value → Expr → Prop
  | .element, v, e => v = .null ∧ e = .hole ∨ whitelist.Passes v e
  | _, v, e => whitelist.Passes v e

/-- Every tree that shows a smaller expression is decided. -/
def AdmitsBelow (whitelist : Whitelist) (e : Expr) : Prop :=
  ∀ ⦃role : Role⦄ ⦃v : Value⦄ ⦃p : Expr⦄, sizeOf p < sizeOf e → Depicts role v p →
    whitelist.Admits role v p

/-! ## Parts -/

theorem Passes.part (h : whitelist.Passes v e) (hp : path.TellsComputed) :
    Gate.Decides (whitelist.compilePart path slot v) (whitelist.Permits e)
      (whitelist.Denies e) := by
  obtain ⟨node, rfl, h⟩ := h
  rw [Value.ofTree, compilePart]
  exact h _ rfl (Path.isOwnName_down hp slot node)

theorem Passes.root (h : whitelist.Passes v e) (hd : Depicts .value v e)
    (hp : path.TellsComputed) :
    Gate.Decides (whitelist.compileRoot path slot v) (whitelist.PermitsRoot e) fun fault =>
      (∃ root, e = .name root ∧ ¬ whitelist.AllowsObject root ∧
        fault = .unauthorizedIdentifier (.text root)) ∨ whitelist.Denies e fault := by
  rw [compileRoot]
  by_cases hname : ∃ root, e = .name root
  · obtain ⟨root, rfl⟩ := hname
    cases hd with
    | name =>
      refine .read (a := true) rfl ?_
      refine .read (a := .text root) rfl ?_
      apply (decides_objectRoot root _).mono .object
      rintro fault ⟨hno, rfl⟩
      exact .inl ⟨root, rfl, hno, rfl⟩
  · have hne (s : String) : e ≠ .name s := fun hs => hname ⟨s, hs⟩
    refine .read (hd.isOfKind_identifier hne) ?_
    exact (h.part hp).mono (.compound hne) fun _ => .inr

theorem decides_each {items : List Value} {es : List Expr}
    (h : List.Forall₂ whitelist.Passes items es) (hp : path.TellsComputed) :
    Gate.Decides (whitelist.compileEach path slot items) (∀ p ∈ es, whitelist.Permits p)
      fun fault => ∃ p ∈ es, whitelist.Denies p fault := by
  induction h with
  | nil =>
    rw [compileEach]
    exact .pure _ (List.forall_mem_nil _)
  | @cons v e items es hv _ ih =>
    rw [compileEach]
    refine .bind ((hv.part hp).mono id fun _ hd => ⟨e, List.mem_cons_self, hd⟩) fun _ he => ?_
    refine .bind (ih.mono id ?_) fun _ hes => .pure _ (List.forall_mem_cons.mpr ⟨he, hes⟩)
    rintro fault ⟨p, hm, hd⟩
    exact ⟨p, List.mem_cons_of_mem _ hm, hd⟩

theorem decides_holes {items : List Value} {es : List Expr}
    (h : List.Forall₂ (whitelist.Admits .element) items es) (hp : path.TellsComputed) :
    Gate.Decides (whitelist.compileHoles path items) (∀ p ∈ es, whitelist.Permits p)
      fun fault => ∃ p ∈ es, whitelist.Denies p fault := by
  induction h with
  | nil =>
    rw [compileHoles]
    exact .pure _ (List.forall_mem_nil _)
  | @cons v e items es hv _ ih =>
    rw [compileHoles]
    have hrest (closure : Closure) (he : whitelist.Permits e) : Gate.Decides
        (do
          let closures ← whitelist.compileHoles path items
          return closure :: closures)
        (∀ p ∈ e :: es, whitelist.Permits p)
        fun fault => ∃ p ∈ e :: es, whitelist.Denies p fault := by
      refine .bind (ih.mono id ?_) fun _ hes => .pure _ (List.forall_mem_cons.mpr ⟨he, hes⟩)
      rintro fault ⟨p, hm, hd⟩
      exact ⟨p, List.mem_cons_of_mem _ hm, hd⟩
    rcases hv with ⟨rfl, rfl⟩ | hv
    · exact hrest _ .hole
    · have hnull : v.isNull = false := by
        obtain ⟨node, rfl, _⟩ := hv
        rfl
      simp only [hnull, Bool.false_eq_true, if_false]
      exact .bind ((hv.part hp).mono id fun _ hd => ⟨e, List.mem_cons_self, hd⟩) hrest

theorem decides_parts {items : List Value} {es : List Expr}
    (h : List.Forall₂ whitelist.Passes items es) (hp : path.TellsComputed) :
    Gate.Decides (whitelist.compileParts path slot (.ofList items)) (∀ p ∈ es, whitelist.Permits p)
      fun fault => ∃ p ∈ es, whitelist.Denies p fault := by
  rw [Value.ofList, compileParts]
  exact decides_each h hp

theorem decides_elements {items : List Value} {es : List Expr}
    (h : List.Forall₂ (whitelist.Admits .element) items es) (hp : path.TellsComputed) :
    Gate.Decides (whitelist.compileElements path (.ofList items)) (∀ p ∈ es, whitelist.Permits p)
      fun fault => ∃ p ∈ es, whitelist.Denies p fault := by
  rw [Value.ofList, compileElements]
  exact decides_holes h hp

theorem AdmitsBelow.each {role : Role} {items : List Value} {es : List Expr}
    (below : whitelist.AdmitsBelow e) (h : DepictsEach role items es)
    (hs : ∀ p ∈ es, sizeOf p < sizeOf e) : List.Forall₂ (whitelist.Admits role) items es := by
  rw [List.forall₂_iff_zip]
  exact ⟨h.1, fun hm => below (hs _ (List.of_mem_zip hm).2) (h.2 _ _ hm)⟩

/-! ## Kinds of nodes -/

section Kinds

variable {span : Span} {t c a : Value} {test consequent alternate left right argument : Expr}
  {symbol : String}

/-- A node that is no member expression need not tell whether it is computed. -/
theorem passes_branch {kind : String} {fields : List (String × Value)}
    (h : ∀ path : Path, path.node = .make kind (some span) fields →
      (∃ own, path.isOwnName = .ok own) →
      Gate.Decides (whitelist.compile path) (whitelist.Permits e) (whitelist.Denies e)) :
    whitelist.Passes (.branch kind span fields) e :=
  ⟨_, rfl, h⟩

theorem tellsComputed_of_kind {kind : String} (hk : path.node.kind = some kind)
    (hne : kind ≠ "MemberExpression") : path.TellsComputed := by
  intro h
  rw [hk] at h
  exact absurd (Option.some.inj h) hne

theorem passes_literal {raw : String} {value : Value} :
    whitelist.Passes (.literal span raw value) (.literal raw) := by
  refine ⟨_, rfl, fun path hn _ => ?_⟩
  have hk : path.node.kind = some "Literal" := by rw [hn]
  unfold compile
  simp only [hk, Option.getD_some]
  exact .get (by rw [hn]; rfl) fun _ => .pure _ .literal

theorem passes_name {s : String} : whitelist.Passes (.identifier span s) (.name s) := by
  refine passes_branch fun path hn ⟨own, hown⟩ => ?_
  have hk : path.node.kind = some "Identifier" := by rw [hn]; rfl
  unfold compile
  simp only [hk, Option.getD_some]
  refine .get (by rw [hn]; rfl) fun _ => .read hown ?_
  cases own with
  | true => exact .pure _ .name
  | false => exact .pure _ .name

theorem passes_choice (ht : whitelist.Passes t test) (hc : whitelist.Passes c consequent)
    (ha : whitelist.Passes a alternate) :
    whitelist.Passes
      (.branch "ConditionalExpression" span
        [("test", t), ("consequent", c), ("alternate", a)])
      (.choice test consequent alternate) := by
  refine passes_branch fun path hn _ => ?_
  have hk : path.node.kind = some "ConditionalExpression" := by rw [hn]; rfl
  have hp := tellsComputed_of_kind hk (by decide)
  unfold compile
  simp only [hk, Option.getD_some]
  refine .get (by rw [hn]; rfl) fun _ => ?_
  refine .bind ((ht.part hp).mono id fun _ hd => hd.inside .test) fun _ pt => ?_
  refine .get (by rw [hn]; rfl) fun _ => ?_
  refine .bind ((hc.part hp).mono id fun _ hd => hd.inside .consequent) fun _ pc => ?_
  refine .get (by rw [hn]; rfl) fun _ => ?_
  refine .bind ((ha.part hp).mono id fun _ hd => hd.inside .alternate) fun _ pa => ?_
  exact .pure _ (.choice pt pc pa)

theorem passes_unary (hs : symbol ∈ UnaryOperator.all.map (·.symbol))
    (ha : whitelist.Passes a argument) :
    whitelist.Passes
      (.branch "UnaryExpression" span [("operator", .text symbol), ("argument", a)])
      (.unary symbol argument) := by
  refine passes_branch fun path hn _ => ?_
  have hk : path.node.kind = some "UnaryExpression" := by rw [hn]; rfl
  have hp := tellsComputed_of_kind hk (by decide)
  obtain ⟨operator, ho⟩ : ∃ operator, UnaryOperator.ofSymbol? symbol = some operator := by
    obtain ⟨operator, _, rfl⟩ := List.mem_map.mp hs
    cases operator <;> exact ⟨_, rfl⟩
  unfold compile
  simp only [hk, Option.getD_some]
  refine .get (by rw [hn]; rfl) fun _ => ?_
  refine .read (congrArg Except.ok ho) ?_
  refine .get (by rw [hn]; rfl) fun _ => ?_
  refine .bind ((ha.part hp).mono id fun _ hd => hd.inside .operand) fun _ pa => ?_
  exact .pure _ (.unary pa)

/-- Every infix operator is known, as a logical one or as one that needs both operands. -/
theorem ofSymbol?_infix (hs : symbol ∈ infixSymbols) :
    (LogicalOperator.ofSymbol? symbol).isSome ∨ (BinaryOperator.ofSymbol? symbol).isSome := by
  have h : ∀ s ∈ infixSymbols,
      ((LogicalOperator.ofSymbol? s).isSome || (BinaryOperator.ofSymbol? s).isSome) = true := by
    decide
  simpa using h symbol hs

theorem passes_binary (hs : symbol ∈ infixSymbols) (hl : whitelist.Passes v left)
    (hr : whitelist.Passes w right) :
    whitelist.Passes
      (.branch "BinaryExpression" span [("operator", .text symbol), ("left", v), ("right", w)])
      (.binary symbol left right) := by
  refine passes_branch fun path hn _ => ?_
  have hk : path.node.kind = some "BinaryExpression" := by rw [hn]; rfl
  have hp := tellsComputed_of_kind hk (by decide)
  have hknown := ofSymbol?_infix hs
  unfold compile
  simp only [hk, Option.getD_some]
  refine .get (by rw [hn]; rfl) fun _ => ?_
  refine .read rfl <| .read rfl ?_
  generalize LogicalOperator.ofSymbol? symbol = logical? at hknown
  generalize BinaryOperator.ofSymbol? symbol = binary? at hknown
  have hsome : (logical?.isNone && binary?.isNone) = false := by
    cases logical? <;> cases binary? <;> simp_all
  simp only [hsome, Bool.false_eq_true, if_false]
  refine .get (by rw [hn]; rfl) fun _ => ?_
  refine .bind ((hl.part hp).mono id fun _ hd => hd.inside .left) fun _ pl => ?_
  refine .get (by rw [hn]; rfl) fun _ => ?_
  refine .bind ((hr.part hp).mono id fun _ hd => hd.inside .right) fun _ pr => ?_
  cases logical? with
  | some logical => exact .pure _ (.binary pl pr)
  | none =>
    cases binary? with
    | some binary => exact .pure _ (.binary pl pr)
    | none => cases hsome

theorem passes_array {items : List Value} {elements : List Expr}
    (h : List.Forall₂ (whitelist.Admits .element) items elements) :
    whitelist.Passes (.branch "ArrayExpression" span [("elements", .ofList items)])
      (.array elements) := by
  refine passes_branch fun path hn _ => ?_
  have hk : path.node.kind = some "ArrayExpression" := by rw [hn]; rfl
  have hp := tellsComputed_of_kind hk (by decide)
  unfold compile
  simp only [hk, Option.getD_some]
  refine .get (by rw [hn]; rfl) fun _ => ?_
  refine .bind ((decides_elements h hp).mono id ?_) fun _ pe => .pure _ (.array pe)
  rintro fault ⟨p, hm, hd⟩
  exact hd.inside (.element hm)

theorem passes_object {items : List Value} {properties : List Expr}
    (h : List.Forall₂ whitelist.Passes items properties) :
    whitelist.Passes (.branch "ObjectExpression" span [("properties", .ofList items)])
      (.object properties) := by
  refine passes_branch fun path hn _ => ?_
  have hk : path.node.kind = some "ObjectExpression" := by rw [hn]; rfl
  have hp := tellsComputed_of_kind hk (by decide)
  unfold compile
  simp only [hk, Option.getD_some]
  refine .get (by rw [hn]; rfl) fun _ => ?_
  refine .bind ((decides_parts h hp).mono id ?_) fun _ pe => .pure _ (.object pe)
  rintro fault ⟨p, hm, hd⟩
  exact hd.inside (.property hm)

/-- Keys are names or literals, of which nothing is denied. -/
theorem denies_key (h : Depicts .key v e) {fault : Fault} : ¬ whitelist.Denies e fault := by
  cases h with
  | keyName => exact Permits.name.not_denies
  | keyLiteral => exact Permits.literal.not_denies

theorem passes_property {key value : Expr} (hkey : Depicts .key v key)
    (hkp : whitelist.Passes v key) (hv : whitelist.Passes w value) :
    whitelist.Passes (.branch "Property" span [("key", v), ("value", w)])
      (.property key value) := by
  refine passes_branch fun path hn _ => ?_
  have hk : path.node.kind = some "Property" := by rw [hn]; rfl
  have hp := tellsComputed_of_kind hk (by decide)
  unfold compile
  simp only [hk, Option.getD_some]
  refine .get (by rw [hn]; rfl) fun _ => ?_
  refine .bind ((hkp.part hp).mono id fun _ hd => absurd hd (denies_key hkey)) fun _ _ => ?_
  refine .get (by rw [hn]; rfl) fun _ => ?_
  refine .bind ((hv.part hp).mono id fun _ hd => hd.inside .value) fun _ pv => ?_
  exact .pure _ (.property pv)

theorem passes_member {target : Expr} {s : String} {inner : Span} (ht : Depicts .value v target)
    (hv : whitelist.Passes v target) :
    whitelist.Passes
      (.branch "MemberExpression" span
        [("object", v), ("property", .identifier inner s), ("computed", .bool false)])
      (.member target s) := by
  refine passes_branch fun path hn _ => ?_
  have hk : path.node.kind = some "MemberExpression" := by rw [hn]; rfl
  have hp : path.TellsComputed := fun _ => ⟨.bool false, by rw [hn]; rfl⟩
  unfold compile
  simp only [hk, Option.getD_some]
  refine .get (by rw [hn]; rfl) fun _ => ?_
  refine .bind ((passes_name.part hp).mono id fun _ hd => absurd hd Permits.name.not_denies)
    fun _ _ => ?_
  refine .get (by rw [hn]; rfl) fun _ => ?_
  refine .bind ((hv.root ht hp).mono id ?_) fun _ pt => .pure _ (.member pt)
  rintro fault (⟨root, rfl, hno, rfl⟩ | hd)
  · exact .here (.object hno)
  · exact hd.inside .object

theorem passes_index {target k : Expr} (ht : Depicts .value v target)
    (hv : whitelist.Passes v target) (hw : whitelist.Passes w k) :
    whitelist.Passes
      (.branch "MemberExpression" span
        [("object", v), ("property", w), ("computed", .bool true)])
      (.index target k) := by
  refine passes_branch fun path hn _ => ?_
  have hk : path.node.kind = some "MemberExpression" := by rw [hn]; rfl
  have hp : path.TellsComputed := fun _ => ⟨.bool true, by rw [hn]; rfl⟩
  unfold compile
  simp only [hk, Option.getD_some]
  refine .get (by rw [hn]; rfl) fun _ => ?_
  refine .bind ((hw.part hp).mono id fun _ hd => hd.inside .index) fun _ pk => ?_
  refine .get (by rw [hn]; rfl) fun _ => ?_
  refine .bind ((hv.root ht hp).mono id ?_) fun _ pt => .pure _ (.index pt pk)
  rintro fault (⟨root, rfl, hno, rfl⟩ | hd)
  · exact .here (.indexed hno)
  · exact hd.inside .indexed

/-- The signature is looked up first, then the receiver is compiled, then the arguments. -/
theorem passes_call {callee : Expr} {items : List Value} {arguments : List Expr}
    (below : whitelist.AdmitsBelow (.call callee arguments)) (hv : Depicts .value v callee)
    (h : List.Forall₂ whitelist.Passes items arguments) :
    whitelist.Passes
      (.branch "CallExpression" span [("callee", v), ("arguments", .ofList items)])
      (.call callee arguments) := by
  refine passes_branch fun path hn _ => ?_
  have hk : path.node.kind = some "CallExpression" := by rw [hn]; rfl
  have hp := tellsComputed_of_kind hk (by decide)
  have hc : path.node.field? "callee" = some v := by rw [hn]; rfl
  have ha : path.node.field? "arguments" = some (.ofList items) := by rw [hn]; rfl
  have hargs : Gate.Decides (whitelist.compileParts path "arguments" (.ofList items))
      (∀ p ∈ arguments, whitelist.Permits p) (whitelist.Denies (.call callee arguments)) := by
    refine (decides_parts h hp).mono id ?_
    rintro fault ⟨p, hm, hd⟩
    exact hd.inside (.argument hm)
  unfold compile
  simp only [hk, Option.getD_some]
  by_cases hname : ∃ s, callee = .name s
  · obtain ⟨s, rfl⟩ := hname
    refine .read (CallTarget.of_name hc hv) ?_
    refine .bind ((decides_callee s _).mono id ?_) fun _ hs => ?_
    · rintro fault ⟨hno, rfl⟩
      exact .here (.function hno)
    · exact .get ha fun _ => .bind hargs fun _ pa => .pure _ (.function hs pa)
  by_cases hmember : ∃ receiver method, callee = .member receiver method
  · obtain ⟨receiver, method, rfl⟩ := hmember
    obtain ⟨w, hw, ⟨root, rfl, hcustom, ht⟩ | ⟨hother, _, ht⟩⟩ := CallTarget.of_member hc hv
    · refine .read ht ?_
      refine .bind ((decides_callee (root ++ "." ++ method) _).mono id ?_) fun _ hs => ?_
      · rintro fault ⟨hno, rfl⟩
        exact .here (.customMethod hcustom hno)
      · exact .get ha fun _ => .bind hargs fun _ pa => .pure _ (.customMethod hcustom hs pa)
    · have hpasses : whitelist.Passes w receiver :=
        below (by simp only [Expr.call.sizeOf_spec, Expr.member.sizeOf_spec]; omega) hw
      refine .read ht ?_
      refine .bind ((decides_callee ("*." ++ method) _).mono id ?_) fun _ hs => ?_
      · rintro fault ⟨hno, rfl⟩
        exact .here (.method hother hno)
      refine .bind ((hpasses.root hw hp).mono id ?_) fun _ pr => ?_
      · rintro fault (⟨root, rfl, hno, rfl⟩ | hd)
        · exact .here (.receiver (hother root rfl) hno)
        · exact hd.inside .receiver
      · exact .get ha fun _ => .bind hargs fun _ pa => .pure _ (.method hother hs pr pa)
  · have hu : callee.Uncallable :=
      ⟨fun s hs => hname ⟨s, hs⟩, fun r m hm => hmember ⟨r, m, hm⟩⟩
    refine .read (CallTarget.of_uncallable hc hv hu) ?_
    exact .warn (.failAt (.here (.shape hu)))

end Kinds

/-! ## Whole trees -/

/-- One more level: each kind is decided if everything smaller is. -/
theorem AdmitsBelow.admits {role : Role} (below : whitelist.AdmitsBelow e)
    (h : Depicts role v e) : whitelist.Admits role v e := by
  have value {v : Value} {p : Expr} (hs : sizeOf p < sizeOf e) (hd : Depicts .value v p) :
      whitelist.Passes v p := below hs hd
  induction h with
  | literal => exact passes_literal
  | name => exact passes_name
  | hole => exact .inl ⟨rfl, rfl⟩
  | element _ ih => exact .inr (ih below value)
  | array hl hall =>
    have hitems : List.Forall₂ (whitelist.Admits .element) _ _ :=
      below.each ⟨hl, hall⟩ fun p hm => by
        have := List.sizeOf_lt_of_mem hm
        simp only [Expr.array.sizeOf_spec]
        omega
    exact passes_array hitems
  | keyName => exact passes_name
  | keyLiteral => exact passes_literal
  | property hkey hv =>
    exact passes_property hkey (below (by simp only [Expr.property.sizeOf_spec]; omega) hkey)
      (value (by simp only [Expr.property.sizeOf_spec]; omega) hv)
  | object hl hall =>
    have hitems : List.Forall₂ (whitelist.Admits .property) _ _ :=
      below.each ⟨hl, hall⟩ fun p hm => by
        have := List.sizeOf_lt_of_mem hm
        simp only [Expr.object.sizeOf_spec]
        omega
    exact passes_object hitems
  | member ht =>
    exact passes_member ht (value (by simp only [Expr.member.sizeOf_spec]; omega) ht)
  | index ht hw =>
    exact passes_index ht (value (by simp only [Expr.index.sizeOf_spec]; omega) ht)
      (value (by simp only [Expr.index.sizeOf_spec]; omega) hw)
  | call hv hl hall =>
    have hitems : List.Forall₂ (whitelist.Admits .value) _ _ :=
      below.each ⟨hl, hall⟩ fun p hm => by
        have := List.sizeOf_lt_of_mem hm
        simp only [Expr.call.sizeOf_spec]
        omega
    exact passes_call below hv hitems
  | unary hs ha =>
    exact passes_unary hs (value (by simp only [Expr.unary.sizeOf_spec]; omega) ha)
  | binary hs hl hr =>
    exact passes_binary hs (value (by simp only [Expr.binary.sizeOf_spec]; omega) hl)
      (value (by simp only [Expr.binary.sizeOf_spec]; omega) hr)
  | choice ht hc ha =>
    exact passes_choice (value (by simp only [Expr.choice.sizeOf_spec]; omega) ht)
      (value (by simp only [Expr.choice.sizeOf_spec]; omega) hc)
      (value (by simp only [Expr.choice.sizeOf_spec]; omega) ha)

theorem admits {role : Role} {v : Value} {e : Expr} (h : Depicts role v e) :
    whitelist.Admits role v e := by
  have below : whitelist.AdmitsBelow e := fun _ _ _ _ hd => admits hd
  exact below.admits h
termination_by sizeOf e

/-- A source that the grammar accepts compiles exactly if the whitelist permits what its tree
shows. If it does not, what is named is a root or the signature of a call that the whitelist
lacks. -/
theorem compileTree_iff_permits {source : List Char} {tree : Value}
    (h : Family.expression.parse 0 source Grammar.rootKind = .ok tree) (whitelist : Whitelist)
    (ws : List Warning) :
    ∃ e, Depicts .value tree e ∧
      ((∃ closure ws', (whitelist.compileTree tree).run ws = (.ok closure, ws')) ↔
        whitelist.Permits e) ∧
      ∀ failure ws', (whitelist.compileTree tree).run ws = (.error failure, ws') →
        whitelist.Denies e failure.fault ∧
          ∃ s, failure.fault = .unauthorizedIdentifier (.text s) ∨
            failure.fault = .unauthorizedCall (.text s) := by
  obtain ⟨e, hd⟩ := Family.depicts_of_parse h
  obtain ⟨node, rfl, hcompile⟩ : whitelist.Passes tree e := admits hd
  have hrun : (whitelist.compileTree (.ofTree node)).run ws =
      (whitelist.compile (.root node)).run ws := rfl
  refine ⟨e, hd, ?_⟩
  rw [hrun]
  rcases hcompile (.root node) rfl ⟨_, Path.isOwnName_root node⟩ ws with
    ⟨closure, ws', hr, hp⟩ | ⟨failure, ws', hr, hdeny⟩
  · rw [hr]
    exact ⟨⟨fun _ => hp, fun _ => ⟨closure, ws', rfl⟩⟩, nofun⟩
  · rw [hr]
    refine ⟨⟨?_, fun hp => absurd hdeny hp.not_denies⟩, ?_⟩
    · rintro ⟨_, _, ⟨⟩⟩
    · rintro _ _ ⟨⟩
      exact ⟨hdeny, hdeny.names⟩

/-- Nothing is allowed, and `f(a.b)` asks for `f` and for `a`. -/
theorem compileTree_iff_permits_call : ∃ tree,
    Family.expression.parse 0 "f(a.b)".toList Grammar.rootKind = .ok tree ∧
      ∃ e, Depicts .value tree e ∧
        ((∃ closure ws', (empty.compileTree tree).run [] = (.ok closure, ws')) ↔
          empty.Permits e) ∧
        ∀ failure ws', (empty.compileTree tree).run [] = (.error failure, ws') →
          empty.Denies e failure.fault ∧
            ∃ s, failure.fault = .unauthorizedIdentifier (.text s) ∨
              failure.fault = .unauthorizedCall (.text s) := by
  obtain ⟨tree, h⟩ : ∃ tree,
      Family.expression.parse 0 "f(a.b)".toList Grammar.rootKind = .ok tree :=
    Family.exists_tree_of_isOk (by decide +kernel)
  exact ⟨tree, h, compileTree_iff_permits h empty []⟩

end Whitelist

end GatedExpr
