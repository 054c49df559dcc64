import GatedExpr.Proofs.Closure.Composition

/-! # What evaluations read

A tree reads those bindings that its identifiers name as values, and it takes roots of members
from the whitelist. Two evaluations that find the same there do the same. The other names in a
tree, those of keys, properties, roots, methods and functions, are never looked up.
-/

namespace GatedExpr

namespace Semantics

variable {whitelist : Whitelist} {task : Task} {env other : Env}

/-- The place is reached from the task, and an identifier there stands for a binding. -/
structure ReadsAt (whitelist : Whitelist) (task : Task) (path : Path) : Prop where
  reached : Reaches whitelist task (.node path)
  identifier : path.node.kind = some "Identifier"
  notItself : ¬ path.NamesItself

/-- An identifier of that name stands for a binding. -/
def Reads (whitelist : Whitelist) (task : Task) (name : String) : Prop :=
  ∃ path, ReadsAt whitelist task path ∧ path.node.field? "name" = some (.text name)

/-- Both have the same bindings, or none, for the names that the task reads, and the objects that
it takes from the whitelist yield the same for both. -/
structure AgreeFor (whitelist : Whitelist) (task : Task) (env other : Env) : Prop where
  bindings : ∀ name, Reads whitelist task name →
    env.bindings.lookup name = other.bindings.lookup name
  objects : ∀ name accessor, Reaches whitelist task (.object name) →
    whitelist.objects.lookup name = some accessor → accessor env = accessor other

/-! ## Closures that do the same -/

theorem mapM_eq {closures : List Closure}
    (h : ∀ closure ∈ closures, closure env = closure other) :
    (closures.mapM (· env) : Eval (List Value)) = closures.mapM (· other) := by
  induction closures with
  | nil => rfl
  | cons closure closures ih =>
    obtain ⟨hfirst, hrest⟩ := List.forall_mem_cons.mp h
    simp only [List.mapM_cons, hfirst, ih hrest]

theorem foldlM_addEntry_eq {closures : List Closure}
    (h : ∀ closure ∈ closures, closure env = closure other) (entries : List (String × Value)) :
    closures.foldlM (Closure.addEntry env) entries =
      closures.foldlM (Closure.addEntry other) entries := by
  induction closures generalizing entries with
  | nil => rfl
  | cons closure closures ih =>
    obtain ⟨hfirst, hrest⟩ := List.forall_mem_cons.mp h
    have hentry :
        Closure.addEntry env entries closure = Closure.addEntry other entries closure := by
      unfold Closure.addEntry
      rw [hfirst]
    simp only [List.foldlM_cons, hentry, ih hrest]

theorem compositional_eq (env other : Env) :
    Closure.Compositional fun closure => closure env = closure other where
  choice ht hc ha := by simp only [Closure.choice, ht, hc, ha]
  logical operator _ _ hl hr := by simp only [Closure.logical, hl, hr]
  binary operator _ _ hl hr := by simp only [Closure.binary, hl, hr]
  unary operator _ ha := by simp only [Closure.unary, ha]
  array h := by simp only [Closure.array, mapM_eq h]
  map h := by simp only [Closure.object, foldlM_addEntry_eq h]
  property hk hv := by simp only [Closure.property, hk, hv]
  member node _ _ ht hk := by simp only [Closure.member, ht, hk]

/-- A closure does the same for environments that agree on what its task reads. -/
theorem CompiledFrom.apply_eq {closure : Closure} (h : CompiledFrom whitelist closure task)
    (hagree : AgreeFor whitelist task env other) : closure env = closure other := by
  refine h.satisfies (compositional_eq env other) ⟨?constant, ?lookup, ?object, ?call⟩
  case constant => exact fun _ _ => rfl
  case lookup =>
    intro path name hreached hk hself hn
    unfold Closure.lookup Accessor.fromBindings
    cases name with
    | text s => simp only [hagree.bindings s ⟨path, ⟨hreached, hk, hself⟩, hn⟩]
    | _ => rfl
  case object => exact hagree.objects
  case call =>
    intro path function tasks receiver closures _ _ h
    simp only [Closure.call, mapM_eq h]

/-! ## Where names are read -/

/-- The slots in which a name stands for an object, a function or a receiver. -/
def namingSlots : List String :=
  ["object", "callee", "callee.object"]

theorem not_naming_of_evaluated {kind slot : String}
    (h : slot ∈ partSlots kind ∨ slot ∈ listSlots kind) : slot ∉ namingSlots := by
  unfold partSlots listSlots at h
  rintro hm
  simp only [namingSlots, List.mem_cons, List.not_mem_nil, or_false] at hm
  rcases hm with rfl | rfl | rfl <;> revert h <;> split <;> split <;> simp

theorem slot_of_mem_ofItems {path p : Path} {slot : String} {parts : Value}
    (h : .node path ∈ Task.ofItems p slot parts) : path.slot = some slot := by
  rcases Task.mem_ofItems h with he | ⟨_, _, _, _, _, _, he⟩
  · cases he
  · cases he
    rfl

theorem not_identifier_of_root {path p : Path} {slot : String} {target : Value}
    (h : Task.Root p slot target (.node path)) : path.node.kind ≠ some "Identifier" := by
  cases h with
  | node hne => exact hne

/-- No name that is read stands before a dot or is what a call calls. -/
theorem ReadsAt.slot_not_naming {path : Path} (h : ReadsAt whitelist task path)
    (htop : ∀ p, task = .node p → p.slot = none) {slot : String} (hs : path.slot = some slot) :
    slot ∉ namingSlots := by
  rcases h.reached.cases_tail with heq | ⟨above, -, hpart⟩
  · rw [htop path heq.symm] at hs
    cases hs
  cases hpart with
  | slot _ hmem hp =>
    obtain ⟨_, _, _, rfl⟩ := hp
    cases hs
    exact not_naming_of_evaluated (.inl hmem)
  | item _ hmem _ hitem =>
    rw [slot_of_mem_ofItems hitem] at hs
    cases hs
    exact not_naming_of_evaluated (.inr hmem)
  | root _ _ hroot => exact absurd h.identifier (not_identifier_of_root hroot)
  | operand _ hcalls hmem =>
    have harguments {p : Path} {arguments : Value}
        (hitem : .node path ∈ Task.ofItems p "arguments" arguments) : slot ∉ namingSlots := by
      rw [slot_of_mem_ofItems hitem] at hs
      cases hs
      decide
    cases hcalls with
    | name => exact harguments hmem
    | ofCustom => exact harguments hmem
    | method _ _ _ hroot =>
      rcases List.mem_cons.mp hmem with rfl | hmem
      · exact absurd h.identifier (not_identifier_of_root hroot)
      · exact harguments hmem

end Semantics

namespace Whitelist

open GatedExpr.Computation Semantics

variable {whitelist : Whitelist} {ws ws' : List Warning}

/-- An evaluation sees what its tree names and no more: environments that agree on the names that
the tree reads, and on the objects that it takes from the whitelist, give the same outcome and the
same world with the same calls. No name is read that is a key, the name of a property, a root, a
receiver or a callee. -/
theorem compileTree_reads_only {id : Identity} {tree : Node} {closure : Closure}
    (h : (whitelist.compileTree (.node id tree)).run ws = (.ok closure, ws')) :
    (∀ env other, AgreeFor whitelist (.node (.root tree)) env other →
      ∀ w, (closure env).run w = (closure other).run w) ∧
    ∀ path, ReadsAt whitelist (.node (.root tree)) path →
      ¬ path.NamesItself ∧ ∀ slot, path.slot = some slot → slot ∉ namingSlots := by
  obtain ⟨_, _, he, hcompiled⟩ := (yields_compileTree whitelist _).of_run h
  cases he
  constructor
  · intro env other hagree w
    rw [hcompiled.apply_eq hagree]
  · intro path hreads
    refine ⟨hreads.notItself, fun slot hs => hreads.slot_not_naming ?_ hs⟩
    rintro _ ⟨⟩
    rfl

/-- The tree of `b.b`. -/
def sameName : Node :=
  .make "MemberExpression" none
    [("object", .node .unassigned (.make "Identifier" none [("name", .text "b")])),
      ("property", .node .unassigned (.make "Identifier" none [("name", .text "b")])),
      ("computed", .bool false)]

/-- Allows the object `b`, which is what `o` is bound to. -/
def aliasing : Whitelist :=
  { empty with objects := [("b", Accessor.fromBindings (.text "o"))] }

theorem compileTree_sameName : ∃ closure,
    (aliasing.compileTree (.node .unassigned sameName)).run [] = (.ok closure, []) := by
  let name : Node := .make "Identifier" none [("name", .text "b")]
  have hname : (aliasing.compile ((Path.root sameName).down "property" name)).run [] =
      (.ok (Closure.constant (.text "b")), []) := by
    unfold compile
    rfl
  have h : (aliasing.compile (Path.root sameName)).run [] =
      (.ok (Closure.member sameName (Accessor.fromBindings (.text "o"))
        (Closure.constant (.text "b"))), []) := by
    unfold compile
    refine run_bind_eq_ok.mpr ⟨⟨.node .unassigned name, by decide⟩, _, rfl, ?_⟩
    refine run_bind_eq_ok.mpr ⟨_, _, by unfold compilePart; exact hname, ?_⟩
    refine run_bind_eq_ok.mpr ⟨⟨.node .unassigned name, by decide⟩, _, rfl, ?_⟩
    exact run_bind_eq_ok.mpr ⟨_, _, by unfold compileRoot; rfl, rfl⟩
  exact ⟨_, h⟩

/-- The name is no binding anywhere in `b.b`. -/
theorem reaches_sameName {task : Task}
    (h : Reaches aliasing (.node (.root sameName)) task) :
    task = .node (.root sameName) ∨ task = .object "b" ∨
      ∃ path, task = .node path ∧ path.node.kind = some "Identifier" ∧ path.NamesItself := by
  induction h with
  | refl => exact .inl rfl
  | @tail above below _ hpart ih =>
    rcases ih with rfl | rfl | ⟨path, rfl, hk, _⟩
    · refine .inr ?_
      cases hpart with
      | slot hk hs hp =>
        cases hk
        simp only [partSlots, List.mem_singleton] at hs
        subst hs
        obtain ⟨_, _, hf, rfl⟩ := hp
        cases hf
        exact .inr ⟨_, rfl, rfl, _, rfl, .inr ⟨rfl, rfl, .bool false, rfl, rfl⟩⟩
      | item hk hs =>
        cases hk
        simp [listSlots] at hs
      | root _ ho hroot =>
        cases ho
        cases hroot with
        | object _ hn =>
          cases hn
          exact .inl rfl
        | node hne => exact absurd rfl hne
      | operand hk => exact absurd hk (by decide)
    · cases hpart
    · cases hpart with
      | slot hk' hs =>
        cases hk.symm.trans hk'
        simp [partSlots] at hs
      | item hk' hs =>
        cases hk.symm.trans hk'
        simp [listSlots] at hs
      | root hk' => exact absurd (hk.symm.trans hk') (by decide)
      | operand hk' => exact absurd (hk.symm.trans hk') (by decide)

theorem agreeFor_sameName (v v' : Value) :
    let held := Value.map 7 [("b", .text "held")]
    AgreeFor aliasing (.node (.root sameName))
      { bindings := [("b", v), ("o", held)], options := [] }
      { bindings := [("o", held), ("b", v')], options := [.null] } where
  bindings := by
    rintro name ⟨path, hreads, -⟩
    rcases reaches_sameName hreads.reached with h | h | ⟨_, h, -, hself⟩
    · cases h
      exact absurd hreads.identifier (by decide)
    · cases h
    · cases h
      exact absurd hself hreads.notItself
  objects := by
    intro name accessor hreached hl
    rcases reaches_sameName hreached with h | h | ⟨_, h, -⟩
    · cases h
    · cases h
      cases hl
      rfl
    · cases h

theorem compileTree_reads_only_sameName : ∃ closure,
    (aliasing.compileTree (.node .unassigned sameName)).run [] = (.ok closure, []) ∧
      let held := Value.map 7 [("b", .text "held")]
      ∀ w, (closure { bindings := [("b", .text "x"), ("o", held)], options := [] }).run w =
        (closure { bindings := [("o", held), ("b", .text "y")], options := [.null] }).run w := by
  obtain ⟨closure, h⟩ := compileTree_sameName
  exact ⟨closure, h, (compileTree_reads_only h).1 _ _ (agreeFor_sameName _ _)⟩

end Whitelist

end GatedExpr
