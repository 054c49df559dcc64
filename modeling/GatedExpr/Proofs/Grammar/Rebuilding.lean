import GatedExpr.Proofs.Grammar.Derivation

/-! # Rebuilding of derived grammars

However a grammar came about, if each reference in its rules names one of its own rules, then
these are the rules that all references lead to while one of them runs. So nothing changes if the
grammar is built from scratch, out of the same rules with references of its own.
-/

namespace GatedExpr

/-! ## Rebuilding -/

namespace Grammar

/-- A fresh grammar with the same rules, in which all references are its own. -/
def rebuilt (grammar : Grammar) (id : GrammarId) : Grammar :=
  (grammar.rules.map fun entry => entry.2.redirect fun _ => id).foldl register (empty id)

/-- Each reference in the rules of a grammar names one of them. -/
def Closed (grammar : Grammar) : Prop :=
  ∀ entry ∈ grammar.rules, ∀ reference ∈ entry.2.references, grammar.hasRule reference.2 = true

variable {grammar : Grammar} {count : Nat}

/-- Rules of different names are found under these names once all of them are registered. -/
theorem lookup_register (descriptors : List Descriptor) (kind : String) (start : Grammar)
    (h : (descriptors.map (·.kind)).Nodup) :
    (descriptors.foldl register start).rules.lookup kind =
      ((descriptors.map fun descriptor => (descriptor.kind, descriptor)).lookup kind).or
        (start.rules.lookup kind) := by
  induction descriptors generalizing start with
  | nil => rfl
  | cons descriptor descriptors ih =>
    obtain ⟨hnot, hrest⟩ := List.nodup_cons.mp h
    rw [List.foldl_cons, ih _ hrest, register, Table.lookup_set, List.map_cons, List.lookup_cons]
    by_cases hk : kind = descriptor.kind
    · subst hk
      have hnone : (descriptors.map fun descriptor => (descriptor.kind, descriptor)).lookup
          descriptor.kind = none := by
        rw [List.lookup_eq_none_iff]
        intro entry he
        obtain ⟨other, ho, rfl⟩ := List.mem_map.mp he
        exact bne_iff_ne.mpr fun hsame => hnot (List.mem_map.mpr ⟨other, ho, hsame.symm⟩)
      simp [hnone]
    · rw [beq_false_of_ne hk, if_neg hk]

/-- The rules of a grammar are found again after rebuilding it, with references of their own. -/
theorem lookup_rebuilt (h : grammar.Sound count) (id : GrammarId) (kind : String) :
    (grammar.rebuilt id).rules.lookup kind =
      (grammar.rules.lookup kind).map (Descriptor.redirect fun _ => id) := by
  have hkinds : ∀ entries : List (String × Descriptor),
      (∀ entry ∈ entries, entry.2.kind = entry.1) →
      ((entries.map fun entry => entry.2.redirect fun _ => id).map fun descriptor =>
          (descriptor.kind, descriptor)).lookup kind =
        (entries.lookup kind).map (Descriptor.redirect fun _ => id) := by
    intro entries hnamed
    induction entries with
    | nil => rfl
    | cons entry entries ih =>
      have hname : entry.2.kind = entry.1 := hnamed entry List.mem_cons_self
      have hkind : (entry.2.redirect fun _ => id).kind = entry.1 := hname
      rw [List.map_cons, List.map_cons, hkind, List.lookup_cons, List.lookup_cons,
        ih fun entry he => hnamed entry (List.mem_cons_of_mem _ he)]
      cases kind == entry.1 <;> rfl
  have hdistinct : ((grammar.rules.map fun entry => entry.2.redirect fun _ => id).map
      (·.kind)).Nodup := by
    have hsame : (grammar.rules.map fun entry => entry.2.redirect fun _ => id).map (·.kind) =
        grammar.rules.map (·.1) := by
      rw [List.map_map]
      exact List.map_congr_left h.named
    exact hsame ▸ h.distinct
  rw [rebuilt, lookup_register _ _ _ hdistinct, hkinds _ h.named]
  exact Option.or_none

end Grammar

/-! ## References met -/

namespace Family

/-- The references that may be met while a rule of the grammar `id` runs, at any depth: which
grammar is the active one there, which one made the reference, and which rule it names. -/
inductive Meets (family : Family) (id : GrammarId) : GrammarId → GrammarId → String → Prop where

  | inRule {kind : String} {descriptor : Descriptor} {owner : GrammarId} {target : String} :
      family.rule? id kind = some descriptor → (owner, target) ∈ descriptor.references →
      Meets family id id owner target

  | inTarget {active owner home next : GrammarId} {kind target : String}
      {descriptor : Descriptor} :
      Meets family id active owner kind →
      family.resolve? (some active) owner kind = some (home, descriptor) →
      (next, target) ∈ descriptor.references → Meets family id home next target

variable {family extended : Family} {id new active owner : GrammarId} {grammar : Grammar}
  {kind : String}

/-- References that name a rule of the grammar lead to that rule. -/
theorem resolve?_of_closed (hg : family.get? id = some grammar) (h : grammar.hasRule kind = true)
    (owner : GrammarId) : ∃ descriptor, family.rule? id kind = some descriptor ∧
      family.resolve? (some id) owner kind = some (id, descriptor) := by
  obtain ⟨descriptor, hl⟩ := Option.isSome_iff_exists.mp h
  have hr : family.rule? id kind = some descriptor := by rw [rule?, hg, Option.bind_some, hl]
  exact ⟨descriptor, hr, by simp only [resolve?, Option.getD_some, hr]⟩

/-- What a rule refers to is there. -/
theorem hasRule_of_closed (hg : family.get? id = some grammar) (hclosed : grammar.Closed)
    {descriptor : Descriptor} (hr : family.rule? id kind = some descriptor) {target : String}
    (hm : (owner, target) ∈ descriptor.references) : grammar.hasRule target = true := by
  obtain ⟨found, hfound, hentry⟩ := mem_rules_of_rule? hr
  cases hg.symm.trans hfound
  exact hclosed _ hentry _ hm

/-- While a rule runs, its grammar stays the active one, and there are only references that name
one of its rules. -/
theorem Meets.active_eq (hg : family.get? id = some grammar) (hclosed : grammar.Closed)
    (h : family.Meets id active owner kind) : active = id ∧ grammar.hasRule kind = true := by
  induction h with
  | inRule hr hm => exact ⟨rfl, hasRule_of_closed hg hclosed hr hm⟩
  | inTarget _ hres hm ih =>
    obtain ⟨rfl, hkind⟩ := ih
    obtain ⟨descriptor, hr, hown⟩ := resolve?_of_closed hg hkind _
    cases hown.symm.trans hres
    exact ⟨rfl, hasRule_of_closed hg hclosed hr hm⟩

theorem rule?_rebuilt (hw : family.WellFormed) (hg : family.get? id = some grammar)
    (hadd : family.add grammar.rebuilt = (new, extended)) (kind : String) :
    extended.rule? new kind = (family.rule? id kind).map (Descriptor.redirect fun _ => new) := by
  cases hadd
  have hnew : (family.add grammar.rebuilt).2.get? family.grammars.length =
      some (grammar.rebuilt family.grammars.length) := (get?_add _ _).trans (if_pos rfl)
  change ((family.add grammar.rebuilt).2.get? _).bind (·.rules.lookup kind) = _
  rw [hnew, rule?, hg, Option.bind_some, Option.bind_some, Grammar.lookup_rebuilt (hw hg).2]

/-- Whatever was registered on it and on the grammars that it was derived from: if each reference
in the rules of a grammar names one of them, then these run as they do in a fresh grammar that is
built out of them with references of its own, and each reference that is met leads to the rule
that the grammar has now. -/
theorem rebuilding_changes_nothing (h : family.Arises) (hg : family.get? id = some grammar)
    (hclosed : grammar.Closed) (hadd : family.add grammar.rebuilt = (new, extended)) :
    (∀ kind cursor, extended.runNamed new kind cursor = family.runNamed id kind cursor) ∧
      ∀ active owner kind, family.Meets id active owner kind →
        ∃ descriptor, family.rule? id kind = some descriptor ∧
          family.resolve? (some active) owner kind = some (id, descriptor) := by
  have hrule := rule?_rebuilt h.wellFormed hg hadd
  constructor
  · intro kind cursor
    rw [runNamed, runNamed, hrule, Option.map_map]
    refine Option.map_congr fun descriptor hr => ?_
    have halike : LeadAlike family extended (fun _ => new) (fun _ => False)
        (family.Meets id) := by
      refine ⟨fun hmet hres => ⟨?_, ?_⟩, fun hmet hres => ?_⟩
      · -- a reference that is met leads to a rule of the grammar, which has its copy
        obtain ⟨rfl, hkind⟩ := hmet.active_eq hg hclosed
        obtain ⟨found, hfound, hown⟩ := resolve?_of_closed hg hkind _
        cases hown.symm.trans hres
        simp only [resolve?, Option.getD_some, hrule, hfound, Option.map_some]
      · exact fun owner kind hm => .inTarget hmet hres hm
      · -- no reference that is met leads nowhere
        obtain ⟨rfl, hkind⟩ := hmet.active_eq hg hclosed
        obtain ⟨found, _, hown⟩ := resolve?_of_closed hg hkind _
        cases hown.symm.trans hres
    exact (halike.agree_runRule (fun owner kind hm => .inRule hr hm) cursor).eq_of_never
  · intro active owner kind hmet
    obtain ⟨rfl, hkind⟩ := hmet.active_eq hg hclosed
    exact resolve?_of_closed hg hkind owner

/-- The family with one more grammar, which is derived from the one at a place. -/
def derivedFrom (family : Family) (id : GrammarId) : Family :=
  family.derived ((family.get? id).getD (.empty id))

theorem step_derivedFrom (hg : family.get? id = some grammar) :
    Step family (family.derivedFrom id) := by
  rw [derivedFrom, hg]
  exact .derive hg

/-- A grammar of lists that is derived twice, with another atom in the last one. -/
def otherLists : Family :=
  ((lists.derivedFrom 0).derivedFrom 1).edit 2 (.register (atom "b"))

theorem arises_otherLists : otherLists.Arises := by
  have hone : Arises (lists.derivedFrom 0) := arises_lists.tail (step_derivedFrom rfl)
  have htwo : Arises ((lists.derivedFrom 0).derivedFrom 1) := hone.tail (step_derivedFrom rfl)
  refine htwo.tail (.edit ?_)
  nofun

theorem rebuilding_changes_nothing_otherLists : ∃ grammar new extended,
    otherLists.get? 2 = some grammar ∧ grammar.Closed ∧
      otherLists.add grammar.rebuilt = (new, extended) ∧
      (∀ kind cursor, extended.runNamed new kind cursor = otherLists.runNamed 2 kind cursor) ∧
      ∀ active owner kind, otherLists.Meets 2 active owner kind →
        ∃ descriptor, otherLists.rule? 2 kind = some descriptor ∧
          otherLists.resolve? (some active) owner kind = some (2, descriptor) := by
  obtain ⟨grammar, hg⟩ : ∃ grammar, otherLists.get? 2 = some grammar := ⟨_, rfl⟩
  have hclosed : grammar.Closed := by
    cases hg
    unfold Grammar.Closed
    decide +kernel
  exact ⟨grammar, _, _, hg, hclosed, rfl, rebuilding_changes_nothing arises_otherLists hg hclosed rfl⟩

end Family

end GatedExpr
