import Mathlib.Order.Basic
import GatedExpr.Proofs.Grammar.History

/-! # Isolation of derived grammars

What is registered on a derived grammar never reaches its parent. What is registered on the parent
reaches the derived grammar in one case only: where a reference that the parent made, and that was
inherited, finds no rule of its name in the derived grammar, it is looked up in the parent.
-/

namespace GatedExpr.Family

/-- Runs the rule that a grammar has under a name, if it has one. -/
def runNamed (family : Family) (id : GrammarId) (kind : String) (cursor : Cursor) :
    Option (Outcome Value × Cursor) :=
  (family.rule? id kind).map (family.runRule id · cursor)

/-- The family with no rules in the grammar at a place. -/
def forget (family : Family) (id : GrammarId) : Family :=
  { grammars := family.grammars.modify id fun grammar => { grammar with rules := [] } }

/-- The run of a rule breaks off at a reference that leads to no rule. -/
def Strays (family : Family) (id : GrammarId) (kind : String) (cursor : Cursor) : Prop :=
  ∃ missing next, family.runNamed id kind cursor = some (.broken (.unknownRule missing), next)

/-- The first grammars have no references that were made by later ones. -/
def ClosedBelow (family : Family) (count : Nat) : Prop :=
  ∀ ⦃id grammar⦄, id < count → family.get? id = some grammar →
    ∀ entry ∈ grammar.rules, ∀ reference ∈ entry.2.references, reference.1 < count

/-- The rule of a grammar runs from the cursor as it did before, and so does a parse with it if
the cursor is at the start of a source. -/
def Unaffected (before after : Family) (id : GrammarId) (kind : String) (cursor : Cursor) : Prop :=
  after.runNamed id kind cursor = before.runNamed id kind cursor ∧
    ∀ source, cursor = .start source 0 → after.parse id source kind = before.parse id source kind

variable {family before after : Family} {id other active owner home parent : GrammarId}
  {kind : String} {cursor : Cursor} {descriptor : Descriptor} {grammar : Grammar} {count : Nat}

/-! ## Looking rules up -/

theorem rule?_congr (h : after.get? id = before.get? id) (kind : String) :
    after.rule? id kind = before.rule? id kind := by
  rw [rule?, rule?, h]

theorem mem_rules_of_rule? (h : family.rule? id kind = some descriptor) :
    ∃ grammar, family.get? id = some grammar ∧ (kind, descriptor) ∈ grammar.rules := by
  obtain ⟨grammar, hg, hl⟩ := Option.bind_eq_some_iff.mp h
  exact ⟨grammar, hg, Table.mem_of_lookup hl⟩

/-- A reference leads to a rule of the active grammar, or else of the one that made it. -/
theorem resolve?_cases
    (h : family.resolve? (some active) owner kind = some (home, descriptor)) :
    home = active ∧ family.rule? active kind = some descriptor ∨
      home = owner ∧ family.rule? active kind = none ∧ family.rule? owner kind = some descriptor := by
  simp only [resolve?, Option.getD_some] at h
  split at h
  · next hr =>
    cases h
    exact .inl ⟨rfl, hr⟩
  · next hno =>
    obtain ⟨found, hr, he⟩ := Option.map_eq_some_iff.mp h
    cases he
    exact .inr ⟨rfl, hno, hr⟩

theorem resolve?_congr (hactive : after.rule? active kind = before.rule? active kind)
    (howner : after.rule? owner kind = before.rule? owner kind) :
    after.resolve? (some active) owner kind = before.resolve? (some active) owner kind := by
  simp only [resolve?, Option.getD_some, hactive, howner]

theorem references_lt (h : family.ClosedBelow count) (hid : id < count)
    (hr : family.rule? id kind = some descriptor) :
    ∀ owner kind, (owner, kind) ∈ descriptor.references → owner < count := by
  obtain ⟨grammar, hg, hm⟩ := mem_rules_of_rule? hr
  exact fun _ _ href => h hid hg _ hm _ href

theorem get?_forget (family : Family) (id other : GrammarId) :
    (family.forget id).get? other =
      if other = id then (family.get? id).map fun grammar => { grammar with rules := [] }
      else family.get? other := by
  simp only [get?, forget, List.getElem?_modify]
  by_cases h : other = id
  · rw [if_pos h, h]
    simp
  · rw [if_neg h]
    simp [Ne.symm h]

theorem rule?_forget_self : (family.forget id).rule? id kind = none := by
  rw [rule?, get?_forget, if_pos rfl]
  cases family.get? id <;> rfl

theorem rule?_forget_of_ne (h : other ≠ id) :
    (family.forget id).rule? other kind = family.rule? other kind :=
  rule?_congr (by rw [get?_forget, if_neg h]) kind

/-! ## Runs that are not affected -/

/-- A parse depends on the grammar and on the run of its rule only. -/
theorem parse_congr {source : List Char} (h : before.WellFormed)
    (hget : after.get? id = before.get? id)
    (hrun : ∀ descriptor, before.rule? id kind = some descriptor →
      after.runRule id descriptor (.start source 0) =
        before.runRule id descriptor (.start source 0)) :
    after.parse id source kind = before.parse id source kind := by
  rw [parse, parse, parseKeeping, parseKeeping, hget]
  cases hg : before.get? id with
  | none => rfl
  | some grammar =>
    cases hl : grammar.rules.lookup kind with
    | none => simp only [hl]
    | some descriptor =>
      simp only [hl]
      rw [hrun descriptor (by rw [rule?, hg]; exact hl)]
      obtain ⟨kept, hk⟩ := (h hg).2.exists_pattern .blanks
      have hblanks : ∀ cursor, after.runMatcher (.pattern kept) cursor =
          before.runMatcher (.pattern kept) cursor := by
        intro cursor
        rw [runMatcher, runMatcher, Matcher.run, Matcher.run]
      split <;> simp only [hk, hblanks]

theorem unaffected_of_runRule (h : before.WellFormed) (hget : after.get? id = before.get? id)
    (hrun : ∀ descriptor, before.rule? id kind = some descriptor →
      after.runRule id descriptor cursor = before.runRule id descriptor cursor) :
    Unaffected before after id kind cursor := by
  constructor
  · rw [runNamed, runNamed, rule?_congr hget]
    exact Option.map_congr fun descriptor hd => hrun descriptor hd
  · rintro source rfl
    exact parse_congr h hget hrun

/-- If the first grammars refer to one another only, they run alike wherever they are the
same. -/
theorem runRule_of_closedBelow (h : before.ClosedBelow count)
    (hget : ∀ other < count, after.get? other = before.get? other) (hid : id < count)
    (hr : before.rule? id kind = some descriptor) (cursor : Cursor) :
    after.runRule id descriptor cursor = before.runRule id descriptor cursor := by
  have hrule {other : GrammarId} (hlt : other < count) (kind : String) :
      after.rule? other kind = before.rule? other kind := rule?_congr (hget other hlt) kind
  refine runRule_congr (S := fun active owner _ => active < count ∧ owner < count)
    (fun ⟨hactive, howner⟩ => resolve?_congr (hrule hactive _) (hrule howner _))
    (fun ⟨hactive, howner⟩ hres => ?_)
    (fun owner kind hm => ⟨hid, references_lt h hid hr owner kind hm⟩) cursor
  rcases resolve?_cases hres with ⟨rfl, hd⟩ | ⟨rfl, _, hd⟩
  · exact fun owner kind hm => ⟨hactive, references_lt h hactive hd owner kind hm⟩
  · exact fun owner kind hm => ⟨howner, references_lt h howner hd owner kind hm⟩

/-- A run that does not stray without the rules of a grammar never looks at them. -/
theorem agree_forget (hget : ∀ other, other ≠ parent → after.get? other = before.get? other)
    (hid : id ≠ parent) (descriptor : Descriptor) (cursor : Cursor) :
    AgreeUnless (fun fault => ∃ kind, fault = .unknownRule kind)
      ((before.forget parent).runRule id descriptor cursor)
      (after.runRule id descriptor cursor) := by
  have hrule {other : GrammarId} (hne : other ≠ parent) (kind : String) :
      after.rule? other kind = (before.forget parent).rule? other kind :=
    (rule?_congr (hget other hne) kind).trans (rule?_forget_of_ne hne).symm
  have hsame (descriptor : Descriptor) : descriptor.redirect (fun owner => owner) = descriptor :=
    descriptor.redirect_id
  have halike : LeadAlike (before.forget parent) after (fun owner => owner)
      (fun fault => ∃ kind, fault = .unknownRule kind) (fun active _ _ => active ≠ parent) := by
    refine ⟨fun {active owner kind home descriptor} hactive hres => ?_,
      fun _ _ => .inl ⟨_, rfl⟩⟩
    rw [hsame]
    rcases resolve?_cases hres with ⟨rfl, hd⟩ | ⟨rfl, hno, hd⟩
    · refine ⟨?_, fun _ _ _ => hactive⟩
      simp only [resolve?, Option.getD_some, hrule hactive, hd]
    · have hhome : home ≠ parent := by
        rintro rfl
        rw [rule?_forget_self] at hd
        cases hd
      refine ⟨?_, fun _ _ _ => hhome⟩
      simp only [resolve?, Option.getD_some, hrule hactive, hno, hrule hhome, hd, Option.map_some]
  have h : AgreeUnless _ ((before.forget parent).runRule id descriptor cursor) _ :=
    halike.agree_runRule (fun _ _ _ => hid) cursor
  rwa [hsame] at h

/-- What happens to one grammar leaves the runs of another one alone that do not stray without
the rules of the first one. -/
theorem unaffected_of_not_strays (hw : before.WellFormed)
    (hget : ∀ other, other ≠ parent → after.get? other = before.get? other) (hid : id ≠ parent)
    (hs : ¬ (before.forget parent).Strays id kind cursor) :
    Unaffected before after id kind cursor := by
  refine unaffected_of_runRule hw (hget id hid) fun descriptor hr => ?_
  have hnot : ∀ fault, ((before.forget parent).runRule id descriptor cursor).1 = .broken fault →
      ¬ ∃ kind, fault = .unknownRule kind := by
    rintro _ hb ⟨missing, rfl⟩
    refine hs ⟨missing, ((before.forget parent).runRule id descriptor cursor).2, ?_⟩
    rw [runNamed, rule?_forget_of_ne hid, hr, Option.map_some]
    exact congrArg some (Prod.ext hb rfl)
  have hafter := (agree_forget hget hid descriptor cursor).eq_of_not hnot
  have hbefore := (agree_forget (fun _ _ => rfl) hid descriptor cursor).eq_of_not hnot
  exact hafter.trans hbefore.symm

/-! ## Parents and children -/

theorem get?_derived (family : Family) (grammar : Grammar) (id : GrammarId) :
    (family.derived grammar).get? id =
      if id = family.grammars.length then some (Grammar.derive id grammar) else family.get? id :=
  get?_add _ id

/-- At first the other grammars have no references that were made by a derived one. -/
theorem closedBelow_derived (hw : family.WellFormed) (grammar : Grammar) :
    (family.derived grammar).ClosedBelow family.grammars.length := by
  intro id found hid hg entry he reference hr
  rw [get?_derived, if_neg (Nat.ne_of_lt hid)] at hg
  exact (hw hg).2.owned entry he reference hr

/-- At first a derived grammar has the rules of its parent. -/
theorem rule?_derived (hp : family.get? parent = some grammar) (kind : String) :
    (family.derived grammar).rule? family.grammars.length kind =
      (family.derived grammar).rule? parent kind := by
  rw [rule?, rule?, get?_derived, get?_derived, if_pos rfl,
    if_neg (Nat.ne_of_lt (lt_of_get? hp)), hp, Option.bind_some, Option.bind_some,
    (Grammar.derive_eq _ _).2.1]

/-- If neither the parent nor any grammar before it refers to later ones, a derived grammar does
not need the rules of its parent at first. -/
theorem runNamed_forget_derived (hp : family.get? parent = some grammar)
    (hparent : (family.derived grammar).ClosedBelow (parent + 1))
    (helders : (family.derived grammar).ClosedBelow parent) (kind : String) (cursor : Cursor) :
    ((family.derived grammar).forget parent).runNamed family.grammars.length kind cursor =
      (family.derived grammar).runNamed family.grammars.length kind cursor := by
  have hlt := lt_of_get? hp
  have hchild : family.grammars.length ≠ parent := Nat.ne_of_gt hlt
  have hinherited {kind : String} {descriptor : Descriptor}
      (hr : (family.derived grammar).rule? family.grammars.length kind = some descriptor) :
      ∀ owner kind, (owner, kind) ∈ descriptor.references → owner ≤ parent := by
    intro owner kind hm
    rw [rule?_derived hp] at hr
    exact Nat.lt_succ_iff.mp (references_lt hparent (Nat.lt_succ_self _) hr owner kind hm)
  rw [runNamed, runNamed, rule?_forget_of_ne hchild]
  refine Option.map_congr fun descriptor hr => ?_
  refine runRule_congr
    (S := fun active owner _ =>
      active = family.grammars.length ∧ owner ≤ parent ∨ active < parent ∧ owner < parent)
    (fun {active owner kind} hs => ?_) (fun hs hres => ?_)
    (fun owner kind hm => .inl ⟨rfl, hinherited hr owner kind hm⟩) cursor
  · rcases hs with ⟨rfl, howner⟩ | ⟨hactive, howner⟩
    · rcases Nat.lt_or_eq_of_le howner with howner | rfl
      · exact resolve?_congr (rule?_forget_of_ne hchild) (rule?_forget_of_ne (Nat.ne_of_lt howner))
      · simp only [resolve?, Option.getD_some, rule?_forget_of_ne hchild, rule?_forget_self,
          ← rule?_derived hp]
        split
        · rfl
        · next hno => rw [hno]
    · exact resolve?_congr (rule?_forget_of_ne (Nat.ne_of_lt hactive))
        (rule?_forget_of_ne (Nat.ne_of_lt howner))
  · rcases hs with ⟨rfl, howner⟩ | ⟨hactive, howner⟩
    · rcases resolve?_cases hres with ⟨rfl, hd⟩ | ⟨rfl, hno, hd⟩
      · exact fun owner kind hm => .inl ⟨rfl, hinherited hd owner kind hm⟩
      · rcases Nat.lt_or_eq_of_le howner with howner | rfl
        · exact fun owner kind hm => .inr ⟨howner, references_lt helders howner hd owner kind hm⟩
        · rw [rule?_derived hp, hd] at hno
          cases hno
    · rcases resolve?_cases hres with ⟨rfl, hd⟩ | ⟨rfl, _, hd⟩
      · exact fun owner kind hm => .inr ⟨hactive, references_lt helders hactive hd owner kind hm⟩
      · exact fun owner kind hm => .inr ⟨howner, references_lt helders howner hd owner kind hm⟩

/-- What happens to a derived grammar leaves its parent alone, as long as the parent and the
grammars before the derived one have no references that were made by it or later ones. What
happens to the parent leaves the runs of the derived grammar alone that do not stray without the
rules of the parent. At first nobody has references of the derived grammar, and unless somebody
refers to later grammars, runs of the derived grammar do without the rules of the parent. -/
theorem derivation_isolates {child : GrammarId} {derived : Family} (h : family.Arises)
    (hp : family.get? parent = some grammar)
    (hd : family.add (Grammar.derive · grammar) = (child, derived)) :
    (∀ now, derived.Evolves now →
      (now.ClosedBelow child → ∀ edits kind cursor,
        Unaffected now (now.editAll child edits) parent kind cursor) ∧
      ∀ edits kind cursor, ¬ (now.forget parent).Strays child kind cursor →
        Unaffected now (now.editAll parent edits) child kind cursor) ∧
    derived.ClosedBelow child ∧
    (derived.ClosedBelow (parent + 1) → derived.ClosedBelow parent → ∀ kind cursor,
      (derived.forget parent).runNamed child kind cursor =
        derived.runNamed child kind cursor) := by
  cases hd
  have hlt := lt_of_get? hp
  have hderived : (family.derived grammar).WellFormed := h.wellFormed.step (.derive hp)
  refine ⟨fun now hnow => ?_, closedBelow_derived h.wellFormed grammar,
    runNamed_forget_derived hp⟩
  have hw := hderived.evolves hnow
  constructor
  · intro hclosed edits kind cursor
    have hget : ∀ other < family.grammars.length,
        (now.editAll family.grammars.length edits).get? other = now.get? other :=
      fun other hother => get?_editAll_of_ne hw.placed edits (Nat.ne_of_lt hother)
    exact unaffected_of_runRule hw (hget parent hlt) fun descriptor hr =>
      runRule_of_closedBelow hclosed hget hlt hr cursor
  · intro edits kind cursor hs
    exact unaffected_of_not_strays hw
      (fun other hne => get?_editAll_of_ne hw.placed edits hne) (Nat.ne_of_gt hlt) hs

/-- A grammar of lists and one that is derived from it: neither sees what becomes an atom of the
other one. -/
theorem derivation_isolates_lists : ∃ grammar child derived, lists.get? 0 = some grammar ∧
    lists.add (Grammar.derive · grammar) = (child, derived) ∧
      Unaffected derived (derived.editAll child [.register (atom "b")]) 0 "List"
        (.start "ab".toList 0) ∧
      Unaffected derived (derived.editAll 0 [.register (atom "b")]) child "List"
        (.start "ab".toList 0) := by
  obtain ⟨grammar, hg⟩ : ∃ grammar, lists.get? 0 = some grammar := ⟨_, rfl⟩
  refine ⟨grammar, _, _, hg, rfl, ?_⟩
  obtain ⟨hnow, hclosed, hforget⟩ := derivation_isolates arises_lists hg rfl
  obtain ⟨hchild, hparent⟩ := hnow _ .refl
  refine ⟨hchild hclosed _ _ _, hparent _ _ _ ?_⟩
  rintro ⟨missing, next, hs⟩
  rw [hforget hclosed (fun _ _ hid => absurd hid (Nat.not_lt_zero _))] at hs
  have hmatched : ((lists.add (Grammar.derive · grammar)).2.runNamed 1 "List"
      (.start "ab".toList 0)).map (fun run => run.1.ctorIdx) =
        some (Outcome.matched Value.null).ctorIdx := by
    cases hg
    decide +kernel
  have hs' : (lists.add (Grammar.derive · grammar)).2.runNamed 1 "List" (.start "ab".toList 0) =
      some (.broken (.unknownRule missing), next) := hs
  rw [hs'] at hmatched
  cases hmatched

/-- A reference that leads to no rule in a derived grammar finds what is registered on the parent
later. -/
example :
    let derived := (lists.edit 0 (.register (synonym "Use" "Word"))).derived
      (((lists.edit 0 (.register (synonym "Use" "Word"))).get? 0).getD (.empty 0))
    let word : Grammar.Edit := .register { atom "a" with kind := "Word" }
    (derived.runNamed 1 "Use" (.start "a".toList 0)).map (fun run => run.2.position) = some 0 ∧
      ((derived.edit 0 word).runNamed 1 "Use" (.start "a".toList 0)).map
        (fun run => run.2.position) = some 1 := by
  decide +kernel

end GatedExpr.Family
