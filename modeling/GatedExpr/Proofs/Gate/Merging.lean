import GatedExpr.Proofs.Expr.WellFormed
import GatedExpr.Proofs.Gate.Inquiry
import GatedExpr.Proofs.Grammar.History
import GatedExpr.Proofs.Grammar.Reparsing

/-! # Merging whitelists

A merged whitelist allows what either of its parts allows, and the later part wins. Which
signatures calls have depends on the custom objects, so merging only widens what is permitted if it
adds none. Sources then compile as before, and to the same closures unless the later part has a say
in something that they ask for. In what order three whitelists are merged makes no difference.
-/

namespace GatedExpr

/-! ## Tables -/

namespace Table

variable {α : Type} {name : String} {left right entries : List (String × α)}

/-- The last entry of the later table decides, and the earlier table where there is none. -/
theorem lookup_merge (left right : List (String × α)) (name : String) :
    (merge left right).lookup name = (right.reverse.lookup name).or (left.lookup name) := by
  induction right generalizing left with
  | nil => rfl
  | cons entry right ih =>
    obtain ⟨other, value⟩ := entry
    have hmerge : merge left ((other, value) :: right) = merge (set other value left) right := rfl
    rw [hmerge, ih, List.reverse_cons, List.lookup_append, Option.or_assoc, lookup_set]
    by_cases h : name = other
    · simp [h]
    · simp [h, List.lookup_cons, beq_false_of_ne h]

theorem lookup_eq_none_iff : entries.lookup name = none ↔ name ∉ entries.map Prod.fst := by
  refine ⟨not_mem_keys_of_lookup, fun hnot => ?_⟩
  cases h : entries.lookup name with
  | none => rfl
  | some found => exact absurd (mem_keys_of_lookup h) hnot

theorem lookup_reverse_eq_none_iff :
    entries.reverse.lookup name = none ↔ name ∉ entries.map Prod.fst := by
  rw [lookup_eq_none_iff, List.map_reverse, List.mem_reverse]

theorem lookup_reverse (h : (entries.map Prod.fst).Nodup) (name : String) :
    entries.reverse.lookup name = entries.lookup name := by
  induction entries with
  | nil => rfl
  | cons entry entries ih =>
    obtain ⟨other, value⟩ := entry
    obtain ⟨hnot, hrest⟩ := List.nodup_cons.mp h
    rw [List.reverse_cons, List.lookup_append, ih hrest, List.lookup_cons]
    by_cases hname : name = other
    · subst hname
      simp [lookup_eq_none_iff.mpr hnot]
    · simp [List.lookup_cons, beq_false_of_ne hname]

theorem nodup_names_merge (h : (left.map Prod.fst).Nodup) (right : List (String × α)) :
    ((merge left right).map Prod.fst).Nodup := by
  induction right generalizing left with
  | nil => exact h
  | cons entry right ih => exact ih (nodup_names_set h)

theorem mem_names_merge :
    name ∈ (merge left right).map Prod.fst ↔
      name ∈ left.map Prod.fst ∨ name ∈ right.map Prod.fst := by
  rw [← not_iff_not, not_or, ← lookup_eq_none_iff, ← lookup_eq_none_iff,
    ← lookup_reverse_eq_none_iff, lookup_merge, Option.or_eq_none_iff, and_comm]

/-- A table that does not have the name leaves its entry as it is. -/
theorem lookup_merge_of_not_mem (left : List (String × α)) (h : name ∉ right.map Prod.fst) :
    (merge left right).lookup name = left.lookup name := by
  rw [lookup_merge, lookup_reverse_eq_none_iff.mpr h, Option.none_or]

theorem lookup_merge_assoc (first last : List (String × α)) {middle : List (String × α)}
    (h : (middle.map Prod.fst).Nodup) (name : String) :
    (merge (merge first middle) last).lookup name =
      (merge first (merge middle last)).lookup name := by
  rw [lookup_merge, lookup_merge, lookup_merge first, lookup_reverse (nodup_names_merge h last),
    lookup_merge middle, lookup_reverse h, Option.or_assoc]

end Table

namespace Gate

variable {α : Type} {table other : List (String × α)} {name : Value}

theorem find?_congr (h : ∀ s, name = .text s → table.lookup s = other.lookup s) :
    find? table name = find? other name := by
  unfold find?
  split
  · rw [h _ rfl]
  · rfl

theorem find?_merge (h : ∀ s, name = .text s → s ∉ other.map Prod.fst) :
    find? (Table.merge table other) name = find? table name :=
  find?_congr fun s hs => Table.lookup_merge_of_not_mem table (h s hs)

end Gate

namespace Whitelist

variable {whitelist narrow wide left right : Whitelist} {e : Expr} {s : String}

/-- The tables of a whitelist stand for mappings, which have every name once. -/
structure NamesOnce (whitelist : Whitelist) : Prop where
  objects : (whitelist.objects.map Prod.fst).Nodup
  callees : (whitelist.callees.map Prod.fst).Nodup

/-- What is merged into a mapping leaves it one. -/
theorem NamesOnce.merged (h : left.NamesOnce) (right : Whitelist) :
    (left.merged right).NamesOnce where
  objects := Table.nodup_names_merge h.objects right.objects
  callees := Table.nodup_names_merge h.callees right.callees

theorem text_mem_distinct {values : List Value} : .text s ∈ distinct values ↔ .text s ∈ values := by
  have hkept (kept : List Value) :
      .text s ∈ values.foldl (fun kept v => if v.isAmong kept then kept else kept ++ [v]) kept ↔
        .text s ∈ kept ∨ .text s ∈ values := by
    induction values generalizing kept with
    | nil => simp
    | cons v values ih =>
      rw [List.foldl_cons, ih, List.mem_cons, ← or_assoc]
      refine or_congr_left ?_
      split
      · next hv =>
        refine ⟨.inl, fun h => h.elim id ?_⟩
        rintro rfl
        exact Value.isAmong_text.mp hv
      · rw [List.mem_append, List.mem_singleton]
  rw [distinct, hkept]
  simp

theorem hasCustom_merged :
    (left.merged right).HasCustom s ↔ left.HasCustom s ∨ right.HasCustom s :=
  text_mem_distinct.trans List.mem_append

/-! ## Widening -/

/-- The wide whitelist allows what the narrow one allows, and calls have the same signatures. -/
structure Widens (narrow wide : Whitelist) : Prop where
  objects : ∀ s, narrow.AllowsObject s → wide.AllowsObject s
  calls : ∀ s, narrow.AllowsCall s → wide.AllowsCall s
  custom : ∀ s, wide.HasCustom s ↔ narrow.HasCustom s

mutual

/-- What the narrow whitelist permits is permitted by the wide one. -/
theorem Permits.widen (h : narrow.Widens wide) : ∀ {e : Expr}, narrow.Permits e → wide.Permits e
  | _, .literal => .literal
  | _, .name => .name
  | _, .hole => .hole
  | _, .array hall => .array fun p hm => (hall p hm).widen h
  | _, .property hv => .property (hv.widen h)
  | _, .object hall => .object fun p hm => (hall p hm).widen h
  | _, .member hr => .member (hr.widen h)
  | _, .index hr hk => .index (hr.widen h) (hk.widen h)
  | _, .function hs hall => .function (h.calls _ hs) fun p hm => (hall p hm).widen h
  | _, .customMethod hc hs hall =>
    .customMethod ((h.custom _).mpr hc) (h.calls _ hs) fun p hm => (hall p hm).widen h
  | _, .method hno hs hr hall =>
    .method (fun root hroot hc => hno root hroot ((h.custom _).mp hc)) (h.calls _ hs) (hr.widen h)
      fun p hm => (hall p hm).widen h
  | _, .unary ha => .unary (ha.widen h)
  | _, .binary hl hr => .binary (hl.widen h) (hr.widen h)
  | _, .choice ht hc ha => .choice (ht.widen h) (hc.widen h) (ha.widen h)

theorem PermitsRoot.widen (h : narrow.Widens wide) :
    ∀ {e : Expr}, narrow.PermitsRoot e → wide.PermitsRoot e
  | _, .object ha => .object (h.objects _ ha)
  | _, .compound hne hp => .compound hne (hp.widen h)

end

/-- Merging widens if it adds no custom object. -/
theorem widens_merged (h : ∀ s, right.HasCustom s → left.HasCustom s) :
    left.Widens (left.merged right) where
  objects _ hs := Table.mem_names_merge.mpr (.inl hs)
  calls _ hs := Table.mem_names_merge.mpr (.inl hs)
  custom s := hasCustom_merged.trans (or_iff_left_of_imp (h s))

/-- A tree that shows what is permitted compiles. -/
theorem compileTree_ok_iff {tree : Value} (hd : Depicts .value tree e) (ws : List Warning) :
    (∃ closure ws', (whitelist.compileTree tree).run ws = (.ok closure, ws')) ↔
      whitelist.Permits e := by
  obtain ⟨node, rfl, hcompile⟩ : whitelist.Passes tree e := admits hd
  have hrun : (whitelist.compileTree (.ofTree node)).run ws =
      (whitelist.compile (.root node)).run ws := rfl
  rw [hrun]
  rcases hcompile (.root node) rfl ⟨_, Path.isOwnName_root node⟩ ws with
    ⟨closure, ws', hr, hp⟩ | ⟨failure, ws', hr, hdeny⟩
  · rw [hr]
    exact ⟨fun _ => hp, fun _ => ⟨closure, ws', rfl⟩⟩
  · rw [hr]
    exact ⟨nofun, fun hp => absurd hdeny hp.not_denies⟩

/-! ## Answers -/

/-- Whitelists with the same custom objects read the calls of a source in the same way. -/
theorem targetsLike_of_depicts {other : Whitelist} {tree : Value} (hd : Depicts .value tree e)
    (hcustom : ∀ root, other.HasCustom root ↔ whitelist.HasCustom root) :
    tree.AllNodes (whitelist.TargetsLike other) := by
  intro call ho hk
  obtain ⟨role, shown, h⟩ := ho.depicted (.inl ⟨_, _, hd⟩)
  obtain ⟨r, hr, h⟩ := h.exists_ne_element
  obtain ⟨callee, p, hf, hcallee⟩ := h.callee hr hk
  exact CallTarget.of_eq_of_hasCustom hf hcallee hcustom

/-- Whitelists without a name in common allow nothing in common. -/
theorem not_allows_of_apart (hobjects : ∀ s, left.AllowsObject s → ¬ right.AllowsObject s)
    (hcalls : ∀ s, left.AllowsCall s → ¬ right.AllowsCall s) {q : Question}
    (h : left.Allows q) : ¬ right.Allows q := by
  cases q with
  | root =>
    obtain ⟨s, rfl, hs⟩ := h
    rintro ⟨_, ⟨⟩, hs'⟩
    exact hobjects s hs hs'
  | call =>
    obtain ⟨s, rfl, hs⟩ := h
    rintro ⟨_, ⟨⟩, hs'⟩
    exact hcalls s hs hs'
  | shape => exact h.elim

theorem answersLike_merged {q : Question} (h : ¬ right.Allows q) :
    left.AnswersLike (left.merged right) q := by
  cases q with
  | root => exact Gate.find?_merge fun s hs hmem => h ⟨s, hs, hmem⟩
  | call => exact Gate.find?_merge fun s hs hmem => h ⟨s, hs, hmem⟩
  | shape => trivial

theorem answersLike_merged_assoc (first last : Whitelist) {middle : Whitelist}
    (h : middle.NamesOnce) (q : Question) :
    (first.merged (middle.merged last)).AnswersLike ((first.merged middle).merged last) q := by
  cases q with
  | root => exact Gate.find?_congr fun s _ => Table.lookup_merge_assoc _ _ h.objects s
  | call => exact Gate.find?_congr fun s _ => Table.lookup_merge_assoc _ _ h.callees s
  | shape => trivial

/-- Merging only widens if it adds no custom object: a source that compiles still does, and to the
same closure if the later whitelist has none of the objects and functions that the source asks
for. In what order three whitelists are merged makes no difference to what a source compiles to. -/
theorem merged_widens {source : List Char} {tree : Value}
    (h : Family.expression.parse 0 source Grammar.rootKind = .ok tree) :
    (∀ left right : Whitelist, (∀ s, right.HasCustom s → left.HasCustom s) →
      (∀ ws, (∃ closure ws', (left.compileTree tree).run ws = (.ok closure, ws')) →
        ∃ closure ws', ((left.merged right).compileTree tree).run ws = (.ok closure, ws')) ∧
      ((∀ q ∈ left.partQuestions tree, ¬ right.Allows q) →
        (left.merged right).compileTree tree = left.compileTree tree)) ∧
    ∀ first middle last : Whitelist, middle.NamesOnce →
      ((first.merged middle).merged last).compileTree tree =
        (first.merged (middle.merged last)).compileTree tree := by
  obtain ⟨e, hd⟩ := Family.depicts_of_parse h
  refine ⟨fun left right hcustom => ?_, fun first middle last hmiddle => ?_⟩
  · have hwidens := widens_merged hcustom
    refine ⟨fun ws hcompiles => ?_, fun hasked => ?_⟩
    · exact (compileTree_ok_iff hd ws).mpr (((compileTree_ok_iff hd ws).mp hcompiles).widen hwidens)
    · exact (inquires_compileTree _ _ (targetsLike_of_depicts hd hwidens.custom)).same
        fun q hq => answersLike_merged (hasked q hq)
  · have hcustom (root : String) : ((first.merged middle).merged last).HasCustom root ↔
        (first.merged (middle.merged last)).HasCustom root := by
      simp only [hasCustom_merged, or_assoc]
    exact (inquires_compileTree _ _ (targetsLike_of_depicts hd hcustom)).same
      fun q _ => answersLike_merged_assoc first last hmiddle q

/-- Allows what `f(a.b)` asks for. -/
def allowing : Whitelist where
  objects := [("a", Accessor.fromBindings (.text "a"))]
  callees := [("f", ⟨"f", fun _ => return .null⟩)]
  custom := [.text "o"]

/-- Allows nothing of it. -/
def besides : Whitelist where
  objects := [("b", Accessor.fromBindings (.text "a"))]
  callees := [("g", ⟨"g", fun _ => return .null⟩)]
  custom := [.text "o"]

/-- Has another function in place of `f`. -/
def replacing : Whitelist :=
  { besides with callees := [("f", ⟨"f'", fun _ => return .bool true⟩)] }

theorem exists_tree_call : ∃ tree,
    Family.expression.parse 0 "f(a.b)".toList Grammar.rootKind = .ok tree ∧
      Depicts .value tree (.call (.name "f") [.member (.name "a") "b"]) := by
  have hmember : Depicts .value
      (.branch "MemberExpression" ⟨2, 5⟩
        [("object", .identifier ⟨2, 3⟩ "a"), ("property", .identifier ⟨4, 5⟩ "b"),
          ("computed", .bool false)]) (.member (.name "a") "b") :=
    .member (.name rfl (by decide)) rfl
  have hcall : ∃ v, Depicts .value v (.call (.name "f") [.member (.name "a") "b"]) :=
    ⟨.branch "CallExpression" ⟨0, 6⟩
        [("callee", .identifier ⟨0, 1⟩ "f"), ("arguments", .ofList [_])],
      .call (.name rfl (by decide)) rfl (DepictsEach.nil.cons hmember).2⟩
  have htext : (Expr.call (.name "f") [.member (.name "a") "b"]).text = "f(a.b)".toList := by
    decide
  obtain ⟨tree, htree⟩ : ∃ tree,
      Family.expression.parse 0 "f(a.b)".toList Grammar.rootKind = .ok tree :=
    Family.exists_tree_of_isOk (by decide +kernel)
  have hdeep := Family.not_nestsTooDeeply_of_parse htree
  have hparse := Family.parse_text ⟨hcall, by decide⟩ (htext ▸ hdeep)
  rwa [htext] at hparse

theorem merged_widens_call : ∃ tree,
    Family.expression.parse 0 "f(a.b)".toList Grammar.rootKind = .ok tree ∧
      (∃ closure ws', ((allowing.merged besides).compileTree tree).run [] = (.ok closure, ws')) ∧
      (allowing.merged besides).compileTree tree = allowing.compileTree tree ∧
      ((allowing.merged besides).merged replacing).compileTree tree =
        (allowing.merged (besides.merged replacing)).compileTree tree := by
  obtain ⟨tree, h, hd⟩ := exists_tree_call
  have hcustom (s : String) : besides.HasCustom s → allowing.HasCustom s := id
  have hpermits : allowing.Permits (.call (.name "f") [.member (.name "a") "b"]) := by
    refine .function List.mem_cons_self ?_
    exact List.forall_mem_singleton.mpr (.member (.object List.mem_cons_self))
  have hcompiles := (compileTree_ok_iff hd []).mpr hpermits
  obtain ⟨hsame, hassoc⟩ := merged_widens h
  obtain ⟨hwidens, hunasked⟩ := hsame allowing besides hcustom
  obtain ⟨closure, ws', hrun⟩ := hcompiles
  have hnone : ∀ q ∈ allowing.partQuestions tree, ¬ besides.Allows q := by
    refine fun q hq => not_allows_of_apart ?_ ?_ (allows_of_compileTree hrun q hq)
    · exact List.forall_mem_singleton.mpr (show "a" ∉ ["b"] by decide)
    · exact List.forall_mem_singleton.mpr (show "f" ∉ ["g"] by decide)
  exact ⟨tree, h, hwidens [] ⟨closure, ws', hrun⟩, hunasked hnone,
    hassoc allowing besides replacing ⟨List.nodup_singleton _, List.nodup_singleton _⟩⟩

end Whitelist

end GatedExpr
