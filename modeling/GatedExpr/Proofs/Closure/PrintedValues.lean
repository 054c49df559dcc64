import GatedExpr.Proofs.Closure.Refinement
import GatedExpr.Proofs.Expr.Content
import GatedExpr.Proofs.Gate.Admission
import GatedExpr.Proofs.Grammar.Reparsing
import GatedExpr.Proofs.Value.Datum

/-! # Printed values evaluate back

A value that shows a datum is printed as a source that compiles whatever the whitelist is, and
that evaluates to a value that shows the same datum.
-/

namespace GatedExpr

open GatedExpr.Computation Semantics

/-! ## New identities -/

namespace Value

mutual

/-- A value shows the same datum once it has its identities. -/
theorem Shows.adopt {v : Value} {d : Datum} : v.Shows d → ∀ n, (v.adopt.run n).1.Shows d
  | .null, _ => .null
  | .bool, _ => .bool
  | @Shows.integer id _, _ => by cases id <;> exact .integer
  | .text, _ => .text
  | @Shows.list id _ _ h, n => by
    cases id with
    | zero => exact .list (h.adopt n)
    | succ id => exact .list h
  | @Shows.map id _ _ hkeys h, n => by
    cases id with
    | zero => exact .map hkeys (h.adopt n)
    | succ id => exact .map hkeys h

theorem ShowsEach.adopt {items : List Value} {data : List Datum} :
    ShowsEach items data → ∀ n, ShowsEach ((adoptEach items).run n).1 data
  | .nil, _ => .nil
  | .cons h hs, n => .cons (h.adopt n) (hs.adopt _)

theorem ShowsEntries.adopt {entries : List (String × Value)} {data : List (String × Datum)} :
    ShowsEntries entries data → ∀ n, ShowsEntries ((adoptEntries entries).run n).1 data
  | .nil, _ => .nil
  | .cons h hs, n => .cons (h.adopt n) (hs.adopt _)

end

end Value

theorem Table.set_of_not_mem {α : Type} {name : String} {entries : List (String × α)} (value : α)
    (h : name ∉ entries.map (·.1)) : set name value entries = entries ++ [(name, value)] := by
  induction entries with
  | nil => rfl
  | cons entry entries ih =>
    obtain ⟨other, old⟩ := entry
    obtain ⟨hne, hrest⟩ := not_or.mp (fun hm => h (List.mem_cons.mpr hm))
    rw [set, if_neg fun he => hne (eq_of_beq he).symm, ih hrest]
    rfl

/-! ## Evaluation -/

namespace Semantics

variable {whitelist : Whitelist} {env : Env} {path : Path} {slot : String} {tree : Value}
  {d : Datum} {w : World}

/-- The task yields a value that shows the datum, and calls nothing. -/
def EvaluatesTo (whitelist : Whitelist) (env : Env) (task : Task) (d : Datum) : Prop :=
  ∀ w, ∃ v w', Evaluates whitelist env task w (.ok v) w' ∧ v.Shows d ∧ w'.calls = w.calls

/-- The tree is a node that yields the datum wherever it stands. -/
def Writes (whitelist : Whitelist) (env : Env) (tree : Value) (d : Datum) : Prop :=
  ∃ node, tree = .ofTree node ∧
    ∀ path : Path, path.node = node → EvaluatesTo whitelist env (.node path) d

theorem exists_settle {v : Value} (h : v.Shows d) (w : World) :
    ∃ u w', (Eval.settle v).run w = (.ok u, w') ∧ u.Shows d ∧ w'.calls = w.calls :=
  ⟨_, _, rfl, h.adopt _, rfl⟩

theorem writes_literal {raw : String} {value : Value} {span : Span} (h : value.Shows d) :
    Writes whitelist env (.literal span raw value) d := by
  refine ⟨_, rfl, fun path hp w => ?_⟩
  obtain ⟨u, w', hrun, hu, hcalls⟩ := exists_settle h w
  exact ⟨u, w', .literal (by rw [hp]) (by rw [hp]; rfl) hrun, hu, hcalls⟩

theorem writes_of_literal {raw : String} {value : Value}
    (hl : Token.IsNumber raw value ∨ Token.IsString raw value ∨ Token.IsKeyword raw value)
    (h : value.Shows d) (hd : Depicts .value tree (.literal raw)) :
    Writes whitelist env tree d := by
  cases hd with
  | literal hl' =>
    cases Token.literal_unique hl hl'
    exact writes_literal h

theorem writes_key {key : String} (hd : Depicts .key tree (.literal (Value.printText key))) :
    Writes whitelist env tree (.text key) := by
  cases hd with
  | keyLiteral hl =>
    cases Token.literal_unique (.inr (.inl (Token.isString_literal key)))
      (hl.imp_right .inl)
    exact writes_literal .text

theorem writes_integer {n : Int} (hd : Depicts .value tree (Datum.integer n).expr) :
    Writes whitelist env tree (.integer n) := by
  have hnumber := Token.isNumber_decimal n.natAbs
  rw [Datum.expr] at hd
  split at hd
  · next hneg =>
    cases hd with
    | unary hs ha =>
      obtain ⟨node, rfl, harg⟩ : Writes whitelist env _ (.integer (n.natAbs : Int)) :=
        writes_of_literal (.inl hnumber) .integer ha
      refine ⟨_, rfl, fun path hp w => ?_⟩
      have hpart : path.Part "argument" (path.down "argument" node) :=
        ⟨.unassigned, node, by rw [hp]; rfl, rfl⟩
      obtain ⟨a, w₁, hev, hshows, hcalls⟩ := harg _ (Path.node_down path "argument" node) w
      cases hshows with
      | @integer id =>
        have happly : UnaryOperator.minus.apply (.number id (.int n.natAbs)) =
            .ok (.ofNumber (.int n)) := by
          have : -(n.natAbs : Int) = n := by omega
          simp only [UnaryOperator.apply, Value.toNumber, Number.negate, this]
        have hn : (Value.ofNumber (.int n)).Shows (.integer n) := .integer
        obtain ⟨u, w', hrun, hu, hsame⟩ := exists_settle hn w₁
        exact ⟨u, w', .unary (by rw [hp]; rfl) (by rw [hp]; rfl) (by rfl) hpart hev happly hrun, hu,
          hsame.trans hcalls⟩
  · next hpos =>
    have hn : (n.natAbs : Int) = n := by omega
    exact writes_of_literal (.inl hnumber) (hn ▸ .integer) hd

theorem inOrder_pair {first second : Task} {d d' : Datum}
    (hf : EvaluatesTo whitelist env first d) (hs : EvaluatesTo whitelist env second d')
    (w : World) : ∃ u v w', InOrder (Evaluates whitelist env) [first, second] w (.ok [u, v]) w' ∧
      u.Shows d ∧ v.Shows d' ∧ w'.calls = w.calls := by
  obtain ⟨u, w₁, hu, hshows, hcalls⟩ := hf w
  obtain ⟨v, w₂, hv, hshows', hcalls'⟩ := hs w₁
  exact ⟨u, v, w₂, .next hu (.next hv .done), hshows, hshows', hcalls'.trans hcalls⟩

/-- A property yields its key with a value of the datum. -/
theorem evaluates_property {key : String} {value : Expr}
    (hd : Depicts .property tree (.property (.literal (Value.printText key)) value))
    (hv : ∀ {v}, Depicts .value v value → Writes whitelist env v d) :
    ∃ node, tree = .ofTree node ∧ ∀ path : Path, path.node = node → ∀ w, ∃ pair v w',
      Evaluates whitelist env (.node path) w (.ok pair) w' ∧
        pair.asPair = .ok (.text key, v) ∧ v.Shows d ∧ w'.calls = w.calls := by
  cases hd with
  | property hk hval =>
    obtain ⟨keyNode, rfl, hkey⟩ : Writes whitelist env _ (.text key) := writes_key hk
    obtain ⟨valueNode, rfl, hvalue⟩ := hv hval
    refine ⟨_, rfl, fun path hp w => ?_⟩
    have pk : path.Part "key" (path.down "key" keyNode) :=
      ⟨.unassigned, keyNode, by rw [hp]; rfl, rfl⟩
    have pv : path.Part "value" (path.down "value" valueNode) :=
      ⟨.unassigned, valueNode, by rw [hp]; rfl, rfl⟩
    obtain ⟨u, v, w₁, hev, hu, hv, hcalls⟩ := inOrder_pair (hkey _ (Path.node_down _ _ _))
      (hvalue _ (Path.node_down _ _ _)) w
    cases hu with
    | text =>
      exact ⟨_, _, _, .property (by rw [hp]; rfl) pk pv hev rfl, rfl, hv.adopt _, hcalls⟩

mutual

/-- A tree of the expression that writes a datum yields it. -/
theorem writes_of_shows (whitelist : Whitelist) (env : Env) {v : Value} {d : Datum} :
    v.Shows d → ∀ {tree}, Depicts .value tree d.expr → Writes whitelist env tree d
  | .null, _, hd => writes_of_literal (.inr (.inr .null)) .null hd
  | @Value.Shows.bool true, _, hd => writes_of_literal (.inr (.inr .true)) .bool hd
  | @Value.Shows.bool false, _, hd => writes_of_literal (.inr (.inr .false)) .bool hd
  | .integer, _, hd => writes_integer hd
  | .text, _, hd => writes_of_literal (.inr (.inl (Token.isString_literal _))) .text hd
  | .list h, _, hd => by
    cases hd with
    | @array values _ _ hl hall =>
      refine ⟨_, rfl, fun path hp w => ?_⟩
      obtain ⟨items, w₁, hev, hshows, hcalls⟩ :=
        inOrder_of_shows whitelist env h ⟨hl, hall⟩ path "elements" w
      obtain ⟨u, w', hrun, hu, hsame⟩ := exists_settle (@Value.Shows.list .unassigned _ _ hshows) w₁
      have hev : InOrder _ (Task.ofItems path "elements" (.ofList values)) w (.ok items) w₁ := hev
      exact ⟨u, w', .array (by rw [hp]; rfl) (by rw [hp]; rfl) hev hrun, hu, hsame.trans hcalls⟩
  | .map hkeys h, _, hd => by
    cases hd with
    | @object values _ _ hl hall =>
      refine ⟨_, rfl, fun path hp w => ?_⟩
      obtain ⟨entries, w₁, hev, hshows, hcalls⟩ :=
        entries_of_shows whitelist env h ⟨hl, hall⟩ path "properties" [] w hkeys
      obtain ⟨u, w', hrun, hu, hsame⟩ :=
        exists_settle (@Value.Shows.map .unassigned _ _ hkeys hshows) w₁
      have hev :
          Entries _ (Task.ofItems path "properties" (.ofList values)) [] w (.ok entries) w₁ := hev
      exact ⟨u, w', .map (by rw [hp]; rfl) (by rw [hp]; rfl) hev hrun, hu, hsame.trans hcalls⟩

theorem inOrder_of_shows (whitelist : Whitelist) (env : Env) {items : List Value}
    {data : List Datum} : Value.ShowsEach items data → ∀ {trees},
      DepictsEach .element trees (Datum.exprEach data) → ∀ path slot w, ∃ values w',
        InOrder (Evaluates whitelist env) (trees.filterMap (Task.ofItem? path slot)) w
          (.ok values) w' ∧ Value.ShowsEach values data ∧ w'.calls = w.calls
  | .nil, trees, hd, path, slot, w => by
    cases trees with
    | nil => exact ⟨[], w, .done, .nil, rfl⟩
    | cons => cases hd.1
  | @Value.ShowsEach.cons _ d _ _ h hs, trees, hd, path, slot, w => by
    cases trees with
    | nil => cases hd.1
    | cons tree trees =>
      obtain ⟨e, es, he, htree, htrees⟩ := hd.of_cons
      rw [Datum.exprEach] at he
      cases he
      have hvalue : Depicts .value tree d.expr := by
        have hhole := d.isHole_expr
        revert hhole htree
        generalize d.expr = e
        intro htree hhole
        cases htree with
        | hole => cases hhole
        | element hv => exact hv
      obtain ⟨node, rfl, hnode⟩ := writes_of_shows whitelist env h hvalue
      obtain ⟨v, w₁, hv, hshows, hcalls⟩ := hnode _ (Path.node_down path slot node) w
      obtain ⟨values, w₂, hvs, hrest, hsame⟩ :=
        inOrder_of_shows whitelist env hs htrees path slot w₁
      exact ⟨v :: values, w₂, .next hv hvs, .cons hshows hrest, hsame.trans hcalls⟩

theorem entries_of_shows (whitelist : Whitelist) (env : Env) {entries : List (String × Value)}
    {data : List (String × Datum)} : Value.ShowsEntries entries data → ∀ {trees},
      DepictsEach .property trees (Datum.exprEntries data) →
        ∀ path slot (done : List (String × Value)) w,
          (done.map (·.1) ++ data.map (·.1)).Nodup → ∃ more w',
            Entries (Evaluates whitelist env) (trees.filterMap (Task.ofItem? path slot)) done w
              (.ok (done ++ more)) w' ∧ Value.ShowsEntries more data ∧ w'.calls = w.calls
  | .nil, trees, hd, path, slot, done, w, _ => by
    cases trees with
    | nil => exact ⟨[], w, by rw [List.append_nil]; exact .done, .nil, rfl⟩
    | cons => cases hd.1
  | @Value.ShowsEntries.cons key _ d _ data h hs, trees, hd, path, slot, done, w, hkeys => by
    cases trees with
    | nil => cases hd.1
    | cons tree trees =>
      obtain ⟨e, es, he, htree, htrees⟩ := hd.of_cons
      rw [Datum.exprEntries] at he
      cases he
      obtain ⟨node, rfl, hnode⟩ :=
        evaluates_property htree fun hv => writes_of_shows whitelist env h hv
      obtain ⟨pair, v, w₁, hpair, has, hshows, hcalls⟩ :=
        hnode _ (Path.node_down path slot node) w
      have hnew : key ∉ done.map (·.1) := fun hm =>
        (List.nodup_append.mp hkeys).2.2 key hm key List.mem_cons_self rfl
      have hset : Table.set (Value.text key).toText v done = done ++ [(key, v)] :=
        Table.set_of_not_mem v hnew
      have hkeys' : ((done ++ [(key, v)]).map (·.1) ++ data.map (·.1)).Nodup := by
        simpa using hkeys
      obtain ⟨more, w₂, hmore, hrest, hsame⟩ :=
        entries_of_shows whitelist env hs htrees path slot _ w₁ hkeys'
      rw [List.append_assoc, List.singleton_append] at hmore
      exact ⟨(key, v) :: more, w₂, .set hpair has (hset ▸ hmore), .cons hshows hrest,
        hsame.trans hcalls⟩

end

end Semantics

namespace Whitelist

/-- A tree compiles if the whitelist permits what it shows. -/
theorem exists_closure_of_permits {whitelist : Whitelist} {tree : Value} {e : Expr}
    (hd : Depicts .value tree e) (hp : whitelist.Permits e) (ws : List Warning) :
    ∃ closure ws', (whitelist.compileTree tree).run ws = (.ok closure, ws') := by
  obtain ⟨node, rfl, hcompile⟩ : whitelist.Passes tree e := admits hd
  rcases hcompile (.root node) rfl ⟨_, Path.isOwnName_root node⟩ ws with
    ⟨closure, ws', hr, _⟩ | ⟨failure, ws', _, hdeny⟩
  · exact ⟨closure, ws', hr⟩
  · exact absurd hdeny hp.not_denies

end Whitelist

namespace Value

open Family

/-- A text is printed as a string literal that stands for it, and a value that shows a datum as a
source that is accepted unless it is nested too deeply, compiles whatever the whitelist allows,
and yields a value that shows the same datum whatever the bindings and options are, without
calling any function. -/
theorem print_evaluates_back :
    (∀ s : String, Token.string.Accepts (printText s).toList ∧
      String.ofList (Token.decodeString (printText s).toList) = s) ∧
    ∀ (v : Value) (d : Datum), v.Shows d → ¬ NestsTooDeeply v.print.toList →
      ∃ tree, expression.parse 0 v.print.toList Grammar.rootKind = .ok tree ∧
        ∀ (whitelist : Whitelist) ws, ∃ closure ws',
          (whitelist.compileTree tree).run ws = (.ok closure, ws') ∧
            ∀ env w, ∃ u w', (closure env).run w = (.ok u, w') ∧ u.Shows d ∧
              w'.calls = w.calls := by
  constructor
  · intro s
    obtain ⟨haccepts, hvalue⟩ := Token.isString_literal s
    exact ⟨haccepts, (Value.text.inj hvalue).symm⟩
  · intro v d h hdeep
    rw [h.print_eq] at hdeep ⊢
    obtain ⟨tree, hparse, hd⟩ := parse_text d.readable hdeep
    refine ⟨tree, hparse, fun whitelist ws => ?_⟩
    obtain ⟨closure, ws', hcompile⟩ :=
      Whitelist.exists_closure_of_permits hd (d.permits whitelist) ws
    refine ⟨closure, ws', hcompile, fun env w => ?_⟩
    obtain ⟨node, rfl, hnode⟩ := Semantics.writes_of_shows whitelist env h hd
    obtain ⟨u, w', hev, hu, hcalls⟩ := hnode (.root node) (Path.node_root node) w
    have hroot : (whitelist.compile (.root node)).run ws = (.ok closure, ws') := hcompile
    have himplements := Whitelist.implements_of_compile hroot
    exact ⟨u, w', (himplements _ _ _ _).mpr hev, hu, hcalls⟩

/-- A list in a map, with a negative number, a line break and a key that needs escapes. -/
def record : Value :=
  .ofEntries [("\"é\\", .ofList [.int (-3), .null, .bool true, .text "a\nb"])]

def recordDatum : Datum :=
  .map [("\"é\\", .list [.integer (-3), .null, .bool true, .text "a\nb"])]

theorem shows_record : record.Shows recordDatum :=
  .map (by decide)
    (.cons (.list (.cons .integer (.cons .null (.cons .bool (.cons .text .nil))))) .nil)

theorem print_evaluates_back_record :
    ∃ tree, expression.parse 0 record.print.toList Grammar.rootKind = .ok tree ∧
      ∀ (whitelist : Whitelist) ws, ∃ closure ws',
        (whitelist.compileTree tree).run ws = (.ok closure, ws') ∧
          ∀ env w, ∃ u w', (closure env).run w = (.ok u, w') ∧ u.Shows recordDatum ∧
            w'.calls = w.calls := by
  obtain ⟨tree, h⟩ : ∃ tree, expression.parse 0 record.print.toList Grammar.rootKind = .ok tree :=
    exists_tree_of_isOk (by decide +kernel)
  exact print_evaluates_back.2 record recordDatum shows_record (not_nestsTooDeeply_of_parse h)

end Value

end GatedExpr
