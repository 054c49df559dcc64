import GatedExpr.Proofs.Closure.Blame
import GatedExpr.Proofs.Gate.Admission
import GatedExpr.Proofs.Gate.Questions

/-! # Compiling as an inquiry

Compiling a tree asks a whitelist one question after the other. It goes on as long as they are
allowed, and the first one that is not ends it with a warning. Nothing else of a whitelist plays a
part but how it reads calls, so whitelists that read the calls of a tree in the same way and answer
its questions alike compile it alike.
-/

namespace GatedExpr

open GatedExpr.Computation Whitelist

/-! ## Reads -/

/-- The gate has rejected something. -/
def Fault.IsRejection (fault : Fault) : Prop :=
  fault.cls = .unauthorizedIdentifier ∨ fault.cls = .unauthorizedCall

instance (fault : Fault) : Decidable fault.IsRejection :=
  inferInstanceAs (Decidable (_ ∨ _))

theorem Question.isRejection_failure (q : Question) : q.failure.fault.IsRejection := by
  cases q with
  | root => exact .inl rfl
  | call | shape => exact .inr rfl

/-- A read that may fail, but not because the gate rejects anything. -/
def Unopposed {α : Type} (r : Except Fault α) : Prop :=
  ∀ fault, r = .error fault → ¬ fault.IsRejection

namespace Unopposed

variable {α β : Type}

theorem ok (a : α) : Unopposed (.ok a) :=
  nofun

theorem error {fault : Fault} (h : ¬ fault.IsRejection) :
    Unopposed (.error fault : Except Fault α) := by
  rintro _ ⟨⟩
  exact h

theorem bind {r : Except Fault α} {f : α → Except Fault β} (h : Unopposed r)
    (hf : ∀ a, Unopposed (f a)) : Unopposed (r >>= f) := by
  cases r with
  | ok a => exact hf a
  | error fault => exact .error (h fault rfl)

theorem get (node : Node) (name : String) : Unopposed (node.get name) := by
  unfold Node.get
  split
  · exact .ok _
  · exact .error (by simp [Fault.IsRejection, Fault.cls])

theorem readAttribute (value : Value) (name : String) : Unopposed (value.readAttribute name) := by
  unfold Value.readAttribute
  split
  · exact .ok _
  · exact .error (by simp [Fault.IsRejection, Fault.cls])
  · exact .error (by simp [Fault.IsRejection, Fault.cls])

theorem isOfKind (value : Value) (kind : String) : Unopposed (value.isOfKind kind) :=
  (readAttribute value "kind").bind fun _ => .ok _

theorem part (value : Value) (name : String) : Unopposed (value.part name) := by
  unfold Value.part
  split
  · exact (get _ _).bind fun _ => .ok _
  · split
    · exact .ok _
    · exact .error (by simp [Fault.IsRejection, Fault.cls])
  · exact .error (by simp [Fault.IsRejection, Fault.cls])

theorem asNode (value : Value) : Unopposed value.asNode := by
  unfold Value.asNode
  split
  · exact .ok _
  · exact .error (by simp [Fault.IsRejection, Fault.cls])

theorem iterate (value : Value) : Unopposed value.iterate := by
  unfold Value.iterate
  split
  any_goals exact .ok _
  exact .error (by simp [Fault.IsRejection, Fault.cls])

theorem operatorOf (ofSymbol? : String → Option α) (operator : Value) :
    Unopposed (operatorOf ofSymbol? operator) := by
  unfold GatedExpr.operatorOf
  split
  · exact .ok _
  · split
    · exact .ok _
    · exact .error (by simp [Fault.IsRejection, Fault.cls])

theorem isOwnName (path : Path) : Unopposed path.isOwnName := by
  unfold Path.isOwnName
  split
  · exact .ok _
  · split
    · split
      · exact (get _ _).bind fun _ => .ok _
      · exact .ok _
    · exact .ok _

theorem find? (table : List (String × α)) (name : Value) : Unopposed (Gate.find? table name) := by
  unfold Gate.find?
  split
  · exact .ok _
  · split
    · exact .ok _
    · exact .error (by simp [Fault.IsRejection, Fault.cls])

theorem isCustom (whitelist : Whitelist) (name : Value) : Unopposed (whitelist.isCustom name) := by
  unfold Whitelist.isCustom
  split
  · exact .ok _
  · exact .error (by simp [Fault.IsRejection, Fault.cls])

theorem target (whitelist : Whitelist) (call : Node) :
    Unopposed (CallTarget.of whitelist call) := by
  unfold CallTarget.of
  refine (get _ _).bind fun callee => (readAttribute _ _).bind fun kind => ?_
  split
  · exact (readAttribute _ _).bind fun _ => .ok _
  split
  · refine (readAttribute _ _).bind fun computed => ?_
    split
    · exact .ok _
    unfold CallTarget.ofMember
    refine (part _ _).bind fun property => (readAttribute _ _).bind fun name => ?_
    refine (part _ _).bind fun receiver => (isOfKind _ _).bind fun isName => ?_
    split
    · refine (readAttribute _ _).bind fun name => (isCustom _ _).bind fun custom => ?_
      split
      · exact .ok _
      · exact .ok _
    · exact .ok _
  · exact .ok _

end Unopposed

/-! ## Inquiries -/

/-- How a run ends that asks these questions and starts from the warnings `ws`. The first question
that is not allowed ends it, and leaves the only warning that there is. -/
inductive Verdict (whitelist : Whitelist) (asked : List Question) (ws : List Warning) {α : Type} :
    Except Failure α × List Warning → Prop where

  | passed {a : α} : (∀ q ∈ asked, whitelist.Allows q) → Verdict whitelist asked ws (.ok a, ws)

  | rejected {before after : List Question} {q : Question} :
      asked = before ++ q :: after → (∀ b ∈ before, whitelist.Allows b) → ¬ whitelist.Allows q →
      Verdict whitelist asked ws (.error q.failure, ws ++ [q.warning])

  | failed {failure : Failure} : ¬ failure.fault.IsRejection →
      Verdict whitelist asked ws (.error failure, ws)

/-- What was allowed before has no say in the verdict on the rest. -/
theorem Verdict.prepend {whitelist : Whitelist} {before asked : List Question} {ws : List Warning}
    {α : Type} {result : Except Failure α × List Warning}
    (hbefore : ∀ q ∈ before, whitelist.Allows q) (h : Verdict whitelist asked ws result) :
    Verdict whitelist (before ++ asked) ws result := by
  cases h with
  | passed hallowed => exact .passed (List.forall_mem_append.mpr ⟨hbefore, hallowed⟩)
  | rejected hasked hallowed hq =>
    subst hasked
    exact .rejected (List.append_assoc _ _ _).symm
      (List.forall_mem_append.mpr ⟨hbefore, hallowed⟩) hq
  | failed hno => exact .failed hno

/-- The other whitelist has the same answer. -/
def Whitelist.AnswersLike (whitelist other : Whitelist) : Question → Prop
  | .root name _ => Gate.find? other.objects name = Gate.find? whitelist.objects name
  | .call signature _ => Gate.find? other.callees signature = Gate.find? whitelist.callees signature
  | .shape .. => True

/-- The other whitelist reads the same target off a call. -/
def Whitelist.TargetsLike (whitelist other : Whitelist) (node : Node) : Prop :=
  node.kind = some "CallExpression" → CallTarget.of other node = CallTarget.of whitelist node

/-- The computation asks these questions of the whitelist, and does the same for the other one if
that answers them alike. -/
structure Inquires (whitelist other : Whitelist) {α : Type} (act : Whitelist → Gate α)
    (asked : List Question) : Prop where
  verdict : ∀ ws, Verdict whitelist asked ws ((act whitelist).run ws)
  same : (∀ q ∈ asked, whitelist.AnswersLike other q) → act other = act whitelist

namespace Inquires

variable {whitelist other : Whitelist} {α β : Type} {act : Whitelist → Gate α}
  {f : α → Whitelist → Gate β} {asked rest : List Question}

theorem pure (a : α) : Inquires whitelist other (fun _ => Pure.pure a) [] where
  verdict _ := .passed (List.forall_mem_nil _)
  same _ := rfl

theorem failAt {node : Option Node} {fault : Fault} (h : ¬ fault.IsRejection) :
    Inquires whitelist other (fun _ => (Gate.failAt node fault : Gate α)) asked where
  verdict _ := .failed h
  same _ := rfl

theorem bind (h : Inquires whitelist other act asked)
    (hf : ∀ a, Inquires whitelist other (f a) rest) :
    Inquires whitelist other (fun w => act w >>= fun a => f a w) (asked ++ rest) where
  verdict ws := by
    have hverdict := h.verdict ws
    rw [run_bind]
    cases hresult : (act whitelist).run ws with
    | mk result ws' =>
      rw [hresult] at hverdict
      cases hverdict with
      | passed hallowed => exact ((hf _).verdict _).prepend hallowed
      | rejected hasked hallowed hq =>
        subst hasked
        exact .rejected (List.append_assoc _ _ _) hallowed hq
      | failed hno => exact .failed hno
  same hlike := by
    rw [h.same fun q hq => hlike q (List.mem_append_left _ hq)]
    congr 1
    funext a
    exact (hf a).same fun q hq => hlike q (List.mem_append_right _ hq)

/-- A read that is the same for all whitelists. -/
theorem read {r : Except Fault α} (hr : Unopposed r)
    (h : ∀ a, r = .ok a → Inquires whitelist other (f a) asked) :
    Inquires whitelist other (fun w => Gate.ofExcept r >>= fun a => f a w) asked := by
  cases r with
  | ok a => exact h a rfl
  | error fault => exact failAt (hr fault rfl)

theorem get {node : Node} {name : String}
    {f : { part : Value // sizeOf part < sizeOf node } → Whitelist → Gate β}
    (h : ∀ part, node.field? name = some part.1 → Inquires whitelist other (f part) asked) :
    Inquires whitelist other (fun w => Gate.ofExcept (node.get name) >>= fun part => f part w)
      asked :=
  read (.get node name) fun part hpart => h part (Node.get_eq_ok.mp hpart)

/-- What is done with the result asks nothing. -/
theorem map (h : Inquires whitelist other act asked) (g : α → β) :
    Inquires whitelist other (fun w => act w >>= fun a => Pure.pure (g a)) asked := by
  have hbind := h.bind (f := fun a _ => Pure.pure (g a)) fun a => pure (g a)
  rwa [List.append_nil] at hbind

/-- What is looked up in a table of the whitelist is what the question asks for. -/
theorem ask (table : Whitelist → List (String × α)) (name : Value) (q : Question)
    (hact : ∀ w, act w = Gate.ofExcept (Gate.find? (table w) name) >>= fun found? =>
      found?.elim (Gate.warn q.warning >>= fun _ => throw q.failure) Pure.pure)
    (hallows : whitelist.Allows q ↔ ∃ s, name = .text s ∧ s ∈ (table whitelist).map Prod.fst)
    (hlike : whitelist.AnswersLike other q →
      Gate.find? (table other) name = Gate.find? (table whitelist) name) :
    Inquires whitelist other act [q] where
  verdict ws := by
    rw [hact]
    cases hfind : Gate.find? (table whitelist) name with
    | error fault => exact .failed (Unopposed.find? _ _ _ hfind)
    | ok found? =>
      cases found? with
      | some found =>
        obtain ⟨s, rfl, hl⟩ := Gate.find?_eq_some.mp hfind
        refine .passed (List.forall_mem_singleton.mpr (hallows.mpr ?_))
        exact ⟨s, rfl, Table.mem_keys_of_lookup hl⟩
      | none =>
        refine .rejected (List.nil_append _).symm (List.forall_mem_nil _) fun hq => ?_
        obtain ⟨s, rfl, hs⟩ := hallows.mp hq
        exact Table.not_mem_keys_of_lookup (Except.ok.inj hfind) hs
  same h := by
    rw [hact, hact, hlike (List.forall_mem_singleton.mp h)]

theorem objectRoot (name : Value) (node : Option Node) :
    Inquires whitelist other (fun w => w.objectRoot name node) [.root name node] := by
  refine ask objects name (.root name node) (fun w => ?_) Iff.rfl id
  unfold Whitelist.objectRoot
  congr 1
  funext found?
  cases found? <;> rfl

theorem callee (signature : Value) (node : Node) :
    Inquires whitelist other (fun w => w.callee signature node) [.call signature node] := by
  refine ask callees signature (.call signature node) (fun w => ?_) Iff.rfl id
  unfold Whitelist.callee
  congr 1
  funext found?
  cases found? <;> rfl

theorem refused (shape : String) (node : Node) :
    Inquires whitelist other (fun _ => do
      Gate.warn (.callShape shape)
      (Gate.failAt (some node) (.unauthorizedCall (.text shape)) : Gate α))
      [.shape shape node] where
  verdict _ := .rejected (List.nil_append _).symm (List.forall_mem_nil _) id
  same _ := rfl

/-- The target of a call is read in the same way by both whitelists. -/
theorem target {node : Node} {f : CallTarget node → Whitelist → Gate β}
    (hlike : CallTarget.of other node = CallTarget.of whitelist node)
    (h : ∀ target, CallTarget.of whitelist node = .ok target →
      Inquires whitelist other (f target) asked) :
    Inquires whitelist other
      (fun w => Gate.ofExcept (CallTarget.of w node) >>= fun target => f target w) asked := by
  have hread : Inquires whitelist other _ asked := read (.target whitelist node) h
  exact ⟨hread.verdict, fun hasked => by rw [hlike]; exact hread.same hasked⟩

end Inquires

/-! ## Trees -/

namespace Whitelist

variable {whitelist other : Whitelist} {path : Path} {slot : String} {size : Nat}

/-- Compiling a node that is smaller than `size` asks the questions of the node. -/
def InquiresBelow (whitelist other : Whitelist) (size : Nat) : Prop :=
  ∀ {path : Path}, sizeOf path.node < size →
    (Value.ofTree path.node).AllNodes (whitelist.TargetsLike other) →
      Inquires whitelist other (fun w => w.compile path) (whitelist.questions path.node)

namespace InquiresBelow

theorem part (below : InquiresBelow whitelist other size) {part : Value} (hs : sizeOf part < size)
    (hp : part.AllNodes (whitelist.TargetsLike other)) :
    Inquires whitelist other (fun w => w.compilePart path slot part)
      (whitelist.partQuestions part) := by
  cases part with
  | node id tree =>
    have := Value.sizeOf_lt_node id tree
    unfold compilePart partQuestions
    exact below (by rw [Path.node_down]; omega) (hp.node_id _)
  | _ => 
    unfold compilePart
    exact .failAt (by simp [Fault.IsRejection, Fault.cls])

theorem root (below : InquiresBelow whitelist other size) {target : Value}
    (hs : sizeOf target < size) (hp : target.AllNodes (whitelist.TargetsLike other)) :
    Inquires whitelist other (fun w => w.compileRoot path slot target)
      (whitelist.rootQuestions target) := by
  unfold compileRoot rootQuestions
  refine .read (.isOfKind _ _) fun isName hname => ?_
  simp only [hname]
  cases isName with
  | false =>
    simp only [Bool.false_eq_true, if_false]
    exact below.part hs hp
  | true =>
    simp only [if_true]
    refine .read (.readAttribute _ _) fun name hread => ?_
    simp only [hread]
    exact .objectRoot _ _

theorem each (below : InquiresBelow whitelist other size) {parts : List Value}
    (hs : sizeOf parts < size) (hp : ∀ part ∈ parts, part.AllNodes (whitelist.TargetsLike other)) :
    Inquires whitelist other (fun w => w.compileEach path slot parts)
      (whitelist.eachQuestions parts) := by
  induction parts with
  | nil =>
    unfold compileEach eachQuestions
    exact .pure _
  | cons head rest ih =>
    unfold compileEach eachQuestions
    simp only [List.cons.sizeOf_spec] at hs
    obtain ⟨hhead, hrest⟩ := List.forall_mem_cons.mp hp
    exact (below.part (by omega) hhead).bind fun closure => (ih (by omega) hrest).map _

theorem holes (below : InquiresBelow whitelist other size) {parts : List Value}
    (hs : sizeOf parts < size) (hp : ∀ part ∈ parts, part.AllNodes (whitelist.TargetsLike other)) :
    Inquires whitelist other (fun w => w.compileHoles path parts)
      (whitelist.eachQuestions parts) := by
  induction parts with
  | nil =>
    unfold compileHoles eachQuestions
    exact .pure _
  | cons head rest ih =>
    unfold compileHoles eachQuestions
    simp only [List.cons.sizeOf_spec] at hs
    obtain ⟨hhead, hrest⟩ := List.forall_mem_cons.mp hp
    split
    · next hnull =>
      cases head with
      | null =>
        unfold partQuestions
        exact (ih (by omega) hrest).map _
      | _ => cases hnull
    · exact (below.part (by omega) hhead).bind fun closure => (ih (by omega) hrest).map _

/-- What is neither a list nor a tuple holds no parts, or it does not compile. -/
theorem noParts {parts : Value} (hlist : ∀ id items, parts ≠ .list id items)
    (htuple : ∀ id items, parts ≠ .tuple id items) :
    Inquires whitelist other (fun _ => (do
      match ← Gate.ofExcept parts.iterate with
      | [] => return []
      | item :: _ => Gate.fail (.notANode item.typeName) : Gate (List Closure)))
      (whitelist.partQuestions parts) := by
  refine .read (.iterate _) fun items hitems => ?_
  cases items with
  | nil =>
    have hnone : whitelist.partQuestions parts = [] := by
      unfold partQuestions
      split
      · cases hitems
      · exact absurd rfl (hlist _ _)
      · exact absurd rfl (htuple _ _)
      · rfl
    rw [hnone]
    exact .pure _
  | cons item rest => exact .failAt (by simp [Fault.IsRejection, Fault.cls])

theorem parts (below : InquiresBelow whitelist other size) {parts : Value}
    (hs : sizeOf parts < size) (hp : parts.AllNodes (whitelist.TargetsLike other)) :
    Inquires whitelist other (fun w => w.compileParts path slot parts)
      (whitelist.partQuestions parts) := by
  unfold compileParts
  split
  · next id items =>
    unfold partQuestions
    simp only [Value.list.sizeOf_spec] at hs
    exact below.each (by omega) fun part hm inner hi => hp inner (.item hm hi)
  · next id items =>
    unfold partQuestions
    simp only [Value.tuple.sizeOf_spec] at hs
    exact below.each (by omega) fun part hm inner hi => hp inner (.entry hm hi)
  · next other hlist htuple => exact noParts hlist htuple

theorem elements (below : InquiresBelow whitelist other size) {elements : Value}
    (hs : sizeOf elements < size) (hp : elements.AllNodes (whitelist.TargetsLike other)) :
    Inquires whitelist other (fun w => w.compileElements path elements)
      (whitelist.partQuestions elements) := by
  unfold compileElements
  split
  · next id items =>
    unfold partQuestions
    simp only [Value.list.sizeOf_spec] at hs
    exact below.holes (by omega) fun part hm inner hi => hp inner (.item hm hi)
  · next id items =>
    unfold partQuestions
    simp only [Value.tuple.sizeOf_spec] at hs
    exact below.holes (by omega) fun part hm inner hi => hp inner (.entry hm hi)
  · next other hlist htuple => exact noParts hlist htuple

theorem slotQuestions_eq {node : Node} {part : Value} (hf : node.field? slot = some part) :
    whitelist.slotQuestions node slot = whitelist.partQuestions part := by
  unfold slotQuestions
  split
  · next found hfound =>
    cases hf.symm.trans hfound
    rfl
  · next hnone => cases hf.symm.trans hnone

/-! ### Kinds of nodes -/

section Kinds

variable (below : InquiresBelow whitelist other (sizeOf path.node))
  (hp : (Value.ofTree path.node).AllNodes (whitelist.TargetsLike other))

include below hp

/-- A part that is read and compiled, and what is done with it. -/
theorem field (name : String) {f : Closure → Whitelist → Gate Closure} {asked : List Question}
    (hf : ∀ closure, Inquires whitelist other (f closure) asked) :
    Inquires whitelist other (fun w => do
      let ⟨part, _⟩ ← Gate.ofExcept (path.node.get name)
      f (← w.compilePart path name part) w) (whitelist.slotQuestions path.node name ++ asked) := by
  refine .get fun part hpart => ?_
  rw [slotQuestions_eq hpart]
  exact (below.part part.2 (hp.field hpart)).bind hf

theorem lastField (name : String) {f : Closure → Whitelist → Gate Closure}
    (hf : ∀ closure, Inquires whitelist other (f closure) []) :
    Inquires whitelist other (fun w => do
      let ⟨part, _⟩ ← Gate.ofExcept (path.node.get name)
      f (← w.compilePart path name part) w) (whitelist.slotQuestions path.node name) := by
  have hfield := below.field hp name hf
  rwa [List.append_nil] at hfield

theorem choice (hk : path.node.kind = some "ConditionalExpression") :
    Inquires whitelist other (fun w => w.compile path) (whitelist.questions path.node) := by
  unfold compile questions
  simp only [hk, Option.getD_some]
  refine below.field hp _ fun test => below.field hp _ fun consequent => ?_
  exact below.lastField hp _ fun alternate => .pure _

theorem binary (hk : path.node.kind = some "BinaryExpression") :
    Inquires whitelist other (fun w => w.compile path) (whitelist.questions path.node) := by
  unfold compile questions
  simp only [hk, Option.getD_some]
  refine .get fun operator _ => .read (.operatorOf _ _) fun logical? _ => ?_
  refine .read (.operatorOf _ _) fun binary? _ => ?_
  split
  · exact .failAt (by simp [Fault.IsRejection, Fault.cls])
  refine below.field hp _ fun left => below.lastField hp _ fun right => ?_
  split
  · exact .pure _
  · exact .pure _
  · exact .failAt (by simp [Fault.IsRejection, Fault.cls])

theorem unary (hk : path.node.kind = some "UnaryExpression") :
    Inquires whitelist other (fun w => w.compile path) (whitelist.questions path.node) := by
  unfold compile questions
  simp only [hk, Option.getD_some]
  refine .get fun operator _ => .read (.operatorOf _ _) fun unary? _ => ?_
  cases unary? with
  | none => exact .failAt (by simp [Fault.IsRejection, Fault.cls])
  | some operator => exact below.lastField hp _ fun argument => .pure _

theorem array (hk : path.node.kind = some "ArrayExpression") :
    Inquires whitelist other (fun w => w.compile path) (whitelist.questions path.node) := by
  unfold compile questions
  simp only [hk, Option.getD_some]
  refine .get fun elements he => ?_
  rw [slotQuestions_eq he]
  exact (below.elements elements.2 (hp.field he)).map _

theorem map (hk : path.node.kind = some "ObjectExpression") :
    Inquires whitelist other (fun w => w.compile path) (whitelist.questions path.node) := by
  unfold compile questions
  simp only [hk, Option.getD_some]
  refine .get fun properties hf => ?_
  rw [slotQuestions_eq hf]
  exact (below.parts properties.2 (hp.field hf)).map _

theorem property (hk : path.node.kind = some "Property") :
    Inquires whitelist other (fun w => w.compile path) (whitelist.questions path.node) := by
  unfold compile questions
  simp only [hk, Option.getD_some]
  exact below.field hp _ fun key => below.lastField hp _ fun value => .pure _

theorem member (hk : path.node.kind = some "MemberExpression") :
    Inquires whitelist other (fun w => w.compile path) (whitelist.questions path.node) := by
  unfold compile questions
  simp only [hk, Option.getD_some]
  refine below.field hp _ fun key => .get fun object ho => ?_
  split
  · next found hfound =>
    cases ho.symm.trans hfound
    exact (below.root object.2 (hp.field ho)).map _
  · next hnone => cases ho.symm.trans hnone

/-- Reading and compiling the arguments comes last. -/
theorem arguments (g : List Closure → Closure) :
    Inquires whitelist other (fun w => do
      let ⟨arguments, _⟩ ← Gate.ofExcept (path.node.get "arguments")
      return g (← w.compileParts path "arguments" arguments))
      (whitelist.slotQuestions path.node "arguments") := by
  refine .get fun arguments ha => ?_
  rw [slotQuestions_eq ha]
  exact (below.parts arguments.2 (hp.field ha)).map _

theorem call (hk : path.node.kind = some "CallExpression") :
    Inquires whitelist other (fun w => w.compile path) (whitelist.questions path.node) := by
  unfold compile questions
  simp only [hk, Option.getD_some]
  refine .target (hp.here hk) fun target htarget => ?_
  simp only [htarget]
  cases target with
  | refused shape => exact .refused shape _
  | function signature =>
    exact (Inquires.callee signature _).bind fun function => below.arguments hp _
  | method signature receiver smaller =>
    refine (Inquires.callee (.text signature) _).bind fun function => ?_
    exact (below.root smaller (hp.receiver htarget)).bind fun receiverClosure =>
      below.arguments hp _

end Kinds

theorem identifier (hk : path.node.kind = some "Identifier") :
    Inquires whitelist other (fun w => w.compile path) (whitelist.questions path.node) := by
  unfold compile questions
  simp only [hk, Option.getD_some]
  refine .get fun name _ => .read (.isOwnName _) fun own _ => ?_
  split
  · exact .pure _
  · exact .pure _

theorem literal (hk : path.node.kind = some "Literal") :
    Inquires whitelist other (fun w => w.compile path) (whitelist.questions path.node) := by
  unfold compile questions
  simp only [hk, Option.getD_some]
  exact .get fun value _ => .pure _

/-- One more level: each kind of node asks its questions if its parts ask theirs. -/
theorem step (below : InquiresBelow whitelist other size) :
    InquiresBelow whitelist other (size + 1) := by
  intro path hs hp
  have below : InquiresBelow whitelist other (sizeOf path.node) := fun hlt => below (by omega)
  cases compilesAs path with
  | choice hk => exact below.choice hp hk
  | binary hk => exact below.binary hp hk
  | unary hk => exact below.unary hp hk
  | array hk => exact below.array hp hk
  | map hk => exact below.map hp hk
  | property hk => exact below.property hp hk
  | identifier hk => exact identifier hk
  | literal hk => exact literal hk
  | member hk => exact below.member hp hk
  | call hk => exact below.call hp hk
  | unknown h =>
    simp only [h]
    exact .failAt (by simp [Fault.IsRejection, Fault.cls])

end InquiresBelow

theorem inquiresBelow (whitelist other : Whitelist) (size : Nat) :
    InquiresBelow whitelist other size := by
  induction size with
  | zero => exact fun hs => absurd hs (Nat.not_lt_zero _)
  | succ size ih => exact ih.step

/-- Compiling a tree asks the questions of its node and no others. -/
theorem inquires_compileTree (whitelist other : Whitelist) {tree : Value}
    (hp : tree.AllNodes (whitelist.TargetsLike other)) :
    Inquires whitelist other (fun w => w.compileTree tree) (whitelist.partQuestions tree) := by
  unfold compileTree
  refine .read (.readAttribute _ _) fun _ _ => .read (.asNode _) fun node hnode => ?_
  cases tree with
  | node id tree =>
    cases hnode
    unfold partQuestions
    exact inquiresBelow whitelist other _ (Nat.lt_succ_self _) (hp.node_id _)
  | _ => cases hnode

/-- A tree that compiles has asked for nothing that is not allowed. -/
theorem allows_of_compileTree {tree : Value} {closure : Closure} {ws ws' : List Warning}
    (h : (whitelist.compileTree tree).run ws = (.ok closure, ws')) :
    ∀ q ∈ whitelist.partQuestions tree, whitelist.Allows q := by
  have hself : tree.AllNodes (whitelist.TargetsLike whitelist) := fun _ _ _ => rfl
  have hverdict := (inquires_compileTree whitelist whitelist hself).verdict ws
  rw [h] at hverdict
  cases hverdict with
  | passed hallowed => exact hallowed

/-- Every rejected compilation leaves one warning, about the first question that is not allowed,
and fails for what the warning names. No other compilation leaves any, and one that succeeds has
asked for nothing that is not allowed. -/
theorem compileTree_warns_once (whitelist : Whitelist) (tree : Value) (ws : List Warning) :
    ∃ result more, (whitelist.compileTree tree).run ws = (result, ws ++ more) ∧
      match result with
      | .ok _ => more = [] ∧ ∀ q ∈ whitelist.partQuestions tree, whitelist.Allows q
      | .error failure =>
        if failure.fault.IsRejection then
          ∃ before q after, whitelist.partQuestions tree = before ++ q :: after ∧
            (∀ b ∈ before, whitelist.Allows b) ∧ ¬ whitelist.Allows q ∧
            failure = q.failure ∧ more = [q.warning]
        else more = [] := by
  have hself : tree.AllNodes (whitelist.TargetsLike whitelist) := fun _ _ _ => rfl
  have hverdict := (inquires_compileTree whitelist whitelist hself).verdict ws
  cases hresult : (whitelist.compileTree tree).run ws with
  | mk result ws' =>
    rw [hresult] at hverdict
    cases hverdict with
    | passed hallowed =>
      refine ⟨_, [], by rw [List.append_nil], ?_⟩
      exact ⟨rfl, hallowed⟩
    | @rejected before after q hasked hallowed hq =>
      refine ⟨_, [q.warning], rfl, ?_⟩
      simp only [if_pos q.isRejection_failure]
      exact ⟨before, q, after, hasked, hallowed, hq, rfl, rfl⟩
    | failed hno =>
      refine ⟨_, [], by rw [List.append_nil], ?_⟩
      simp only [if_neg hno]

end Whitelist

end GatedExpr
