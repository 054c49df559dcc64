import GatedExpr.Closure.Target
import GatedExpr.Proofs.Closure.BigStep
import GatedExpr.Proofs.Computation
import GatedExpr.Proofs.Node

/-! # What calls call

The target that is read off a callee determines the function that the call applies and the parts
that it applies it to, and is determined by them.
-/

namespace GatedExpr

open GatedExpr.Computation

namespace Value

theorem part_eq_ok {value part : Value} {name : String} {smaller : sizeOf part < sizeOf value}
    (h : value.part name = .ok ⟨part, smaller⟩) : value.HasPart name part :=
  ⟨smaller, h⟩

theorem HasPart.unique {value part part' : Value} {name : String} (h : value.HasPart name part)
    (h' : value.HasPart name part') : part' = part := by
  obtain ⟨smaller, h⟩ := h
  obtain ⟨smaller', h'⟩ := h'
  rw [h] at h'
  cases h'
  rfl

end Value

namespace Semantics

variable {whitelist : Whitelist} {call : Node} {receiver receiver' owner owner' : Value}
  {method method' : String}

theorem Method.unique (h : Method call receiver method) (h' : Method call receiver' method') :
    receiver' = receiver ∧ method' = method := by
  obtain ⟨callee, _, property, name, hc, _, _, _, hp, hn, rfl, hr⟩ := h
  obtain ⟨callee', _, property', name', hc', _, _, _, hp', hn', rfl, hr'⟩ := h'
  rw [hc] at hc'
  cases hc'
  rw [hp.unique hp', hn] at hn'
  cases hn'
  exact ⟨hr.unique hr', rfl⟩

theorem Method.not_identifier (h : Method call receiver method) {callee : Value}
    (hc : call.field? "callee" = some callee) :
    callee.readAttribute "kind" ≠ .ok (.text "Identifier") := by
  obtain ⟨callee', _, _, _, hc', hk, _⟩ := h
  rw [hc] at hc'
  cases hc'
  rw [hk]
  simp

theorem Custom.unique (h : Custom whitelist receiver owner)
    (h' : Custom whitelist receiver owner') : owner' = owner := by
  obtain ⟨_, hn, _⟩ := h
  obtain ⟨_, hn', _⟩ := h'
  rw [hn] at hn'
  cases hn'
  rfl

/-- Whatever a call applies is a function of the whitelist. -/
theorem Calls.allowed {path : Path} {function : Function} {tasks : List Task}
    (h : Calls whitelist path function tasks) :
    ∃ signature, whitelist.callees.lookup signature = some function := by
  cases h with
  | name _ _ _ hl => exact ⟨_, hl⟩
  | ofCustom _ _ hl => exact ⟨_, hl⟩
  | method _ _ hl => exact ⟨_, hl⟩

theorem Task.Root.unique {path : Path} {slot : String} {target : Value} {s t : Task}
    (h : Task.Root path slot target s) (h' : Task.Root path slot target t) : t = s := by
  cases h with
  | object hk hn =>
    cases h' with
    | object _ hn' =>
      rw [hn] at hn'
      cases hn'
      rfl
    | @node id tree hne =>
      rw [Value.readAttribute_kind, Except.ok.injEq, Value.ofText?_eq_text] at hk
      exact absurd hk hne
  | @node id tree hne =>
    cases h' with
    | object hk hn =>
      rw [Value.readAttribute_kind, Except.ok.injEq, Value.ofText?_eq_text] at hk
      exact absurd hk hne
    | node _ => rfl

end Semantics

namespace CallTarget

open Semantics

variable {whitelist : Whitelist} {call : Node}

/-- What a target read off a member says about the receiver and the name of the method. -/
theorem ofMember_spec {callee computed : Value} {smaller : sizeOf callee < sizeOf call}
    {target : CallTarget call} (hc : call.field? "callee" = some callee)
    (hk : callee.readAttribute "kind" = .ok (.text "MemberExpression"))
    (ho : callee.readAttribute "computed" = .ok computed) (hs : computed.isSet = false)
    (h : ofMember whitelist call callee smaller = .ok target) :
    ∃ receiver method, Method call receiver method ∧
      ((∃ owner, Custom whitelist receiver owner ∧
          target = .function (.text (owner.displayPlain ++ "." ++ method))) ∨
        ((∀ owner, ¬ Custom whitelist receiver owner) ∧
          ∃ less, target = .method ("*." ++ method) receiver less)) := by
  simp only [ofMember, except_bind_eq_ok, Subtype.exists] at h
  obtain ⟨property, _, hp, name, hn, receiver, _, hr, h⟩ := h
  refine ⟨receiver, name.displayPlain, ⟨callee, computed, property, name, hc, hk, ho, hs,
    Value.part_eq_ok hp, hn, rfl, Value.part_eq_ok hr⟩, ?_⟩
  obtain ⟨isName, hi, h⟩ := h
  obtain ⟨held, hheld, rfl⟩ := Value.isOfKind_eq_ok.mp hi
  cases hb : held.isTextOf "Identifier" with
  | false =>
    simp only [hb, Bool.false_eq_true, if_false] at h
    cases h
    refine .inr ⟨?_, _, rfl⟩
    rintro owner ⟨hkind, _⟩
    rw [hheld] at hkind
    cases hkind
    simp [Value.isTextOf] at hb
  | true =>
    rw [Value.isTextOf_iff.mp hb] at hheld
    simp only [hb, if_true, except_bind_eq_ok] at h
    obtain ⟨owner, hown, custom, hcustom, h⟩ := h
    cases custom with
    | true =>
      cases h
      exact .inl ⟨owner, ⟨hheld, hown, hcustom⟩, rfl⟩
    | false =>
      cases h
      refine .inr ⟨?_, _, rfl⟩
      rintro owner' ⟨_, hown', hcustom'⟩
      rw [hown] at hown'
      cases hown'
      rw [hcustom] at hcustom'
      cases hcustom'

/-- A target is a name that is called, or it is read off a member. -/
theorem of_spec {target : CallTarget call} (h : of whitelist call = .ok target)
    (hr : ∀ shape, target ≠ .refused shape) :
    ∃ callee, call.field? "callee" = some callee ∧
      ((callee.readAttribute "kind" = .ok (.text "Identifier") ∧
          ∃ name, callee.readAttribute "name" = .ok name ∧ target = .function name) ∨
        ∃ receiver method, Method call receiver method ∧
          ((∃ owner, Custom whitelist receiver owner ∧
              target = .function (.text (owner.displayPlain ++ "." ++ method))) ∨
            ((∀ owner, ¬ Custom whitelist receiver owner) ∧
              ∃ less, target = .method ("*." ++ method) receiver less))) := by
  simp only [of, except_bind_eq_ok, Subtype.exists] at h
  obtain ⟨callee, _, hc, kind, hk, h⟩ := h
  have hf := Node.get_eq_ok.mp hc
  refine ⟨callee, hf, ?_⟩
  split at h
  · next hi =>
    rw [Value.isTextOf_iff.mp hi] at hk
    obtain ⟨name, hn, h⟩ := except_bind_eq_ok.mp h
    cases h
    exact .inl ⟨hk, name, hn, rfl⟩
  · split at h
    · next hm =>
      rw [Value.isTextOf_iff.mp hm] at hk
      obtain ⟨computed, ho, h⟩ := except_bind_eq_ok.mp h
      split at h
      · cases h
        exact absurd rfl (hr _)
      · next hs => exact .inr (ofMember_spec hf hk ho (by simpa using hs) h)
    · cases h
      exact absurd rfl (hr _)

end CallTarget

namespace Semantics

open CallTarget

variable {whitelist : Whitelist} {path : Path} {arguments : Value} {function : Function}

/-- A call whose target is a signature applies the function of that signature to the arguments. -/
theorem calls_function {name : String}
    (h : CallTarget.of whitelist path.node = .ok (.function (.text name)))
    (hf : whitelist.callees.lookup name = some function)
    (ha : path.node.field? "arguments" = some arguments) (function' : Function)
    (tasks : List Task) :
    Calls whitelist path function' tasks ↔
      function' = function ∧ tasks = Task.ofItems path "arguments" arguments := by
  obtain ⟨callee, hc, hcase⟩ := of_spec h nofun
  constructor
  · intro hcalls
    rcases hcase with ⟨hk, name', hn, hname⟩ | ⟨receiver, method, hm, hcase⟩
    · cases hname
      cases hcalls with
      | name hc' hk' hn' hl ha' =>
        grind
      | ofCustom hm' => exact absurd hk (hm'.not_identifier hc)
      | method hm' => exact absurd hk (hm'.not_identifier hc)
    · rcases hcase with ⟨owner, hcustom, hname⟩ | ⟨_, _, hname⟩
      · cases hname
        cases hcalls with
        | name hc' hk' => exact absurd hk' (hm.not_identifier hc')
        | ofCustom hm' hcustom' hl ha' =>
          obtain ⟨rfl, rfl⟩ := hm.unique hm'
          obtain rfl := hcustom.unique hcustom'
          grind
        | method hm' hno =>
          obtain ⟨rfl, rfl⟩ := hm.unique hm'
          exact absurd hcustom (hno owner)
      · cases hname
  · rintro ⟨rfl, rfl⟩
    rcases hcase with ⟨hk, name', hn, hname⟩ | ⟨receiver, method, hm, hcase⟩
    · cases hname
      exact .name hc hk hn hf ha
    · rcases hcase with ⟨owner, hcustom, hname⟩ | ⟨_, _, hname⟩
      · cases hname
        exact .ofCustom hm hcustom hf ha
      · cases hname

/-- A call whose target is a method applies the function that has its signature for any receiver
to the receiver and the arguments. -/
theorem calls_method {signature : String} {receiver : Value}
    {smaller : sizeOf receiver < sizeOf path.node} {task : Task}
    (h : CallTarget.of whitelist path.node = .ok (.method signature receiver smaller))
    (hf : whitelist.callees.lookup signature = some function)
    (hr : Task.Root path "callee.object" receiver task)
    (ha : path.node.field? "arguments" = some arguments) (function' : Function)
    (tasks : List Task) :
    Calls whitelist path function' tasks ↔
      function' = function ∧ tasks = task :: Task.ofItems path "arguments" arguments := by
  obtain ⟨callee, hc, ⟨_, _, _, hname⟩ | ⟨receiver', method, hm, hcase⟩⟩ := of_spec h nofun
  · cases hname
  rcases hcase with ⟨_, _, hname⟩ | ⟨hno, _, hname⟩
  · cases hname
  cases hname
  constructor
  · intro hcalls
    cases hcalls with
    | name hc' hk' => exact absurd hk' (hm.not_identifier hc')
    | ofCustom hm' hcustom =>
      obtain ⟨rfl, rfl⟩ := hm.unique hm'
      exact absurd hcustom (hno _)
    | method hm' _ hl ht ha' =>
      obtain ⟨rfl, rfl⟩ := hm.unique hm'
      obtain rfl := hr.unique ht
      grind
  · rintro ⟨rfl, rfl⟩
    exact .method hm hno hf hr ha

end Semantics

end GatedExpr
