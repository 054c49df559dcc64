import GatedExpr.Proofs.Expr.Readable
import GatedExpr.Proofs.Number.Finite
import GatedExpr.Value.Equality

/-! # Trees of equal contents

Two trees have equal contents exactly if they show the same expression: spans play no part, and
the value of a literal is settled by its text.
-/

namespace GatedExpr

namespace Value

/-- Equal contents, or the same number object. -/
def agrees (v w : Value) : Bool :=
  v.isSameNumber w || v.hasContentOf w

variable {v w : Value} {kind other raw : String} {span inner : Span}
  {fields others : List (String × Value)}

theorem agrees_of_hasContentOf (h : v.hasContentOf w = true) : v.agrees w = true := by
  rw [agrees, h, Bool.or_true]

@[simp] theorem haveContentsOf_cons (items others : List Value) :
    haveContentsOf (v :: items) (w :: others) = (v.agrees w && haveContentsOf items others) := by
  rw [haveContentsOf, agrees]

@[simp] theorem entriesHaveContentsOf_nil : entriesHaveContentsOf [] others = true := by
  rw [entriesHaveContentsOf]

@[simp] theorem entriesHaveContentsOf_cons (key : String) :
    entriesHaveContentsOf ((key, v) :: fields) others =
      ((others.lookup key).any (v.agrees ·) && entriesHaveContentsOf fields others) := by
  rw [entriesHaveContentsOf]
  rfl

@[simp] theorem agrees_ofList (items others : List Value) :
    (ofList items).agrees (ofList others) = haveContentsOf items others := by
  simp [agrees, ofList, isSameNumber, hasContentOf]

@[simp] theorem agrees_text (s t : String) : (text s).agrees (text t) = (s == t) := by
  simp [agrees, isSameNumber, hasContentOf]

@[simp] theorem agrees_bool (a b : Bool) : (bool a).agrees (bool b) = (a == b) := by
  cases a <;> cases b <;> decide +kernel

@[simp] theorem agrees_null : null.agrees null = true := by
  simp [agrees, hasContentOf]

@[simp] theorem agrees_branch : (branch kind span fields).agrees (branch other inner others) =
    (kind == other && fields.length == others.length && entriesHaveContentsOf fields others) := by
  simp [agrees, isSameNumber, branch, ofTree, Node.make, hasContentOf, Node.equals,
    childrenHaveContentsOf]

@[simp] theorem agrees_literal (s t : String) : (literal span s v).agrees (literal inner t w) =
    (s == t && v.agrees w) := by
  simp [agrees, isSameNumber, literal, ofTree, hasContentOf, Node.equals, childrenHaveContentsOf]

@[simp] theorem agrees_branch_literal :
    (branch kind span fields).agrees (literal inner raw v) = false := by
  simp [agrees, isSameNumber, branch, literal, ofTree, Node.make, hasContentOf, Node.equals]

@[simp] theorem agrees_literal_branch :
    (literal inner raw v).agrees (branch kind span fields) = false := by
  simp [agrees, isSameNumber, branch, literal, ofTree, Node.make, hasContentOf, Node.equals]

end Value

namespace Token

variable {raw : String} {v w : Value}

/-- No number, string or word is spelled like one of another sort. -/
theorem literal_apart :
    (IsNumber raw v → ¬ IsString raw w) ∧ (IsNumber raw v → ¬ IsKeyword raw w) ∧
      (IsString raw v → ¬ IsKeyword raw w) := by
  have hnumber (h : IsNumber raw v) : ∃ c rest, raw.toList = c :: rest ∧ c ≠ '"' ∧ c ≠ '\'' ∧
      c ≠ 't' ∧ c ≠ 'f' ∧ c ≠ 'n' := by
    obtain ⟨c, rest, he, hc⟩ := number_head (h.1.spells rfl)
    refine ⟨c, rest, he, ?_, ?_, ?_, ?_, ?_⟩ <;>
      · rintro rfl
        revert hc
        decide
  have hkeyword (h : IsKeyword raw w) : ∃ c rest, raw.toList = c :: rest ∧ c ≠ '"' ∧ c ≠ '\'' ∧
      (c = 't' ∨ c = 'f' ∨ c = 'n') := by
    cases h <;> exact ⟨_, _, rfl, by decide, by decide, by decide⟩
  have hstring {x : Value} (h : IsString raw x) :
      ∃ c rest, raw.toList = c :: rest ∧ (c = '"' ∨ c = '\'') := by
    obtain ⟨mark, body, hm, he, -⟩ := string_cases (h.1.spells rfl)
    exact ⟨mark, _, he, hm⟩
  refine ⟨fun hn hs => ?_, fun hn hk => ?_, fun hs hk => ?_⟩
  · obtain ⟨c, rest, he, hdouble, hsingle, -⟩ := hnumber hn
    obtain ⟨d, more, he', hd⟩ := hstring hs
    cases he.symm.trans he'
    exact hd.elim hdouble hsingle
  · obtain ⟨c, rest, he, -, -, ht, hf, hnull⟩ := hnumber hn
    obtain ⟨d, more, he', -, -, hd⟩ := hkeyword hk
    cases he.symm.trans he'
    exact hd.elim ht fun hd => hd.elim hf hnull
  · obtain ⟨c, rest, he, hc⟩ := hstring hs
    obtain ⟨d, more, he', hdouble, hsingle, -⟩ := hkeyword hk
    cases he.symm.trans he'
    exact hc.elim hdouble hsingle

/-- The value of a literal is settled by its text. -/
theorem literal_unique (h : IsNumber raw v ∨ IsString raw v ∨ IsKeyword raw v)
    (h' : IsNumber raw w ∨ IsString raw w ∨ IsKeyword raw w) : v = w := by
  rcases h with h | h | h <;> rcases h' with h' | h' | h'
  · obtain ⟨-, m, hm, rfl⟩ := h
    obtain ⟨-, n, hn, rfl⟩ := h'
    cases hm.symm.trans hn
    rfl
  · exact absurd h' (literal_apart.1 h)
  · exact absurd h' (literal_apart.2.1 h)
  · exact absurd h (literal_apart.1 h')
  · exact h.2.trans h'.2.symm
  · exact absurd h' (literal_apart.2.2 h)
  · exact absurd h (literal_apart.2.1 h')
  · exact absurd h (literal_apart.2.2 h')
  · have hvalue {x : Value} (hx : IsKeyword raw x) :
        raw = "true" ∧ x = .bool true ∨ raw = "false" ∧ x = .bool false ∨
          raw = "null" ∧ x = .null := by
      cases hx <;> simp
    rcases hvalue h with ⟨rfl, rfl⟩ | ⟨rfl, rfl⟩ | ⟨rfl, rfl⟩ <;>
      rcases hvalue h' with ⟨he, rfl⟩ | ⟨he, rfl⟩ | ⟨he, rfl⟩ <;> simp_all

theorem agrees_of_literal (h : IsNumber raw v ∨ IsString raw v ∨ IsKeyword raw v)
    (h' : IsNumber raw w ∨ IsString raw w ∨ IsKeyword raw w) : v.agrees w = true := by
  obtain rfl := literal_unique h h'
  rcases h with ⟨-, n, hn, rfl⟩ | ⟨-, rfl⟩ | hk
  · have hself := Number.equals_self (Number.isNaN_ofToken hn)
    exact Value.agrees_of_hasContentOf (by
      simpa [Value.ofNumber, Value.hasContentOf, Value.number?] using hself)
  · simp
  · cases hk <;> simp

end Token

namespace Depicts

variable {role : Role} {v w : Value} {e f : Expr}

theorem agreeEach_iff {items others : List Value} {es fs : List Expr}
    (ih : ∀ v e, (v, e) ∈ items.zip es → ∀ {w f}, Depicts role w f →
      (v.agrees w = true ↔ e = f)) (h : DepictsEach role items es)
    (h' : DepictsEach role others fs) :
    Value.haveContentsOf items others = true ↔ es = fs := by
  induction items generalizing others es fs with
  | nil =>
    rw [h.of_nil]
    cases others with
    | nil => simp [h'.of_nil, Value.haveContentsOf]
    | cons w others =>
      obtain ⟨f, fs, rfl, -⟩ := h'.of_cons
      simp [Value.haveContentsOf]
  | cons v items ihs =>
    obtain ⟨e, es, rfl, he, hes⟩ := h.of_cons
    cases others with
    | nil => simp [h'.of_nil, Value.haveContentsOf]
    | cons w others =>
      obtain ⟨f, fs, rfl, hf, hfs⟩ := h'.of_cons
      have hhead := ih v e List.mem_cons_self hf
      have htail := ihs (fun v e hm => ih v e (List.mem_cons_of_mem _ hm)) hes hfs
      simp [hhead, htail]

/-- A literal is told from other literals by its text. -/
theorem agrees_literal_iff {raw other : String} {span inner : Span}
    (h : Token.IsNumber raw v ∨ Token.IsString raw v ∨ Token.IsKeyword raw v)
    (h' : Token.IsNumber other w ∨ Token.IsString other w ∨ Token.IsKeyword other w) :
    (Value.literal span raw v).agrees (.literal inner other w) = true ↔ raw = other := by
  rw [Value.agrees_literal, Bool.and_eq_true, beq_iff_eq]
  refine ⟨And.left, ?_⟩
  rintro rfl
  exact ⟨rfl, Token.agrees_of_literal h h'⟩

theorem agrees_hole (h : Depicts .value v e) : Value.null.agrees v = false ∧
    v.agrees .null = false ∧ e ≠ .hole := by
  cases h <;> simp [Value.agrees, Value.isSameNumber, Value.hasContentOf, Value.literal,
    Value.identifier, Value.branch, Value.ofTree]

theorem agrees_iff (h : Depicts role v e) (h' : Depicts role w f) :
    v.agrees w = true ↔ e = f := by
  induction h generalizing w f with
  | literal hl =>
    cases h' with
    | literal hl' =>
      rw [Expr.literal.injEq]
      exact agrees_literal_iff hl hl'
    | _ => simp [Value.identifier]
  | name => cases h' <;> simp [Value.identifier]
  | hole =>
    cases h' with
    | hole => simp
    | element hw => simp [agrees_hole hw, (agrees_hole hw).2.2.symm]
  | element hv ih =>
    cases h' with
    | hole => simp [agrees_hole hv]
    | element hw => exact ih hw
  | array hl hall ih =>
    cases h' with
    | array hl' hall' => simp [agreeEach_iff ih ⟨hl, hall⟩ ⟨hl', hall'⟩]
    | _ => simp [Value.identifier]
  | keyName => cases h' <;> simp [Value.identifier]
  | keyLiteral hl =>
    cases h' with
    | keyLiteral hl' =>
      rw [Expr.literal.injEq]
      exact agrees_literal_iff (hl.imp_right .inl) (hl'.imp_right .inl)
    | _ => simp [Value.identifier]
  | property hk hv ihk ihv =>
    cases h' with
    | property hk' hv' => simp [List.lookup_cons, ihk hk', ihv hv']
  | object hl hall ih =>
    cases h' with
    | object hl' hall' => simp [agreeEach_iff ih ⟨hl, hall⟩ ⟨hl', hall'⟩]
    | _ => simp [Value.identifier]
  | member hv hn ih =>
    cases h' with
    | member hv' hn' => simp [List.lookup_cons, ih hv', Value.identifier]
    | _ => simp [List.lookup_cons, Value.identifier]
  | index hv hw ihv ihw =>
    cases h' with
    | index hv' hw' => simp [List.lookup_cons, ihv hv', ihw hw']
    | _ => simp [List.lookup_cons, Value.identifier]
  | call hv hl hall ih ihs =>
    cases h' with
    | call hv' hl' hall' =>
      simp [List.lookup_cons, ih hv', agreeEach_iff ihs ⟨hl, hall⟩ ⟨hl', hall'⟩]
    | _ => simp [Value.identifier]
  | unary hs hv ih =>
    cases h' with
    | unary hs' hv' => simp [List.lookup_cons, ih hv']
    | _ => simp [Value.identifier]
  | binary hs hv hw ihv ihw =>
    cases h' with
    | binary hs' hv' hw' => simp [List.lookup_cons, ihv hv', ihw hw']
    | _ => simp [Value.identifier]
  | choice ht hc ha iht ihc iha =>
    cases h' with
    | choice ht' hc' ha' => simp [List.lookup_cons, iht ht', ihc hc', iha ha']
    | _ => simp [Value.identifier]

/-- A tree shows one expression only. -/
theorem unique (h : Depicts role v e) (h' : Depicts role v f) : e = f :=
  (agrees_iff h h').mp ((agrees_iff h h).mpr rfl)

/-- Trees have equal contents exactly if they show the same expression. -/
theorem hasContentOf_iff (h : Depicts .value v e) (h' : Depicts .value w f) :
    v.hasContentOf w = true ↔ e = f := by
  rw [← agrees_iff h h', Value.agrees]
  have hnode : v.isSameNumber w = false := by
    cases h <;> rfl
  rw [hnode, Bool.false_or]

end Depicts

end GatedExpr
