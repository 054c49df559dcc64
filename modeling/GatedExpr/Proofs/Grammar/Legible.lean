import GatedExpr.Proofs.Expr.Readable
import GatedExpr.Proofs.Grammar.Following
import GatedExpr.Proofs.Grammar.Writing

/-! # Texts write their expressions

The text of an expression writes it if no member is read by name off an integer. A text is put
together from operands along runs and from suffixes along chains, so all three are followed
through what a tree shows.
-/

namespace GatedExpr

open ExpressionGrammar

/-- No suffix but a point after an integer continues a text. -/
theorem Token.ends_of_suffixHead {raw : String} {c : Char} (hc : c ∈ suffixHeads)
    (hdot : IsInteger raw.toList → c ≠ '.') : Ends raw (some c) := by
  have hapart : ∀ d ∈ suffixHeads, ∀ symbol ∈ infixSymbols, d ∉ symbol.toList := by decide
  refine ⟨fun hi hn => hdot hi (Option.some.inj hn), ?_⟩
  rintro _ ⟨⟩ - other ho hp
  exact hapart c hc other ho (hp.subset (by simp))

namespace Expr

/-- What can follow the base of a chain. -/
def Continues (e : Expr) (c : Char) : Prop :=
  c ∈ Token.suffixHeads ∧ (e.isInteger = true → c ≠ '.')

/-- The first operand is written by its text, and so is each operation after it. -/
def LegibleRun (minimum : Nat) (e : Expr) : Prop :=
  Writes (.operand (operands minimum e).1) (operandText Precedence.unary (operands minimum e).1) ∧
    ∀ operation ∈ (operands minimum e).2, Writes (.operation operation) (operationText operation)

/-- The base is written by its text, and so is each suffix after it. -/
def LegibleChain (e : Expr) : Prop :=
  WritesBefore (Continues (links e).1) (.base (links e).1)
      (operandText Precedence.chain (links e).1) ∧
    ∀ suffix ∈ (links e).2, WritesClosed (.suffix suffix) suffix.text

/-- An expression is written by its text: as it stands, as a run and as a chain. -/
structure Legible (e : Expr) : Prop where
  item : Writes (.item .value e) e.text
  run : ∀ minimum, LegibleRun minimum e
  chain : LegibleChain e

variable {e f g : Expr} {es : List Expr} {source : List Char}

/-! ## Runs -/

theorem begins_operation (operation : String × Expr) :
    Begins Token.Separates (operationText operation) :=
  Begins.cons (by decide) _

/-- A run, and what it may be the test of. -/
theorem LegibleRun.item {minimum : Nat} (h : LegibleRun minimum e) (hpos : 0 < minimum)
    (hle : minimum ≤ Precedence.unary) {chosen : Option (Expr × Expr)}
    (hb : Writes (.branches chosen) source) (hsep : Begins Token.Separates source) :
    Writes (.item .value (e.withBranches chosen)) (operandText minimum e ++ source) := by
  have hoperations : List.Forall₂ (fun operation source => Writes (.operation operation) source)
      (operands minimum e).2 ((operands minimum e).2.map operationText) :=
    List.forall₂_map_right_iff.mpr (List.forall₂_same.mpr h.2)
  have hrun := Writes.run h.1 hoperations
    (List.forall_mem_map.mpr fun operation _ => begins_operation operation) hb hsep
  rw [fold_operands, ← List.flatMap_def, ← List.append_assoc,
    ← operandText_eq_operands hpos hle] at hrun
  exact hrun

theorem legibleRun_of_operand (h : Writes (.operand e) (operandText Precedence.unary e))
    (hne : ∀ symbol left right, e ≠ .binary symbol left right) (minimum : Nat) :
    LegibleRun minimum e := by
  have he : operands minimum e = (e, []) := by
    cases e with
    | binary symbol left right => exact absurd rfl (hne symbol left right)
    | _ => rfl
  rw [LegibleRun, he]
  exact ⟨h, nofun⟩

theorem legibleRun_binary {symbol : String} (hs : symbol ∈ infixSymbols) (hl : e.Legible)
    (hr : f.Legible) {minimum : Nat} (hle : minimum ≤ levelOf symbol) :
    LegibleRun minimum (.binary symbol e f) := by
  rw [LegibleRun, operands, if_neg (Nat.not_lt.mpr hle)]
  obtain ⟨hfirst, hbefore⟩ := hl.run (levelOf symbol)
  obtain ⟨hsecond, hafter⟩ := hr.run (levelOf symbol + 1)
  refine ⟨hfirst, fun operation hm => ?_⟩
  rcases List.mem_append.mp hm with hm | hm
  · exact hbefore operation hm
  · rcases List.mem_cons.mp hm with rfl | hm
    · exact hsecond.operation hs
    · exact hafter operation hm

/-! ## Chains -/

theorem begins_suffixes {suffixes : List Suffix}
    (hdot : e.isInteger = true → ∀ s, suffixes.head? ≠ some (.dot s)) :
    Begins (Continues e) (suffixes.map Suffix.text).flatten := by
  cases suffixes with
  | nil => exact .nil
  | cons suffix suffixes =>
    cases suffix with
    | dot s => exact .cons ⟨by decide, fun hi => absurd rfl (hdot hi s)⟩ _
    | index | arguments => exact .cons ⟨by decide, fun _ => by decide⟩ _

/-- A chain is an operand, unless a point follows an integer in it. -/
theorem LegibleChain.operand (h : LegibleChain e) (hdots : e.dotsInteger = false) :
    Writes (.operand e) (operandText Precedence.chain e) := by
  have hsuffixes : List.Forall₂ (fun suffix source => WritesClosed (.suffix suffix) source)
      (links e).2 ((links e).2.map Suffix.text) :=
    List.forall₂_map_right_iff.mpr (List.forall₂_same.mpr h.2)
  have hchain := Writes.chain h.1 hsuffixes (begins_suffixes (links_head?_ne_dot hdots))
  rw [foldl_links, ← List.flatMap_def, ← operandText_eq_links] at hchain
  exact hchain

theorem LegibleChain.apply (h : LegibleChain e) {suffix : Suffix}
    (hs : WritesClosed (.suffix suffix) suffix.text) : LegibleChain (suffix.apply e) := by
  have hlinks : links (suffix.apply e) = ((links e).1, (links e).2 ++ [suffix]) := by
    cases suffix <;> rfl
  rw [LegibleChain, hlinks]
  exact ⟨h.1, List.forall_mem_append.mpr ⟨h.2, List.forall_mem_singleton.mpr hs⟩⟩

theorem legibleChain_of_base
    (h : WritesBefore (Continues e) (.base e) (operandText Precedence.chain e))
    (he : links e = (e, [])) : LegibleChain e := by
  rw [LegibleChain, he]
  exact ⟨h, nofun⟩

/-! ## Expressions -/

/-- Parentheses make a base of what binds less strongly than a suffix. -/
theorem legibleChain_of_item (h : Writes (.item .value e) e.text)
    (hlt : e.level < Precedence.chain) : LegibleChain e := by
  refine legibleChain_of_base ?_ ?_
  · rw [operandText_of_lt hlt]
    exact h.parenthesized.mono fun _ _ => trivial
  · cases e with
    | unary | binary | choice => rfl
    | _ => exact absurd hlt (by simp [level]; decide)

theorem legible_of_chain (h : LegibleChain e) (hlevel : Precedence.chain ≤ e.level)
    (hdots : e.dotsInteger = false) : e.Legible := by
  have hoperand := h.operand hdots
  rw [operandText_of_le hlevel] at hoperand
  have hunary : operandText Precedence.unary e = e.text :=
    operandText_of_le (Nat.le_trans (by decide) hlevel)
  refine ⟨hoperand.of_operand, legibleRun_of_operand (hunary ▸ hoperand) ?_, h⟩
  rintro symbol left right rfl
  exact absurd hlevel (Nat.not_le.mpr (Nat.lt_of_le_of_lt (levelOf_le symbol) (by decide)))

theorem legible_of_base (h : WritesBefore (Continues e) (.base e) e.text)
    (he : links e = (e, [])) (hlevel : Precedence.chain ≤ e.level)
    (hdots : e.dotsInteger = false) : e.Legible :=
  legible_of_chain (legibleChain_of_base ((operandText_of_le hlevel).symm ▸ h) he) hlevel hdots

theorem Legible.operand (h : e.Legible) :
    Writes (.operand e) (operandText Precedence.unary e) := by
  have he : operands Precedence.unary e = (e, []) := by
    cases e with
    | binary symbol left right =>
      exact if_pos (Nat.lt_of_le_of_lt (levelOf_le symbol) (by decide))
    | _ => rfl
  have hrun := (h.run Precedence.unary).1
  rwa [he] at hrun

theorem blanks_gap (symbol : String) (e : Expr) : Blanks (gap symbol e) := by
  rw [gap]
  split <;> decide

theorem legible_unary {symbol : String} (hs : symbol ∈ UnaryOperator.all.map (·.symbol))
    (h : e.Legible) : (unary symbol e).Legible := by
  have hlt : Precedence.unary < Precedence.chain := by decide
  have hoperand := h.operand.signed hs (blanks_gap symbol e)
  rw [← List.append_assoc] at hoperand
  exact ⟨hoperand.of_operand, legibleRun_of_operand hoperand (by simp),
    legibleChain_of_item hoperand.of_operand hlt⟩

/-- What binds less strongly than an operand is one in parentheses. -/
theorem operand_of_item (h : Writes (.item .value e) e.text) (hlt : e.level < Precedence.unary) :
    Writes (.operand e) (operandText Precedence.unary e) := by
  rw [operandText_of_lt hlt]
  exact h.grouped

theorem legible_binary {symbol : String} (hs : symbol ∈ infixSymbols) (hl : e.Legible)
    (hr : f.Legible) : (binary symbol e f).Legible := by
  have hpos : ∀ x ∈ infixSymbols, Precedence.choice < levelOf x := by decide
  have hlt : levelOf symbol < Precedence.unary :=
    Nat.lt_of_le_of_lt (levelOf_le symbol) (by decide)
  have hrun {minimum : Nat} := @legibleRun_binary e f symbol hs hl hr minimum
  have hitem := (hrun (hpos symbol hs)).item (by decide) (by decide) Writes.noBranches .nil
  rw [List.append_nil, operandText_of_le (hpos symbol hs)] at hitem
  refine ⟨hitem, fun minimum => ?_, legibleChain_of_item hitem (Nat.lt_trans hlt (by decide))⟩
  rcases Nat.lt_or_ge (levelOf symbol) minimum with hm | hm
  · rw [LegibleRun, operands, if_pos hm]
    exact ⟨operand_of_item hitem hlt, nofun⟩
  · exact hrun hm

theorem legible_choice (he : e.Legible) (hf : f.Legible) (hg : g.Legible) :
    (choice e f g).Legible := by
  have hlt : Precedence.choice < Precedence.unary := by decide
  have hitem := (he.run (Precedence.choice + 1)).item (by decide) (by decide)
    (hf.item.branches hg.item) (Begins.cons (by decide) _)
  have htext : operandText (Precedence.choice + 1) e ++
      (' ' :: "?".toList ++ ' ' :: (f.text ++ ' ' :: ":".toList ++ ' ' :: g.text)) =
      (choice e f g).text := by
    simp [text, operandText]
  rw [htext] at hitem
  exact ⟨hitem, legibleRun_of_operand (operand_of_item hitem hlt) (by simp),
    legibleChain_of_item hitem (Nat.lt_trans hlt (by decide))⟩

/-! ## Leaves -/

theorem legible_literal {raw : String} {value : Value}
    (h : Token.IsNumber raw value ∨ Token.IsString raw value ∨ Token.IsKeyword raw value) :
    (literal raw).Legible := by
  refine legible_of_base ?_ rfl (Nat.le_of_ble_eq_true rfl) rfl
  refine (Writes.leaf (.literal le_rfl h)).mono fun c hc => ?_
  exact Token.ends_of_suffixHead hc.1 fun hi => hc.2 (decide_eq_true hi)

theorem legible_name {s : String} (h : Token.IsName s) (hfree : s ∉ Token.reservedWords) :
    (name s).Legible := by
  refine legible_of_base ?_ rfl (Nat.le_of_ble_eq_true rfl) rfl
  exact (Writes.leaf (.name le_rfl h hfree)).mono fun _ _ => Token.ends_of_name h _

/-! ## Lists -/

theorem listText_eq_joined (es : List Expr) : listText es = joined (es.map text) :=
  listText_eq es

theorem writesEach {role : Role} (h : ∀ e ∈ es, Writes (.item role e) e.text) :
    List.Forall₂ (fun e source => Writes (.item role e) source) es (es.map text) :=
  List.forall₂_map_right_iff.mpr (List.forall₂_same.mpr h)

theorem legible_object (h : ∀ p ∈ es, Writes (.item .property p) p.text)
    (hdots : anyDotsInteger es = false) : (object es).Legible := by
  refine legible_of_base ?_ rfl (Nat.le_of_ble_eq_true rfl) hdots
  have hobject := Writes.object (writesEach h)
  rw [← listText_eq_joined] at hobject
  exact hobject.mono fun _ _ => trivial

theorem furtherText_append_hole (es : List Expr) :
    furtherText (es ++ [.hole]) = furtherText es ++ [',', ' '] := by
  induction es with
  | nil => rfl
  | cons e es ih => simp [furtherText, ih]

/-- The elements that are read, of which a last hole is dropped. -/
theorem exists_read_elements (es : List Expr) :
    ∃ p ps, listText (p :: ps) = listText es ++ trailing es ∧
      kept (p :: ps) = es ∧ ∀ q ∈ p :: ps, q = .hole ∨ q ∈ es := by
  cases es with
  | nil => exact ⟨.hole, [], rfl, rfl, by simp⟩
  | cons e es =>
    cases hlast : (e :: es).getLast?.any isHole with
    | true =>
      refine ⟨e, es ++ [.hole], ?_, ?_, ?_⟩
      · rw [listText, furtherText_append_hole, trailing, if_pos hlast, listText]
        simp
      · rw [kept, ← List.cons_append, List.getLast?_concat, Option.any_some, isHole,
          if_pos rfl, List.dropLast_concat]
      · intro q hq
        rw [← List.cons_append, List.mem_append, List.mem_singleton] at hq
        exact hq.symm
    | false =>
      refine ⟨e, es, ?_, ?_, fun q hq => .inr hq⟩
      · rw [trailing, hlast]
        simp
      · rw [kept, hlast]
        simp

theorem legible_array (h : ∀ e ∈ es, Writes (.item .element e) e.text)
    (hdots : anyDotsInteger es = false) : (array es).Legible := by
  refine legible_of_base ?_ rfl (Nat.le_of_ble_eq_true rfl) hdots
  obtain ⟨p, ps, htext, hkept, hmem⟩ := exists_read_elements es
  have hall : ∀ q ∈ p :: ps, Writes (.item .element q) q.text := by
    intro q hq
    rcases hmem q hq with rfl | hin
    · exact Writes.hole
    · exact h q hin
  obtain ⟨hp, hps⟩ := List.forall_mem_cons.mp hall
  have harray := hp.array (writesEach hps)
  rw [hkept, ← List.map_cons, ← listText_eq_joined, htext] at harray
  exact harray.mono fun _ _ => trivial

/-! ## Suffixes -/

theorem legible_member {s : String} (h : e.Legible) (hs : Token.IsName s)
    (hdots : (member e s).dotsInteger = false) : (member e s).Legible := by
  have hname : Fills [s] s.toList := by
    simpa using Fills.nil.cons (Token.ends_none s)
  have hchain : LegibleChain (Suffix.apply e (.dot s)) := h.chain.apply (Writes.dot hs hname)
  exact legible_of_chain hchain (Nat.le_of_ble_eq_true rfl) hdots

theorem legible_index (h : e.Legible) (hk : f.Legible)
    (hdots : (index e f).dotsInteger = false) : (index e f).Legible := by
  have hchain : LegibleChain (Suffix.apply e (.index f)) := h.chain.apply hk.item.index
  exact legible_of_chain hchain (Nat.le_of_ble_eq_true rfl) hdots

theorem legible_call (h : e.Legible) (hs : ∀ f ∈ es, f.Legible)
    (hdots : (call e es).dotsInteger = false) : (call e es).Legible := by
  have harguments := Writes.arguments (writesEach fun f hf => (hs f hf).item)
  rw [← listText_eq_joined] at harguments
  have hchain : LegibleChain (Suffix.apply e (.arguments es)) := h.chain.apply harguments
  exact legible_of_chain hchain (Nat.le_of_ble_eq_true rfl) hdots

/-! ## All expressions -/

/-- What is legible in a place of that role. -/
def LegibleAs : Role → Expr → Prop
  | .value, e => e.Legible
  | role, e => Writes (.item role e) e.text

/-- Whatever a tree shows is legible, if nowhere a member is read by name off an integer. -/
theorem legible_of_depicts {role : Role} {v : Value} (h : Depicts role v e)
    (hdots : e.dotsInteger = false) : LegibleAs role e := by
  have each {role : Role} {items : List Value} {es : List Expr}
      (hl : items.length = es.length) (hes : anyDotsInteger es = false)
      (ih : ∀ v e, (v, e) ∈ items.zip es → e.dotsInteger = false → LegibleAs role e) :
      ∀ e ∈ es, LegibleAs role e := fun e he =>
    forall_of_zip hl ih e he (anyDotsInteger_eq_false.mp hes e he)
  induction h with
  | literal hl => exact legible_literal hl
  | name hn hfree => exact legible_name hn hfree
  | hole => exact Writes.hole
  | element _ ih => exact Writes.element (ih hdots).item
  | array hl _ ih => exact legible_array (each hl hdots ih) hdots
  | keyName hn => exact (Writes.leaf (.keyName le_rfl hn)).writes
  | keyLiteral hl => exact (Writes.leaf (.keyLiteral le_rfl hl)).writes
  | @property _ _ k _ _ hk _ ihk ih =>
    have hkey : k.dotsInteger = false := by
      cases hk <;> rfl
    have hproperty := Writes.property (ihk hkey) (ih hdots).item
    rw [List.append_assoc] at hproperty
    exact hproperty
  | object hl _ ih => exact legible_object (each hl hdots ih) hdots
  | member _ hn ih =>
    exact legible_member (ih (Bool.or_eq_false_iff.mp hdots).2) hn hdots
  | index _ _ iht ihk =>
    obtain ⟨ht, hk⟩ := Bool.or_eq_false_iff.mp hdots
    exact legible_index (iht ht) (ihk hk) hdots
  | call _ hl _ ihc ih =>
    obtain ⟨hc, hes⟩ := Bool.or_eq_false_iff.mp hdots
    exact legible_call (ihc hc) (each hl hes ih) hdots
  | unary hs _ ih => exact legible_unary hs (ih hdots)
  | binary hs _ _ ihl ihr =>
    obtain ⟨hl, hr⟩ := Bool.or_eq_false_iff.mp hdots
    exact legible_binary hs (ihl hl) (ihr hr)
  | choice _ _ _ iht ihc iha =>
    obtain ⟨htc, ha⟩ := Bool.or_eq_false_iff.mp hdots
    obtain ⟨ht, hc⟩ := Bool.or_eq_false_iff.mp htc
    exact legible_choice (iht ht) (ihc hc) (iha ha)

end Expr

end GatedExpr
