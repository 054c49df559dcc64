import Mathlib
import GatedExpr.Proofs.Number.Exact
import GatedExpr.Proofs.Value.AlikeCoercions

/-! # Laws of equality

Values are strictly equal when they are told apart by nothing, and not-a-number is told apart from
everything. Loose equality is strict equality after coercions, one operand at a time, of which there
are at most two.
-/

namespace GatedExpr

namespace Value

variable {a b c : Value}

/-! ## Strict equality -/

/-- What strict equality tells values apart by: what they hold if that is simple, and otherwise
which object they are. -/
inductive Essence where
  | null
  | absent
  | bool (b : Bool)
  | number (value : Number.Exact)
  | text (s : String)
  /-- There is only one empty tuple. -/
  | tuple (id : Option Identity)
  | list (id : Identity)
  | map (id : Identity)
  | object (id : Identity)
  | function (id : Identity)
  | method (id : Identity)
  | node (id : Identity)
  | span (id : Identity)

/-- Not-a-number has nothing that it could share with a value. -/
def essence? : Value → Option Essence
  | .null => some .null
  | .absent => some .absent
  | .bool b => some (.bool b)
  | .number _ n => n.exactValue?.map .number
  | .text s => some (.text s)
  | .tuple id items => some (.tuple (if items.isEmpty then none else some id))
  | .list id _ => some (.list id)
  | .map id _ => some (.map id)
  | .object id _ => some (.object id)
  | .function id _ => some (.function id)
  | .method id _ _ => some (.method id)
  | .node id _ => some (.node id)
  | .span id _ => some (.span id)

theorem essence?_number (id : Identity) (n : Number) {e : Essence} :
    (number id n).essence? = some e ↔ ∃ p, n.exactValue? = some p ∧ .number p = e := by
  rw [essence?, Option.map_eq_some_iff]

theorem exists_essence (h : ∀ id n, a ≠ number id n) : ∃ e, a.essence? = some e := by
  cases a with
  | number id n => exact absurd rfl (h id n)
  | _ => exact ⟨_, rfl⟩

theorem isSame_iff (h : ∀ id n, a ≠ number id n) :
    a.isSame b = true ↔ a.essence? = b.essence? := by
  cases b with
  | number id n =>
    rw [eq_comm]
    cases a
    case number => exact absurd rfl (h _ _)
    all_goals simp [isSame, essence?]
  | tuple j ys =>
    cases a
    case number => exact absurd rfl (h _ _)
    case tuple i xs => cases xs <;> cases ys <;> simp [isSame, essence?]
    all_goals simp [isSame, essence?]
  | _ =>
    cases a
    case number => exact absurd rfl (h _ _)
    all_goals simp [isSame, essence?]

/-- Values are strictly equal when they share what they are told apart by. -/
theorem strictEquals_iff :
    a.strictEquals b = true ↔ ∃ e, a.essence? = some e ∧ b.essence? = some e := by
  have hsimple (h : ∀ id n, a ≠ number id n) : a.isSame b = true ↔
      ∃ e, a.essence? = some e ∧ b.essence? = some e := by
    obtain ⟨e, he⟩ := exists_essence h
    rw [isSame_iff h, he]
    constructor
    · exact fun h => ⟨e, rfl, h.symm⟩
    · rintro ⟨_, h, h'⟩
      exact h.trans h'.symm
  cases a with
  | number i m =>
    cases b with
    | number j n =>
      simp only [strictEquals, Number.equals_iff, essence?_number]
      constructor
      · rintro ⟨p, hm, hn⟩
        exact ⟨_, ⟨p, hm, rfl⟩, ⟨p, hn, rfl⟩⟩
      · rintro ⟨_, ⟨p, hm, rfl⟩, ⟨q, hn, ⟨⟩⟩⟩
        exact ⟨p, hm, hn⟩
    | _ => simp [strictEquals, isSame, essence?]
  | _ => exact hsimple fun _ _ h => by cases h

theorem strictEquals_comm (a b : Value) : a.strictEquals b = b.strictEquals a := by
  rw [Bool.eq_iff_iff, strictEquals_iff, strictEquals_iff]
  exact exists_congr fun _ => and_comm

theorem strictEquals_trans (hab : a.strictEquals b = true) (hbc : b.strictEquals c = true) :
    a.strictEquals c = true := by
  obtain ⟨e, ha, hb⟩ := strictEquals_iff.mp hab
  obtain ⟨f, hb', hc⟩ := strictEquals_iff.mp hbc
  rw [hb] at hb'
  cases hb'
  exact strictEquals_iff.mpr ⟨e, ha, hc⟩

/-- The value is the number not-a-number. -/
def IsNaN (value : Value) : Prop :=
  ∃ id n, value = .number id n ∧ n.isNaN = true

theorem essence?_eq_none : a.essence? = none ↔ a.IsNaN := by
  cases a with
  | number id n =>
    rw [essence?, Option.map_eq_none_iff, Number.exactValue?_eq_none]
    exact ⟨fun h => ⟨id, n, rfl, h⟩, by rintro ⟨_, _, ⟨⟩, h⟩; exact h⟩
  | _ => exact iff_of_false nofun nofun

theorem strictEquals_self_iff : a.strictEquals a = true ↔ ¬ a.IsNaN := by
  rw [strictEquals_iff, ← essence?_eq_none, ← ne_eq, Option.ne_none_iff_exists']
  exact exists_congr fun _ => and_self_iff

/-! ## Loose equality -/

/-- What a call of loose equality comes to: an answer, or another call after a coercion. -/
inductive LooseCall where
  | answer (equal : Bool)
  | again (left right : Value)

/-- One call of loose equality. Null equals null only, a boolean becomes a number, a number and a
text are compared as numbers, a list or map beside anything else becomes a text, and what is left is
compared strictly. -/
def looseCall : Value → Value → LooseCall
  | .null, right => .answer right.isNull
  | _, .null => .answer false
  | .bool b, right => .again (.int (if b then 1 else 0)) right
  | left, .bool b => .again left (.int (if b then 1 else 0))
  | .number _ m, .text s => .answer (m.equals (text s).toNumber)
  | .text s, .number _ n => .answer ((text s).toNumber.equals n)
  | left, right =>
    if left.isContainer && !right.isContainer then .again left.primitive right
    else if right.isContainer && !left.isContainer then .again left right.primitive
    else .answer (left.strictEquals right)

/-- Calling loose equality on two values leads to an answer after so many coercions. -/
inductive LooselyCompares : Nat → Value → Value → Bool → Prop where

  | answer {left right : Value} {equal : Bool} : looseCall left right = .answer equal →
      LooselyCompares 0 left right equal

  | again {n : Nat} {left right left' right' : Value} {equal : Bool} :
      looseCall left right = .again left' right' → LooselyCompares n left' right' equal →
      LooselyCompares (n + 1) left right equal

/-- How often a value can be coerced. -/
def coercions : Value → Nat
  | .bool _ | .list .. | .map .. => 1
  | _ => 0

theorem isNull_of_ne {value : Value} (h : value = .null → False) : value.isNull = false := by
  cases value with
  | null => exact absurd rfl h
  | _ => rfl

theorem unboxBool_of_ne {value : Value} (h : ∀ b, value = .bool b → False) :
    value.unboxBool = value := by
  cases value with
  | bool b => exact absurd rfl (h b)
  | _ => rfl

theorem again_cases {left right left' right' : Value}
    (h : looseCall left right = .again left' right') :
    left.isNull = false ∧ right.isNull = false ∧
      ((∃ b, left = .bool b ∧ left' = left.unboxBool ∧ right' = right) ∨
        (∃ b, right = .bool b ∧ left' = left ∧ right' = right.unboxBool) ∨
        (left.isContainer = true ∧ right.isContainer = false ∧ left' = left.primitive ∧
          right' = right) ∨
        (right.isContainer = true ∧ left.isContainer = false ∧ left' = left ∧
          right' = right.primitive)) := by
  unfold looseCall at h
  split at h
  · cases h
  · cases h
  · next b hright =>
    cases h
    exact ⟨rfl, isNull_of_ne hright, .inl ⟨b, rfl, rfl, rfl⟩⟩
  · next b hleft _ =>
    cases h
    exact ⟨isNull_of_ne hleft, rfl, .inr (.inl ⟨b, rfl, rfl, rfl⟩)⟩
  · cases h
  · cases h
  · next hleft _ hright _ _ _ =>
    refine ⟨isNull_of_ne hleft, isNull_of_ne hright, .inr (.inr ?_)⟩
    split at h
    · next hcontainers =>
      cases h
      simp only [Bool.and_eq_true, Bool.not_eq_true'] at hcontainers
      exact .inl ⟨hcontainers.1, hcontainers.2, rfl, rfl⟩
    · split at h
      · next hcontainers =>
        cases h
        simp only [Bool.and_eq_true, Bool.not_eq_true'] at hcontainers
        exact .inr ⟨hcontainers.1, hcontainers.2, rfl, rfl⟩
      · cases h

theorem coercions_of_again {left right left' right' : Value}
    (h : looseCall left right = .again left' right') :
    left'.coercions + right'.coercions + 1 = left.coercions + right.coercions := by
  have hcontainer {value : Value} (h : value.isContainer = true) :
      value.primitive.coercions + 1 = value.coercions := by
    rw [primitive, if_pos h]
    cases value <;> first | rfl | cases h
  obtain ⟨-, -, hcases⟩ := again_cases h
  rcases hcases with ⟨b, rfl, rfl, rfl⟩ | ⟨b, rfl, rfl, rfl⟩ | ⟨hc, -, rfl, rfl⟩ | ⟨hc, -, rfl, rfl⟩
  · exact Nat.add_right_comm 0 _ 1
  · rfl
  · rw [← hcontainer hc, Nat.add_right_comm]
  · rw [← hcontainer hc, Nat.add_assoc]

theorem looseEquals_of_unboxBool {left right other : Value} (hleft : left.isNull = false)
    (hother : other.isNull = false) (h : other.unboxBool = left.unboxBool) :
    left.looseEquals right = other.looseEquals right := by
  rw [looseEquals_eq, looseEquals_eq, hleft, hother, h]

/-- One of the values is a number and the other one a text. -/
def numberMeetsText : Value → Value → Bool
  | .number .., .text _ | .text _, .number .. => true
  | _, _ => false

theorem numberMeetsText_comm (left right : Value) :
    left.numberMeetsText right = right.numberMeetsText left := by
  cases left <;> cases right <;> rfl

theorem equalsAcross_eq (left right : Value) : left.equalsAcross right =
    if left.numberMeetsText right then left.toNumber.equals right.toNumber
    else left.strictEquals right := by
  unfold equalsAcross numberMeetsText
  split
  · rfl
  · rfl
  · simp

theorem equalsAcross_comm (left right : Value) :
    left.equalsAcross right = right.equalsAcross left := by
  rw [equalsAcross_eq, equalsAcross_eq, numberMeetsText_comm, Number.equals_comm, strictEquals_comm]

theorem looseEquals_comm (left right : Value) :
    left.looseEquals right = right.looseEquals left := by
  rw [looseEquals_eq, looseEquals_eq, Bool.or_comm, Bool.and_comm]
  split
  · rfl
  · cases left.unboxBool.isContainer <;> cases right.unboxBool.isContainer <;>
      exact equalsAcross_comm _ _

/-- A list or map beside anything else counts as its text. -/
theorem looseEquals_of_container {left right : Value} (hleft : left.isContainer = true)
    (hright : right.isContainer = false) :
    left.looseEquals right = left.primitive.looseEquals right := by
  have hunboxed : right.unboxBool.isContainer = false := by
    cases right <;> first | rfl | exact hright
  have hleft' : left.unboxBool = left ∧ left.isNull = false := by
    cases left <;> first | exact ⟨rfl, rfl⟩ | cases hleft
  rw [looseEquals_eq, looseEquals_eq, primitive, if_pos hleft, hleft'.1, hleft'.2, hleft, hunboxed]
  rfl

/-- A coercion changes nothing about loose equality. -/
theorem looseEquals_of_again {left right left' right' : Value}
    (h : looseCall left right = .again left' right') :
    left.looseEquals right = left'.looseEquals right' := by
  obtain ⟨hleft, hright, hcases⟩ := again_cases h
  rcases hcases with
    ⟨b, rfl, rfl, rfl⟩ | ⟨b, rfl, rfl, rfl⟩ | ⟨hc, hn, rfl, rfl⟩ | ⟨hc, hn, rfl, rfl⟩
  · exact looseEquals_of_unboxBool rfl rfl rfl
  · rw [looseEquals_comm, looseEquals_comm left']
    exact looseEquals_of_unboxBool rfl rfl rfl
  · exact looseEquals_of_container hc hn
  · rw [looseEquals_comm, looseEquals_comm left']
    exact looseEquals_of_container hc hn

theorem looseEquals_eq_strictEquals {left right : Value} (hleft : left.isNull = false)
    (hright : right.isNull = false) (hl : left.unboxBool = left) (hr : right.unboxBool = right)
    (hcontainers : left.isContainer = right.isContainer)
    (hmeets : left.numberMeetsText right = false) :
    left.looseEquals right = left.strictEquals right := by
  have hacross : left.equalsAcross right = left.strictEquals right := by
    rw [equalsAcross_eq, hmeets]
    rfl
  rw [looseEquals_eq, hleft, hright, hl, hr, hcontainers, ← hacross]
  cases right.isContainer <;> rfl

theorem looseEquals_of_answer {left right : Value} {equal : Bool}
    (h : looseCall left right = .answer equal) : left.looseEquals right = equal := by
  unfold looseCall at h
  split at h
  · cases h
    cases right <;> rfl
  · cases h
    cases left <;> first | rfl | contradiction
  · cases h
  · cases h
  · cases h
    rfl
  · cases h
    rfl
  · next hleft hbool hright hbool' hnumber htext =>
    have hmeets : left.numberMeetsText right = false := by
      unfold numberMeetsText
      split
      · exact absurd rfl (hnumber _ _ _ rfl)
      · exact absurd rfl (htext _ _ _ rfl)
      · rfl
    -- Neither operand was coerced, so both are lists or maps, or neither is.
    have hcontainers : left.isContainer = right.isContainer ∧ left.strictEquals right = equal := by
      split at h
      · cases h
      · next hl =>
        split at h
        · cases h
        · next hr =>
          cases h
          revert hl hr
          cases left.isContainer <;> cases right.isContainer <;> simp
    rw [looseEquals_eq_strictEquals (isNull_of_ne hleft) (isNull_of_ne hright)
      (unboxBool_of_ne hbool) (unboxBool_of_ne hbool') hcontainers.1 hmeets, hcontainers.2]

/-- The calls of loose equality come to an end after as many coercions as the values allow. -/
theorem looselyCompares_of_coercions (left right : Value) : ∃ n ≤ left.coercions + right.coercions,
    LooselyCompares n left right (left.looseEquals right) := by
  induction hn : left.coercions + right.coercions generalizing left right with
  | zero =>
    cases h : looseCall left right with
    | answer equal => exact ⟨0, le_rfl, .answer (by rw [h, looseEquals_of_answer h])⟩
    | again left' right' =>
      have hless := coercions_of_again h
      omega
  | succ n ih =>
    cases h : looseCall left right with
    | answer equal => exact ⟨0, Nat.zero_le _, .answer (by rw [h, looseEquals_of_answer h])⟩
    | again left' right' =>
      have hless := coercions_of_again h
      obtain ⟨m, hm, hcompares⟩ := ih left' right' (by omega)
      exact ⟨m + 1, by omega, .again h (looseEquals_of_again h ▸ hcompares)⟩

theorem LooselyCompares.unique {n : Nat} {left right : Value} {equal : Bool}
    (h : LooselyCompares n left right equal) : equal = left.looseEquals right := by
  induction h with
  | answer h => exact (looseEquals_of_answer h).symm
  | again h _ ih => rw [looseEquals_of_again h, ih]

theorem coercions_le_one (value : Value) : value.coercions ≤ 1 := by
  cases value <;> simp [coercions]

theorem looseEquals_of_strictEquals (h : a.strictEquals b = true) : a.looseEquals b = true := by
  cases a with
  | null => cases b <;> first | rfl | cases h
  | bool x =>
    cases b with
    | bool y =>
      obtain rfl : x = y := eq_of_beq h
      exact Number.equals_iff.mpr ⟨_, Number.exactValue?_int _, Number.exactValue?_int _⟩
    | _ => cases h
  | _ =>
    cases b <;>
      first
      | refine Eq.trans (looseEquals_eq_strictEquals ?_ ?_ ?_ ?_ ?_ ?_) h <;> rfl
      | cases h

/-- The calls of loose equality end after two coercions at most, always in the same answer. Both
equalities are symmetric, and strict equality implies loose equality and is transitive; it is
reflexive on everything but not-a-number. -/
theorem equality_laws (a b c : Value) :
    (∃ n ≤ 2, LooselyCompares n a b (a.looseEquals b)) ∧
    (∀ n equal, LooselyCompares n a b equal → equal = a.looseEquals b) ∧
    a.looseEquals b = b.looseEquals a ∧ a.strictEquals b = b.strictEquals a ∧
    (a.strictEquals b = true → a.looseEquals b = true) ∧
    (a.strictEquals b = true → b.strictEquals c = true → a.strictEquals c = true) ∧
    (a.strictEquals a = true ↔ ¬ a.IsNaN) := by
  refine ⟨?_, fun _ _ => LooselyCompares.unique, looseEquals_comm a b, strictEquals_comm a b,
    looseEquals_of_strictEquals, strictEquals_trans, strictEquals_self_iff⟩
  obtain ⟨n, hn, hcompares⟩ := looselyCompares_of_coercions a b
  exact ⟨n, hn.trans (Nat.add_le_add a.coercions_le_one b.coercions_le_one), hcompares⟩

/-- An integer, a double of its size and the same integer again. -/
theorem equality_laws_one :
    (int 1).strictEquals (float 1) = true ∧ (float 1).strictEquals (int 1) = true ∧
      (int 1).looseEquals (float 1) = true ∧ (int 1).strictEquals (int 1) = true := by
  have hstrict : (int 1).strictEquals (float 1) = true := by decide +kernel
  obtain ⟨-, -, -, hcomm, hloose, htrans, -⟩ := equality_laws (int 1) (float 1) (int 1)
  have hstrict' : (float 1).strictEquals (int 1) = true := hcomm ▸ hstrict
  exact ⟨hstrict, hstrict', hloose hstrict, htrans hstrict hstrict'⟩

end Value

end GatedExpr
