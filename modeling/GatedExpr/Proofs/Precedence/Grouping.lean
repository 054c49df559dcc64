import GatedExpr.Operator
import GatedExpr.Table

/-! # Groupings of runs

A run is an operand followed by infix operators with their right operands, and a grouping says
which parts of it belong together. Operators that bind more strongly come first and equal ones
associate to the left: exactly one grouping of a run obeys that, and it grows from left to right.
-/

namespace GatedExpr

/-- An infix operator, with how strongly it binds. -/
structure InfixOperator where
  symbol : String
  level : Nat
  known : precedence? symbol = some level

namespace InfixOperator

theorem eq_of_symbol {o p : InfixOperator} (h : o.symbol = p.symbol) : o = p := by
  obtain ⟨symbol, level, known⟩ := o
  obtain ⟨_, other, known'⟩ := p
  subst h
  obtain rfl : level = other := Option.some.inj (known.symm.trans known')
  rfl

theorem level_bounds (o : InfixOperator) : 1 ≤ o.level ∧ o.level ≤ 6 := by
  have hall : ∀ entry ∈ precedences, 1 ≤ entry.2 ∧ entry.2 ≤ 6 := by decide
  exact hall (o.symbol, o.level) (Table.mem_of_lookup o.known)

end InfixOperator

/-- An operand and the operators with right operands that follow it. -/
abbrev InfixRun (α : Type) := α × List (InfixOperator × α)

/-- Puts another operand in the place of every operand. -/
def InfixRun.map {α β : Type} (f : α → β) (run : InfixRun α) : InfixRun β :=
  (f run.1, run.2.map (Prod.map id f))

inductive Grouping (α : Type) where
  | operand (operand : α)
  | binary (operator : InfixOperator) (left right : Grouping α)

namespace Grouping

variable {α β : Type} {minimum : Nat} {operator : InfixOperator} {left right t : Grouping α}

/-! ## What is grouped -/

def first : Grouping α → α
  | operand a => a
  | binary _ left _ => left.first

def last : Grouping α → α
  | operand a => a
  | binary _ _ right => right.last

/-- The operators with what stands to the right of each, in the order in which they stand. -/
def rest : Grouping α → List (InfixOperator × α)
  | operand _ => []
  | binary operator left right => left.rest ++ (operator, right.first) :: right.rest

/-- The run that is grouped. -/
def run (t : Grouping α) : InfixRun α :=
  (t.first, t.rest)

theorem run_binary :
    (binary operator left right).run =
      (left.run.1, left.run.2 ++ (operator, right.run.1) :: right.run.2) :=
  rfl

/-! ## Order -/

/-- No operator at the top that binds less strongly. -/
def AtLeast (minimum : Nat) : Grouping α → Prop
  | operand _ => True
  | binary operator _ _ => minimum ≤ operator.level

/-- What an operator takes to its left binds at least as strongly, what it takes to its right
more strongly. -/
def Ordered : Grouping α → Prop
  | operand _ => True
  | binary operator left right =>
    left.AtLeast operator.level ∧ right.AtLeast (operator.level + 1) ∧ left.Ordered ∧
      right.Ordered

theorem atLeast_zero (t : Grouping α) : t.AtLeast 0 := by
  cases t with
  | operand => trivial
  | binary => exact Nat.zero_le _

theorem Ordered.level_le (ho : t.Ordered) (h : t.AtLeast minimum) :
    ∀ operation ∈ t.rest, minimum ≤ operation.1.level := by
  induction t generalizing minimum with
  | operand => exact nofun
  | binary operator left right ihl ihr =>
    obtain ⟨hl, hr, hol, hor⟩ := ho
    have hle : minimum ≤ operator.level := h
    intro operation hm
    rcases List.mem_append.mp hm with hm | hm
    · exact Nat.le_trans hle (ihl hol hl operation hm)
    · rcases List.mem_cons.mp hm with rfl | hm
      · exact hle
      · exact Nat.le_of_lt (Nat.lt_of_le_of_lt hle (ihr hor hr operation hm))

/-! ## Growth -/

/-- A grouping with one more operator and operand at its end. -/
def extend (operation : InfixOperator × α) : Grouping α → Grouping α
  | operand a => binary operation.1 (operand a) (operand operation.2)
  | binary operator left right =>
    if operation.1.level ≤ operator.level then
      binary operation.1 (binary operator left right) (operand operation.2)
    else binary operator left (right.extend operation)

/-- The grouping of a run that grows from its left end. -/
def ofRun (run : InfixRun α) : Grouping α :=
  run.2.foldl (fun t operation => t.extend operation) (operand run.1)

variable {operation : InfixOperator × α}

theorem extend_of_atLeast (h : t.AtLeast operation.1.level) :
    t.extend operation = binary operation.1 t (operand operation.2) := by
  cases t with
  | operand => rfl
  | binary => exact if_pos h

theorem run_extend : (t.extend operation).run = (t.run.1, t.run.2 ++ [operation]) := by
  induction t with
  | operand => rfl
  | binary operator left right _ ih =>
    rw [extend]
    split
    · rfl
    · rw [run_binary, ih, run_binary]
      simp

theorem AtLeast.extend (h : t.AtLeast minimum) (hle : minimum ≤ operation.1.level) :
    (t.extend operation).AtLeast minimum := by
  cases t with
  | operand => exact hle
  | binary =>
    rw [Grouping.extend]
    split
    · exact hle
    · exact h

theorem Ordered.extend (h : t.Ordered) : (t.extend operation).Ordered := by
  induction t with
  | operand => exact ⟨trivial, trivial, trivial, trivial⟩
  | binary operator left right _ ih =>
    rw [Grouping.extend]
    split
    · next hle => exact ⟨hle, trivial, h, trivial⟩
    · next hlt =>
      obtain ⟨hl, hr, hol, hor⟩ := h
      exact ⟨hl, hr.extend (Nat.lt_of_not_le hlt), hol, ih hor⟩

theorem run_foldl_extend (operations : List (InfixOperator × α)) (t : Grouping α) :
    (operations.foldl (fun t operation => t.extend operation) t).run =
      (t.run.1, t.run.2 ++ operations) := by
  induction operations generalizing t with
  | nil => simp
  | cons operation operations ih => rw [List.foldl_cons, ih, run_extend]; simp

theorem ordered_foldl_extend (operations : List (InfixOperator × α)) (h : t.Ordered) :
    (operations.foldl (fun t operation => t.extend operation) t).Ordered := by
  induction operations generalizing t with
  | nil => exact h
  | cons operation operations ih => exact ih h.extend

theorem run_ofRun (run : InfixRun α) : (ofRun run).run = run :=
  run_foldl_extend run.2 (operand run.1)

theorem ordered_ofRun (run : InfixRun α) : (ofRun run).Ordered :=
  ordered_foldl_extend run.2 (t := operand run.1) trivial

/-- Operators that bind more strongly than the one at the top leave it there. -/
theorem foldl_extend_binary {operations : List (InfixOperator × α)}
    (h : ∀ operation ∈ operations, operator.level < operation.1.level) :
    operations.foldl (fun t operation => t.extend operation) (binary operator left right) =
      binary operator left (operations.foldl (fun t operation => t.extend operation) right) := by
  induction operations generalizing right with
  | nil => rfl
  | cons operation operations ih =>
    have hlt : ¬ operation.1.level ≤ operator.level :=
      Nat.not_le.mpr (h operation List.mem_cons_self)
    rw [List.foldl_cons, extend, if_neg hlt, List.foldl_cons]
    exact ih fun next hm => h next (List.mem_cons_of_mem _ hm)

/-- Only one grouping of a run is ordered. -/
theorem Ordered.eq_ofRun (h : t.Ordered) : t = ofRun t.run := by
  induction t with
  | operand => rfl
  | binary operator left right ihl ihr =>
    obtain ⟨hl, hr, hol, hor⟩ := h
    symm
    calc ofRun (binary operator left right).run
        = right.rest.foldl (fun t operation => t.extend operation)
            ((ofRun left.run).extend (operator, right.first)) := by
          simp only [ofRun, run, first, rest, List.foldl_append, List.foldl_cons]
      _ = right.rest.foldl (fun t operation => t.extend operation)
            (binary operator left (operand right.first)) := by
          rw [← ihl hol, extend_of_atLeast hl]
      _ = binary operator left (ofRun right.run) := foldl_extend_binary (hor.level_le hr)
      _ = binary operator left right := by rw [← ihr hor]

/-! ## Groupings within groupings -/

/-- Puts a grouping in the place of every operand. -/
def bind (f : α → Grouping β) : Grouping α → Grouping β
  | operand a => f a
  | binary operator left right => binary operator (left.bind f) (right.bind f)

/-- Puts another operand in the place of every operand. -/
def map (f : α → β) (t : Grouping α) : Grouping β :=
  t.bind fun a => operand (f a)

theorem map_binary (f : α → β) :
    (binary operator left right).map f = binary operator (left.map f) (right.map f) :=
  rfl

theorem first_map (f : α → β) : (t.map f).first = f t.first := by
  induction t with
  | operand => rfl
  | binary _ _ _ ih => exact ih

theorem last_map (f : α → β) : (t.map f).last = f t.last := by
  induction t with
  | operand => rfl
  | binary _ _ _ _ ih => exact ih

theorem run_map (f : α → β) : (t.map f).run = t.run.map f := by
  induction t with
  | operand => rfl
  | binary operator left right ihl ihr =>
    rw [map_binary, run_binary, ihl, ihr, run_binary]
    simp [InfixRun.map]

theorem AtLeast.map (f : α → β) (h : t.AtLeast minimum) : (t.map f).AtLeast minimum := by
  cases t with
  | operand => trivial
  | binary => exact h

theorem Ordered.map (f : α → β) (h : t.Ordered) : (t.map f).Ordered := by
  induction t with
  | operand => trivial
  | binary operator left right ihl ihr =>
    obtain ⟨hl, hr, hol, hor⟩ := h
    exact ⟨hl.map f, hr.map f, ihl hol, ihr hor⟩

/-- What is left of a grouping without its operands. -/
def shape (t : Grouping α) : Grouping Unit :=
  t.map fun _ => ()

theorem shape_binary :
    (binary operator left right).shape = binary operator left.shape right.shape :=
  rfl

/-- The operands in the order in which they stand. -/
def leaves : Grouping α → List α
  | operand a => [a]
  | binary _ left right => left.leaves ++ right.leaves

theorem leaves_eq_run : t.leaves = t.run.1 :: t.run.2.map Prod.snd := by
  induction t with
  | operand => rfl
  | binary operator left right ihl ihr => simp [leaves, run_binary, ihl, ihr]

theorem length_leaves_pos (t : Grouping α) : 0 < t.leaves.length := by
  rw [leaves_eq_run]
  exact Nat.succ_pos _

theorem leaves_bind (f : α → Grouping β) :
    (t.bind f).leaves = t.leaves.flatMap fun a => (f a).leaves := by
  induction t with
  | operand => simp [bind, leaves]
  | binary operator left right ihl ihr => simp [bind, leaves, ihl, ihr]

theorem length_leaves_shape : t.shape.leaves.length = t.leaves.length := by
  induction t with
  | operand => rfl
  | binary operator left right ihl ihr =>
    simp [shape_binary, leaves, ihl, ihr]

/-- Beginnings of one list that spread to the same length are one beginning. -/
theorem append_inj_of_flatMap {γ : Type} {f : α → List γ} (hpos : ∀ a, 0 < (f a).length)
    {as bs cs ds : List α} (h : as ++ cs = bs ++ ds)
    (hl : (as.flatMap f).length = (bs.flatMap f).length) : as = bs ∧ cs = ds := by
  induction as generalizing bs with
  | nil =>
    cases bs with
    | nil => exact ⟨rfl, h⟩
    | cons b bs =>
      have := hpos b
      rw [List.flatMap_nil, List.flatMap_cons, List.length_append, List.length_nil] at hl
      omega
  | cons a as ih =>
    cases bs with
    | nil =>
      have := hpos a
      rw [List.flatMap_nil, List.flatMap_cons, List.length_append, List.length_nil] at hl
      omega
    | cons b bs =>
      rw [List.cons_append, List.cons_append, List.cons.injEq] at h
      obtain ⟨rfl, h⟩ := h
      rw [List.flatMap_cons, List.flatMap_cons, List.length_append, List.length_append] at hl
      obtain ⟨rfl, rfl⟩ := ih h (Nat.add_left_cancel hl)
      exact ⟨rfl, rfl⟩

/-- With the operands and their own groupings given, the shape of the whole tells how they were
grouped. -/
theorem eq_of_shape_bind {f : α → Grouping β} {s t : Grouping α} (hl : s.leaves = t.leaves)
    (h : (s.bind f).shape = (t.bind f).shape) : s = t := by
  have hmore (operator : InfixOperator) (left right : Grouping α) (a : α) :
      [a] ≠ (binary operator left right).leaves := fun he => by
    have hlength := congrArg List.length he
    have := left.length_leaves_pos
    have := right.length_leaves_pos
    simp only [leaves, List.length_append, List.length_singleton] at hlength
    omega
  induction s generalizing t with
  | operand a =>
    cases t with
    | operand b => rw [List.singleton_inj.mp hl]
    | binary operator left right => exact absurd hl (hmore operator left right a)
  | binary operator left right ihl ihr =>
    cases t with
    | operand b => exact absurd hl.symm (hmore operator left right b)
    | binary other left' right' =>
      simp only [bind, shape_binary, binary.injEq] at h
      obtain ⟨rfl, hleft, hright⟩ := h
      have hlength : (left.bind f).leaves.length = (left'.bind f).leaves.length := by
        rw [← length_leaves_shape, hleft, length_leaves_shape]
      rw [leaves_bind, leaves_bind] at hlength
      obtain ⟨hl, hr⟩ := append_inj_of_flatMap (fun a => (f a).length_leaves_pos) hl hlength
      rw [ihl hl hleft, ihr hr hright]

end Grouping

end GatedExpr
