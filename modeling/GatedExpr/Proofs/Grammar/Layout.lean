import Mathlib.Data.List.TakeWhile
import GatedExpr.Operator
import GatedExpr.Proofs.Grammar.Lexemes
import GatedExpr.Proofs.Grammar.Tokens

/-! # Layout of lexemes

Lexemes stand in a source one after the other with nothing but blanks between them, and none of
them goes on with the character after it. More blanks can be put wherever a lexeme begins or ends.
-/

namespace GatedExpr

theorem Text.slice_natCast {α : Type} (m n : Nat) (items : List α) :
    slice (m : Int) (n : Int) items = (items.take n).drop m := by
  simp [slice, offset, Int.not_lt_of_ge (Int.natCast_nonneg _)]

/-- Nothing but blanks. -/
def Blanks (text : List Char) : Prop :=
  ∀ c ∈ text, Text.isBlank c = true

instance (text : List Char) : Decidable (Blanks text) :=
  inferInstanceAs (Decidable (∀ c ∈ text, Text.isBlank c = true))

namespace Blanks

variable {s t : List Char}

theorem nil : Blanks [] :=
  nofun

theorem append (hs : Blanks s) (ht : Blanks t) : Blanks (s ++ t) :=
  fun c hc => (List.mem_append.mp hc).elim (hs c) (ht c)

theorem takeWhile (s : List Char) : Blanks (s.takeWhile Text.isBlank) :=
  fun _ hc => List.mem_takeWhile_imp hc

theorem dropWhile_append (hs : Blanks s) (t : List Char) :
    (s ++ t).dropWhile Text.isBlank = t.dropWhile Text.isBlank :=
  List.dropWhile_append_of_pos hs

end Blanks

namespace Token

/-- The text does not go on with the next character: a point would continue an integer, and an
operator could be the beginning of a longer one. -/
structure Ends (text : String) (next : Option Char) : Prop where
  integer : IsInteger text.toList → next ≠ some '.'
  operator : ∀ c, next = some c → text ∈ infixSymbols → ∀ other ∈ infixSymbols,
    ¬ text.toList ++ [c] <+: other.toList

theorem ends_none (text : String) : Ends text none :=
  ⟨nofun, nofun⟩

/-- A punctuation mark ends whatever follows. -/
theorem ends_of_mark {text : String} (h : ¬ IsInteger text.toList ∧ text ∉ infixSymbols)
    (next : Option Char) : Ends text next :=
  ⟨fun hi => absurd hi h.1, fun _ _ hmem => absurd hmem h.2⟩

/-- No text goes on with the character. -/
def Separates (c : Char) : Prop :=
  c ≠ '.' ∧ ∀ symbol ∈ infixSymbols, c ∉ symbol.toList

instance (c : Char) : Decidable (Separates c) :=
  inferInstanceAs (Decidable (_ ∧ _))

theorem separates_of_blank {c : Char} (h : Text.isBlank c = true) : Separates c := by
  have hall : ∀ symbol ∈ infixSymbols, ∀ d ∈ symbol.toList, Text.isBlank d = false := by decide
  constructor
  · rintro rfl
    revert h
    decide
  · intro symbol hs hc
    rw [hall symbol hs c hc] at h
    cases h

theorem ends_of_separates (text : String) {next : Option Char}
    (h : ∀ c, next = some c → Separates c) : Ends text next :=
  ⟨fun _ hn => (h _ hn).1 rfl, fun c hn _ other ho hp => (h c hn).2 other ho (hp.subset (by simp))⟩

theorem ends_of_blank (text : String) {c : Char} (h : Text.isBlank c = true) :
    Ends text (some c) :=
  ends_of_separates text (by rintro _ ⟨⟩; exact separates_of_blank h)

end Token

/-- Where a run stands: its offset, and what is left to read. -/
structure Place where
  position : Int
  rest : List Char

/-- The place after the blanks that come next. -/
def Place.skip (place : Place) : Place :=
  { position := place.position + (place.rest.takeWhile Text.isBlank).length
    rest := place.rest.dropWhile Text.isBlank }

def Cursor.place (cursor : Cursor) : Place :=
  { position := cursor.position, rest := cursor.rest }

/-- `Spread texts s r`: the texts stand in `s` before `r` in their order, with nothing but blanks
before each of them. -/
inductive Spread : List String → List Char → List Char → Prop where

  | done {rest : List Char} : Spread [] rest rest

  | text {gap after rest : List Char} {text : String} {texts : List String} :
      Blanks gap → Token.Ends text after.head? → Spread texts after rest →
      Spread (text :: texts) (gap ++ (text.toList ++ after)) rest

/-- The lexemes stand one after the other between two places, with nothing but blanks before each
of them. -/
inductive Laid : Place → List Lexeme → Place → Prop where

  | done {place : Place} : Laid place [] place

  | lexeme {position : Int} {gap after : List Char} {text : String} {lexemes : List Lexeme}
      {place : Place} :
      Blanks gap → Token.Ends text after.head? →
      Laid ⟨position + gap.length + text.toList.length, after⟩ lexemes place →
      Laid ⟨position, gap ++ (text.toList ++ after)⟩
        (⟨text, ⟨position + gap.length, position + gap.length + text.toList.length⟩⟩ :: lexemes)
        place

namespace Spread

variable {texts others : List String} {s t r gap : List Char}

theorem append (h : Spread texts s t) (h' : Spread others t r) :
    Spread (texts ++ others) s r := by
  induction h with
  | done => exact h'
  | text hg he _ ih => exact .text hg he (ih h')

theorem of_append (h : Spread (texts ++ others) s r) :
    ∃ t, Spread texts s t ∧ Spread others t r := by
  induction texts generalizing s with
  | nil => exact ⟨s, .done, h⟩
  | cons first texts ih =>
    cases h with
    | text hg he h =>
      obtain ⟨t, ht, hr⟩ := ih h
      exact ⟨t, .text hg he ht, hr⟩

theorem of_cons {first : String} (h : Spread (first :: texts) s r) :
    ∃ gap after, s = gap ++ (first.toList ++ after) ∧ Blanks gap ∧
      Token.Ends first after.head? ∧ Spread texts after r := by
  cases h with
  | text hg he h => exact ⟨_, _, rfl, hg, he, h⟩

/-- Texts stay spread when something is put behind them that none of them goes on with. -/
theorem append_text (h : Spread texts s r) (hm : ∀ text, Token.Ends text gap.head?) :
    Spread texts (s ++ gap) (r ++ gap) := by
  induction h with
  | done => exact .done
  | @text _ after _ text _ hg he _ ih =>
    rw [List.append_assoc, List.append_assoc]
    refine .text hg ?_ ih
    cases after with
    | nil => exact hm text
    | cons c after => exact he

end Spread

/-- The texts are the source in their order, with nothing but blanks around each of them. -/
def Fills (texts : List String) (source : List Char) : Prop :=
  ∃ rest, Spread texts source rest ∧ Blanks rest

namespace Fills

variable {text : String} {texts others : List String} {s t gap : List Char}

theorem nil : Fills [] [] :=
  ⟨[], .done, .nil⟩

theorem cons (he : Token.Ends text s.head?) (h : Fills texts s) :
    Fills (text :: texts) (text.toList ++ s) := by
  obtain ⟨rest, hs, hr⟩ := h
  exact ⟨rest, .text .nil he hs, hr⟩

theorem blanks_append (hg : Blanks gap) (h : Fills texts s) : Fills texts (gap ++ s) := by
  obtain ⟨rest, hs, hr⟩ := h
  cases hs with
  | done => exact ⟨gap ++ s, .done, hg.append hr⟩
  | text hb he hs =>
    rw [← List.append_assoc]
    exact ⟨rest, .text (hg.append hb) he hs, hr⟩

/-- What fills one source and then another fills both of them, put side by side. -/
theorem append (h : Fills texts s) (h' : Fills others t)
    (ht : ∀ c, t.head? = some c → Token.Separates c) : Fills (texts ++ others) (s ++ t) := by
  obtain ⟨rest, hs, hr⟩ := h
  obtain ⟨last, hlast, hl⟩ := h'.blanks_append hr
  exact ⟨last, (hs.append_text fun text => Token.ends_of_separates text ht).append hlast, hl⟩

end Fills

namespace Laid

variable {a b c : Place} {lexemes others : List Lexeme}

theorem append (h : Laid a lexemes b) (h' : Laid b others c) : Laid a (lexemes ++ others) c := by
  induction h with
  | done => exact h'
  | lexeme hg he _ ih => exact .lexeme hg he (ih h')

theorem spread (h : Laid a lexemes b) : Spread (lexemes.map (·.text)) a.rest b.rest := by
  induction h with
  | done => exact .done
  | lexeme hg he _ ih => exact .text hg he ih

/-- One lexeme after blanks. -/
theorem single {text : String} (hr : a.skip.rest = text.toList ++ b.rest)
    (hp : b.position = a.skip.position + text.toList.length) (he : Token.Ends text b.rest.head?) :
    Laid a [⟨text, ⟨a.skip.position, b.position⟩⟩] b := by
  obtain ⟨position, rest⟩ := a
  obtain ⟨stop, after⟩ := b
  simp only [Place.skip] at hr hp
  have hrest : rest = rest.takeWhile Text.isBlank ++ (text.toList ++ after) := by
    rw [← hr, List.takeWhile_append_dropWhile]
  have h := @Laid.lexeme position _ _ _ _ _ (Blanks.takeWhile rest) he .done
  rw [← hp, ← hrest] at h
  exact h

theorem position_eq (h : Laid a lexemes b) :
    a.position + a.rest.length = b.position + b.rest.length := by
  induction h with
  | done => rfl
  | lexeme _ _ _ ih =>
    simp only [List.length_append] at ih ⊢
    omega

theorem length_le (h : Laid a lexemes b) : b.rest.length ≤ a.rest.length := by
  induction h with
  | done => exact Nat.le_refl _
  | lexeme _ _ _ ih =>
    simp only [List.length_append] at ih ⊢
    omega

/-- Lexemes stand between the places, none of them reversed. -/
theorem inside (h : Laid a lexemes b) : ∀ lexeme ∈ lexemes,
    a.position ≤ lexeme.span.start ∧ lexeme.span.start ≤ lexeme.span.stop ∧
      lexeme.span.stop ≤ b.position := by
  induction h with
  | done => exact nofun
  | lexeme _ _ h ih =>
    have hp := h.position_eq
    have hl := h.length_le
    simp only at hp hl
    refine List.forall_mem_cons.mpr ⟨⟨?_, ?_, ?_⟩, fun lexeme hm => ?_⟩
    · simp only
      omega
    · simp only
      omega
    · simp only
      omega
    · have := ih lexeme hm
      simp only at this ⊢
      omega

/-- Blanks can be put in where a lexeme begins or ends, and before all of them. -/
theorem insert (h : Laid a lexemes b) {offset : Nat} {blanks : List Char} (hb : Blanks blanks)
    (hne : blanks ≠ []) (hr : Blanks b.rest) (hle : offset ≤ a.rest.length)
    (ho : offset = 0 ∨ ∃ lexeme ∈ lexemes, a.position + offset = lexeme.span.start ∨
      a.position + offset = lexeme.span.stop) :
    Fills (lexemes.map (·.text)) (a.rest.take offset ++ (blanks ++ a.rest.drop offset)) := by
  induction h generalizing offset with
  | @done place =>
    obtain rfl : offset = 0 := by
      rcases ho with rfl | ⟨_, hm, _⟩
      · rfl
      · cases hm
    exact ⟨_, .done, hb.append hr⟩
  | @lexeme position gap after text lexemes place hg he h ih =>
    simp only [List.map_cons]
    by_cases hgap : offset ≤ gap.length
    · -- the blanks become a part of those before the lexeme
      refine ⟨place.rest, ?_, hr⟩
      rw [List.take_append_of_le_length hgap, List.drop_append_of_le_length hgap,
        ← List.append_assoc, ← List.append_assoc]
      refine .text (fun d hd => ?_) he h.spread
      rcases List.mem_append.mp hd with hd | hd
      · rcases List.mem_append.mp hd with hd | hd
        · exact hg d (List.mem_of_mem_take hd)
        · exact hb d hd
      · exact hg d (List.mem_of_mem_drop hd)
    · have hinside := h.inside
      have hstop : gap.length + text.toList.length ≤ offset ∧
          (offset - (gap.length + text.toList.length) = 0 ∨ ∃ lexeme ∈ lexemes,
            position + offset = lexeme.span.start ∨ position + offset = lexeme.span.stop) := by
        rcases ho with rfl | ⟨lexeme, hm, ho⟩
        · omega
        · rcases List.mem_cons.mp hm with rfl | hm
          · simp only at ho
            omega
          · have := hinside lexeme hm
            simp only at this ho
            exact ⟨by omega, .inr ⟨lexeme, hm, ho⟩⟩
      obtain ⟨hlength, hafter⟩ := hstop
      obtain ⟨more, rfl⟩ := Nat.exists_eq_add_of_le hlength
      simp only [List.length_append] at hle
      obtain ⟨rest, hspread, hrest⟩ := @ih more hr (by simp only; omega) (by
        rcases hafter with hzero | ⟨lexeme, hm, ho⟩
        · exact .inl (by omega)
        · refine .inr ⟨lexeme, hm, ?_⟩
          simp only
          omega)
      refine ⟨rest, ?_, hrest⟩
      have htext : (gap ++ (text.toList ++ after)).take (gap.length + text.toList.length + more) ++
            (blanks ++ (gap ++ (text.toList ++ after)).drop
              (gap.length + text.toList.length + more)) =
          gap ++ (text.toList ++ (after.take more ++ (blanks ++ after.drop more))) := by
        rw [← List.append_assoc gap, ← List.length_append, List.take_length_add_append,
          List.drop_length_add_append]
        simp
      simp only at hspread ⊢
      rw [htext]
      refine .text hg ?_ hspread
      cases more with
      | zero =>
        obtain ⟨d, tail, rfl⟩ := List.exists_cons_of_ne_nil hne
        exact Token.ends_of_blank text (hb d List.mem_cons_self)
      | succ more =>
        cases after with
        | nil =>
          simp only [List.length_nil] at hle
          omega
        | cons d after => exact he

/-- What is between the offsets of a lexeme is its text. -/
theorem slice_eq (h : Laid a lexemes b) {source before : List Char}
    (hs : source = before ++ a.rest) (hp : a.position = before.length) :
    ∀ lexeme ∈ lexemes,
      Text.slice lexeme.span.start lexeme.span.stop source = lexeme.text.toList := by
  induction h generalizing before with
  | done => exact nofun
  | @lexeme position gap after text lexemes place _ _ _ ih =>
    obtain rfl : position = before.length := hp
    refine List.forall_mem_cons.mpr ⟨?_, @ih (before ++ gap ++ text.toList) ?_ ?_⟩
    · have hsource : source = (before ++ gap) ++ text.toList ++ after := by
        rw [hs]
        simp
      simp only [← Int.natCast_add, ← List.length_append, Text.slice_natCast]
      rw [hsource, List.take_left, List.drop_left]
    · rw [hs]
      simp
    · simp [Int.add_assoc]

/-- Every character is a blank, or belongs to a lexeme, or comes after all of them. -/
theorem covers (h : Laid a lexemes b) {c : Char} {n : Nat} (hc : a.rest[n]? = some c) :
    Text.isBlank c = true ∨ c ∈ b.rest ∨ ∃ lexeme ∈ lexemes, c ∈ lexeme.text.toList ∧
      lexeme.span.start ≤ a.position + n ∧ a.position + n < lexeme.span.stop := by
  induction h generalizing n with
  | done => exact .inr (.inl (List.mem_of_getElem? hc))
  | @lexeme position gap after text lexemes place hg _ _ ih =>
    simp only at hc ih ⊢
    by_cases hgap : n < gap.length
    · rw [List.getElem?_append_left hgap] at hc
      exact .inl (hg c (List.mem_of_getElem? hc))
    · rw [List.getElem?_append_right (Nat.le_of_not_lt hgap)] at hc
      by_cases htext : n - gap.length < text.toList.length
      · rw [List.getElem?_append_left htext] at hc
        refine .inr (.inr ⟨_, List.mem_cons_self, List.mem_of_getElem? hc, ?_, ?_⟩)
        · simp only
          omega
        · simp only
          omega
      · rw [List.getElem?_append_right (Nat.le_of_not_lt htext)] at hc
        refine (ih hc).imp_right (Or.imp_right ?_)
        rintro ⟨lexeme, hm, hin, hstart, hstop⟩
        exact ⟨lexeme, List.mem_cons_of_mem _ hm, hin, by omega, by omega⟩

end Laid

end GatedExpr
