import GatedExpr.Proofs.Grammar.Following
import GatedExpr.Proofs.Grammar.Written

/-! # Round brackets

What writes an expression has matching round brackets, and so has every source that it fills. A
part of it loses that if it is cut off between an opening bracket at its beginning, or a closing
one at its end, and the partner of that bracket.
-/

namespace GatedExpr

namespace Text

/-- What a character belongs to. A string is told from others by its mark. -/
inductive Inside where
  | code
  | string (mark : Char)
  /-- A string after a backslash. -/
  | escape (mark : Char)
  deriving DecidableEq

/-- How many round brackets are open after one more character, and what comes next. -/
def readBracket : Nat × Inside → Char → Option (Nat × Inside)
  | (opened, .code), c =>
    if c = '(' then some (opened + 1, .code)
    else if c = ')' then if opened = 0 then none else some (opened - 1, .code)
    else if c = '"' ∨ c = '\'' then some (opened, .string c)
    else some (opened, .code)
  | (opened, .string mark), c =>
    some (opened, if c = mark then .code else if c = '\\' then .escape mark else .string mark)
  | (opened, .escape mark), _ => some (opened, .string mark)

/-- Each round bracket outside of strings has its partner. -/
def BracketsMatch (text : List Char) : Prop :=
  text.foldlM readBracket (0, .code) = some (0, .code)

instance (text : List Char) : Decidable (BracketsMatch text) :=
  inferInstanceAs (Decidable (_ = _))

/-- Reading the text neither opens nor closes any bracket. -/
def Neutral (text : List Char) : Prop :=
  ∀ opened, text.foldlM readBracket (opened, .code) = some (opened, .code)

/-- No round bracket and no mark of a string occurs. -/
theorem neutral_of_not_mem {text : List Char}
    (h : ∀ c ∈ text, c ∉ ['(', ')', '"', '\'']) : Neutral text := by
  intro opened
  induction text with
  | nil => rfl
  | cons c text ih =>
    obtain ⟨hc, htext⟩ := List.forall_mem_cons.mp h
    have hstep : readBracket (opened, .code) c = some (opened, .code) := by
      simp only [List.mem_cons, List.not_mem_nil, or_false, not_or] at hc
      simp [readBracket, hc]
    rw [List.foldlM_cons, hstep]
    exact ih htext

theorem neutral_of_blanks {gap : List Char} (h : Blanks gap) : Neutral gap := by
  refine neutral_of_not_mem fun c hc hmem => ?_
  have hall : ∀ d ∈ ['(', ')', '"', '\''], isBlank d = false := by decide
  have := h c hc
  rw [hall c hmem] at this
  cases this

end Text

namespace Token

open Text

variable {raw : String} {value : Value}

theorem neutral_of_spells {regex : Regex} {text : List Char} (h : regex.Spells text)
    (hall : ∀ c ∈ ['(', ')', '"', '\''], regex.mentions c = false) : Neutral text :=
  neutral_of_not_mem fun c hc hmem => not_mem_of_mentions h (hall c hmem) hc

theorem neutral_name (h : IsName raw) : Neutral raw.toList :=
  neutral_of_spells (h.spells rfl) (by decide +kernel)

theorem neutral_number (h : IsNumber raw value) : Neutral raw.toList :=
  neutral_of_spells (h.1.spells rfl) (by decide +kernel)

/-- A string is closed by the mark that it begins with. -/
theorem neutral_string (h : IsString raw value) : Neutral raw.toList := by
  obtain ⟨mark, body, hmark, he, hbody⟩ := string_cases (h.1.spells rfl)
  intro opened
  have hopen : readBracket (opened, .code) mark = some (opened, .string mark) := by
    rcases hmark with rfl | rfl <;> rfl
  have hclose : (body ++ [mark]).foldlM readBracket (opened, .string mark) =
      some (opened, .code) := by
    clear he
    induction hbody with
    | nil => simp [readBracket]
    | plain hc hb _ ih =>
      rw [List.cons_append, List.foldlM_cons, readBracket, if_neg hc, if_neg hb]
      exact ih
    | escaped _ ih =>
      rw [List.cons_append, List.cons_append, List.foldlM_cons, readBracket, if_neg]
      · exact ih
      · rcases hmark with rfl | rfl <;> decide
  rw [he, List.cons_append, List.foldlM_cons, hopen]
  exact hclose

theorem neutral_keyword (h : IsKeyword raw value) : Neutral raw.toList := by
  cases h <;> exact neutral_of_not_mem (by decide)

end Token

/-! ## Brackets among texts -/

namespace Token

open Text

/-- How many round brackets are open after one more text. -/
def readText (opened : Nat) (text : String) : Option Nat :=
  if text = "(" then some (opened + 1)
  else if text = ")" then if opened = 0 then none else some (opened - 1)
  else some opened

/-- Each round bracket among the texts has its partner. -/
def Balanced (texts : List String) : Prop :=
  texts.foldlM readText 0 = some 0

/-- A text that is no round bracket, and holds none but in strings. -/
def Other (text : String) : Prop :=
  Neutral text.toList

/-- The text is read like its characters. -/
def ReadsAlike (text : String) : Prop :=
  ∀ opened, text.toList.foldlM readBracket (opened, .code) =
    (readText opened text).map (·, .code)

variable {text : String} {texts others front opens closes : List String} {n m : Nat}

theorem other_of_mark (h : ∀ c ∈ text.toList, c ∉ ['(', ')', '"', '\'']) : Other text :=
  neutral_of_not_mem h

theorem other_of_sign (h : text ∈ UnaryOperator.all.map (·.symbol)) : Other text := by
  have hall : ∀ symbol ∈ UnaryOperator.all.map (·.symbol), ∀ c ∈ symbol.toList,
      c ∉ ['(', ')', '"', '\''] := by decide
  exact other_of_mark (hall text h)

theorem other_of_symbol (h : text ∈ infixSymbols) : Other text := by
  have hall : ∀ symbol ∈ infixSymbols, ∀ c ∈ symbol.toList, c ∉ ['(', ')', '"', '\''] := by decide
  exact other_of_mark (hall text h)

theorem Other.ne (h : Other text) : text ≠ "(" ∧ text ≠ ")" := by
  constructor <;>
  · rintro rfl
    exact absurd (h 0) (by decide)

theorem Other.readText_eq (h : Other text) (opened : Nat) : readText opened text = some opened := by
  rw [readText, if_neg h.ne.1, if_neg h.ne.2]

theorem Other.readsAlike (h : Other text) : ReadsAlike text := by
  intro opened
  rw [h.readText_eq, h opened]
  rfl

theorem readsAlike_opening : ReadsAlike "(" :=
  fun _ => rfl

theorem readsAlike_closing : ReadsAlike ")" := by
  intro opened
  cases opened <;> rfl

theorem readText_add (h : readText n text = some m) (more : Nat) :
    readText (n + more) text = some (m + more) := by
  unfold readText at h ⊢
  split at h
  · next ho =>
    cases h
    rw [if_pos ho, Nat.add_right_comm]
  · next ho =>
    rw [if_neg ho]
    split at h
    · next hc =>
      rw [if_pos hc]
      split at h
      · cases h
      · next hn =>
        cases h
        rw [if_neg (by omega), Nat.sub_add_comm (Nat.one_le_iff_ne_zero.mpr hn)]
    · next hc =>
      cases h
      rw [if_neg hc]

/-- With more brackets open before, more of them are open after. -/
theorem foldlM_readText_add (h : texts.foldlM readText n = some m) (more : Nat) :
    texts.foldlM readText (n + more) = some (m + more) := by
  induction texts generalizing n with
  | nil =>
    cases h
    rfl
  | cons text texts ih =>
    rw [List.foldlM_cons] at h ⊢
    obtain ⟨next, hnext, hrest⟩ := Option.bind_eq_some_iff.mp h
    rw [readText_add hnext]
    exact ih hrest

theorem foldlM_opens (h : ∀ text ∈ opens, text = "(") (n : Nat) :
    opens.foldlM readText n = some (n + opens.length) := by
  induction opens generalizing n with
  | nil => rfl
  | cons text opens ih =>
    obtain ⟨rfl, hopens⟩ := List.forall_mem_cons.mp h
    rw [List.foldlM_cons, List.length_cons, Nat.add_comm opens.length, ← Nat.add_assoc]
    exact ih hopens (n + 1)

theorem foldlM_closes (h : ∀ text ∈ closes, text = ")") (hn : closes.foldlM readText n = some m) :
    n = m + closes.length := by
  induction closes generalizing n with
  | nil =>
    cases hn
    rfl
  | cons text closes ih =>
    obtain ⟨rfl, hcloses⟩ := List.forall_mem_cons.mp h
    cases n with
    | zero => cases hn
    | succ n =>
      have hrest : closes.foldlM readText n = some m := hn
      rw [List.length_cons, ih hcloses hrest, Nat.add_assoc]

theorem foldlM_readText_append (h : texts.foldlM readText n = some m) (others : List String) :
    (texts ++ others).foldlM readText n = others.foldlM readText m := by
  rw [List.foldlM_append, h]
  rfl

namespace Balanced

theorem nil : Balanced [] :=
  rfl

theorem foldlM_eq (h : Balanced texts) (opened : Nat) :
    texts.foldlM readText opened = some opened := by
  have := foldlM_readText_add h opened
  rwa [Nat.zero_add] at this

theorem append (h : Balanced texts) (h' : Balanced others) : Balanced (texts ++ others) :=
  (foldlM_readText_append h others).trans h'

theorem cons (ht : Other text) (h : Balanced texts) : Balanced (text :: texts) := by
  rw [Balanced, List.foldlM_cons, ht.readText_eq]
  exact h

theorem enclosed (h : Balanced texts) : Balanced ("(" :: (texts ++ [")"])) := by
  have := h.foldlM_eq 1
  rw [Balanced, List.foldlM_cons]
  exact foldlM_readText_append this [")"]

/-- A part that has lost opening brackets at its beginning lacks them. -/
theorem not_of_opens (h : Balanced (opens ++ texts)) (ho : ∀ text ∈ opens, text = "(")
    (hne : opens ≠ []) (others : List String) : ¬ Balanced (texts ++ others) := by
  rw [Balanced, foldlM_readText_append (foldlM_opens ho 0), Nat.zero_add] at h
  rw [Balanced, List.foldlM_append]
  cases hm : texts.foldlM readText 0 with
  | none => nofun
  | some m =>
    have hmore := foldlM_readText_add hm opens.length
    rw [Nat.zero_add, h, Option.some.injEq] at hmore
    have := List.length_pos_iff.mpr hne
    omega

/-- A part that has lost closing brackets at its end lacks them. -/
theorem not_of_closes (hf : Balanced front) (h : Balanced (texts ++ closes))
    (hc : ∀ text ∈ closes, text = ")") (hne : closes ≠ []) : ¬ Balanced (front ++ texts) := by
  rw [Balanced, List.foldlM_append] at h
  obtain ⟨m, hm, hlast⟩ := Option.bind_eq_some_iff.mp h
  rw [Balanced, foldlM_readText_append hf, hm, foldlM_closes hc hlast, Option.some.injEq]
  have := List.length_pos_iff.mpr hne
  omega

end Balanced

theorem foldlM_spread {source rest : List Char} (hs : Spread texts source rest)
    (h : ∀ text ∈ texts, ReadsAlike text) (opened : Nat) :
    source.foldlM readBracket (opened, .code) =
      texts.foldlM readText opened >>= fun n => rest.foldlM readBracket (n, .code) := by
  induction hs generalizing opened with
  | done => rfl
  | @text gap after rest text texts hg _ _ ih =>
    obtain ⟨htext, htexts⟩ := List.forall_mem_cons.mp h
    rw [List.foldlM_append, neutral_of_blanks hg opened, Option.bind_eq_bind, Option.bind_some,
      List.foldlM_append, htext opened, List.foldlM_cons]
    cases readText opened text with
    | none => rfl
    | some n => exact ih htexts n

/-- A source has matching brackets exactly if the texts that fill it have. -/
theorem bracketsMatch_iff {source : List Char} (h : ∀ text ∈ texts, ReadsAlike text)
    (hs : Fills texts source) : BracketsMatch source ↔ Balanced texts := by
  obtain ⟨rest, hs, hr⟩ := hs
  rw [BracketsMatch, Balanced, foldlM_spread hs h]
  cases texts.foldlM readText 0 with
  | none => simp
  | some n => simp [neutral_of_blanks hr n]

/-- Texts that are read like their characters, whose round brackets match. -/
structure Level (texts : List String) : Prop where
  balanced : Balanced texts
  readsAlike : ∀ text ∈ texts, ReadsAlike text

namespace Level

theorem nil : Level [] :=
  ⟨.nil, List.forall_mem_nil _⟩

theorem append (h : Level texts) (h' : Level others) : Level (texts ++ others) :=
  ⟨h.balanced.append h'.balanced,
    fun text hm => (List.mem_append.mp hm).elim (h.readsAlike text) (h'.readsAlike text)⟩

theorem cons (ht : Other text) (h : Level texts) : Level (text :: texts) :=
  ⟨h.balanced.cons ht, List.forall_mem_cons.mpr ⟨ht.readsAlike, h.readsAlike⟩⟩

theorem single (ht : Other text) : Level [text] :=
  .cons ht .nil

theorem enclosed (h : Level texts) : Level ("(" :: (texts ++ [")"])) := by
  refine ⟨h.balanced.enclosed, List.forall_mem_cons.mpr ⟨readsAlike_opening, fun text hm => ?_⟩⟩
  rcases List.mem_append.mp hm with hm | hm
  · exact h.readsAlike text hm
  · rw [List.mem_singleton.mp hm]
    exact readsAlike_closing

theorem flatMap {β : Type} {parts : List (β × List String)} (h : ∀ part ∈ parts, Level part.2) :
    Level (parts.flatMap (·.2)) := by
  induction parts with
  | nil => exact .nil
  | cons part parts ih =>
    obtain ⟨hpart, hparts⟩ := List.forall_mem_cons.mp h
    exact hpart.append (ih hparts)

end Level

end Token

open Token

/-- What writes something is level. -/
theorem Written.level {n : Nat} {c : Construct} {texts : List String} (h : Written n c texts) :
    Level texts := by
  induction h with
  | expression _ _ _ ih ihs ih' => exact ih.append ((Level.flatMap ihs).append ih')
  | operation hs _ ih => exact .cons (other_of_symbol hs) ih
  | noBranches => exact .nil
  | branches _ _ ih ih' =>
    exact .cons (other_of_mark (by decide)) (ih.append (.cons (other_of_mark (by decide)) ih'))
  | hole => exact .nil
  | element _ ih => exact ih
  | keyName _ h => exact .single (neutral_name h)
  | keyLiteral _ h => exact .single (h.elim neutral_number neutral_string)
  | property _ _ ih ih' => exact ih.append (.cons (other_of_mark (by decide)) ih')
  | further _ ih => exact .cons (other_of_mark (by decide)) ih
  | literal _ h =>
    exact .single (h.elim neutral_number fun h => h.elim neutral_string neutral_keyword)
  | name _ h => exact .single (neutral_name h)
  | array _ _ ih ihs =>
    exact .cons (other_of_mark (by decide))
      (ih.append ((Level.flatMap ihs).append (.single (other_of_mark (by decide)))))
  | emptyObject => exact .cons (other_of_mark (by decide)) (.single (other_of_mark (by decide)))
  | @object _ _ _ _ t _ _ ht ih ihs =>
    have hlast : Level t := by
      rcases ht with rfl | rfl
      · exact .nil
      · exact .single (other_of_mark (by decide))
    exact .cons (other_of_mark (by decide))
      (ih.append ((Level.flatMap ihs).append (hlast.append (.single (other_of_mark (by decide))))))
  | parenthesized _ ih => exact ih.enclosed
  | dot _ h => exact .cons (other_of_mark (by decide)) (.single (neutral_name h))
  | index _ ih =>
    exact .cons (other_of_mark (by decide)) (ih.append (.single (other_of_mark (by decide))))
  | noArguments => exact Level.nil.enclosed
  | arguments _ _ ih ihs =>
    have h := (ih.append (Level.flatMap ihs)).enclosed
    rwa [List.append_assoc] at h
  | unary hs _ ih => exact .cons (other_of_sign hs) ih
  | chain _ _ ih ihs => exact ih.append (Level.flatMap ihs)

end GatedExpr
