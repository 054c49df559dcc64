import Mathlib.Data.List.Basic
import GatedExpr.Proofs.Grammar.Ways

/-! # What patterns spell

The texts that a pattern can read, whatever follows them, and how its preferred match depends on
what follows: not at all, as long as nothing longer can be read.
-/

namespace GatedExpr.Regex

/-- The regular expression can read the text, look-ahead aside. -/
inductive Spells : Regex → List Char → Prop where

  | empty : Spells .empty []

  | oneOf {negated : Bool} {classes : List CharClass} {c : Char} :
      (classes.any (·.contains c) != negated) = true → Spells (.oneOf negated classes) [c]

  | seq {first second : Regex} {s t : List Char} :
      Spells first s → Spells second t → Spells (.seq first second) (s ++ t)

  | left {first second : Regex} {s : List Char} : Spells first s → Spells (.alt first second) s

  | right {first second : Regex} {s : List Char} : Spells second s → Spells (.alt first second) s

  | nil {body : Regex} : Spells (.star body) []

  | more {body : Regex} {s t : List Char} :
      Spells body s → Spells (.star body) t → Spells (.star body) (s ++ t)

  | notAhead {body : Regex} : Spells (.notAhead body) []

/-- A way that follows something read before. -/
def Way.after (length : Nat) (way : Way) : Way :=
  ⟨length + way.length, way.rest⟩

@[simp] theorem Way.length_after (length : Nat) (way : Way) :
    (way.after length).length = length + way.length :=
  rfl

/-! ## Repetitions -/

/-- All ways to repeat a step in some number of rounds. -/
def rounds (step : List Char → List Way) (limit text : List Char) : List Way :=
  repeatWays step limit ⟨0, text⟩ []

theorem repeatWays_eq (step : List Char → List Way) (limit : List Char) :
    ∀ (way : Way) (others : List Way), repeatWays step limit way others =
      (rounds step limit way.rest).map (·.after way.length) ++ others := by
  induction limit with
  | nil =>
    intro way others
    rfl
  | cons c limit ih =>
    have hfold : ∀ (nexts : List Way) (way : Way) (others : List Way),
        nexts.foldr (fun next others =>
          if next.length = 0 then others
          else repeatWays step limit ⟨way.length + next.length, next.rest⟩ others)
          (way :: others) =
        (nexts.foldr (fun next others =>
          if next.length = 0 then others
          else repeatWays step limit ⟨0 + next.length, next.rest⟩ others)
          [⟨0, way.rest⟩]).map (·.after way.length) ++ others := by
      intro nexts way others
      induction nexts with
      | nil => rfl
      | cons next nexts ihn =>
        rw [List.foldr_cons, List.foldr_cons, ihn]
        split
        · rfl
        · rw [ih, ih ⟨0 + next.length, next.rest⟩, List.map_append, List.map_map,
            List.append_assoc]
          congr 2
          funext w
          simp [Way.after, Nat.add_assoc]
    intro way others
    exact hfold (step way.rest) way others

theorem rounds_cons (step : List Char → List Way) (c : Char) (limit text : List Char) :
    rounds step (c :: limit) text =
      ((step text).filter (0 < ·.length)).flatMap
        (fun next => (rounds step limit next.rest).map (·.after next.length)) ++ [⟨0, text⟩] := by
  rw [rounds, repeatWays]
  simp only
  generalize step text = nexts
  induction nexts with
  | nil => rfl
  | cons next nexts ih =>
    rw [List.foldr_cons, ih, repeatWays_eq]
    by_cases h : next.length = 0
    · simp [h]
    · simp [h, Nat.pos_of_ne_zero h]

theorem filter_ways_nil (ignoreCase : Bool) (body : Regex) :
    (body.ways ignoreCase []).filter (0 < ·.length) = [] := by
  rw [List.filter_eq_nil_iff]
  intro way hway
  have := (reads_of_mem_ways ignoreCase body [] way hway).length_le
  simp only [List.length_nil] at this
  simp only [decide_eq_true_eq]
  omega

theorem length_rest_lt {ignoreCase : Bool} {body : Regex} {text : List Char} {next : Way}
    (h : next ∈ (body.ways ignoreCase text).filter (0 < ·.length)) :
    next.rest.length < text.length := by
  obtain ⟨hmem, hpos⟩ := List.mem_filter.mp h
  have hreads := reads_of_mem_ways ignoreCase body _ next hmem
  have := hreads.length_le
  rw [hreads.rest_eq, List.length_drop]
  simp only [decide_eq_true_eq] at hpos
  omega

/-- More rounds than characters change nothing. -/
theorem rounds_eq (ignoreCase : Bool) (body : Regex) :
    ∀ {text limit : List Char}, text.length ≤ limit.length →
      rounds (body.ways ignoreCase) limit text = rounds (body.ways ignoreCase) text text := by
  intro text
  induction hn : text.length using Nat.strongRecOn generalizing text with
  | ind n ih =>
    intro limit hl
    cases text with
    | nil =>
      cases limit with
      | nil => rfl
      | cons c limit =>
        rw [rounds_cons, filter_ways_nil]
        rfl
    | cons c text =>
      cases limit with
      | nil =>
        simp only [List.length_cons, List.length_nil] at hn hl
        omega
      | cons d limit =>
        rw [rounds_cons, rounds_cons]
        congr 1
        refine List.flatMap_congr fun next hnext => ?_
        have hlen := length_rest_lt hnext
        simp only [List.length_cons] at hn hl hlen
        have hrest : ∀ limit : List Char, next.rest.length ≤ limit.length →
            rounds (body.ways ignoreCase) limit next.rest =
              rounds (body.ways ignoreCase) next.rest next.rest :=
          fun _ hle => ih _ (hn ▸ hlen) rfl hle
        rw [hrest limit (by omega), hrest text (by omega)]

/-- One more round, or none. -/
theorem ways_star (ignoreCase : Bool) (body : Regex) (text : List Char) :
    (Regex.star body).ways ignoreCase text =
      ((body.ways ignoreCase text).filter (0 < ·.length)).flatMap
        (fun next => ((Regex.star body).ways ignoreCase next.rest).map (·.after next.length)) ++
        [⟨0, text⟩] := by
  have hstar : ∀ t, (Regex.star body).ways ignoreCase t = rounds (body.ways ignoreCase) t t :=
    fun t => rfl
  cases text with
  | nil =>
    rw [filter_ways_nil]
    rfl
  | cons c text =>
    rw [hstar, rounds_cons]
    congr 1
    refine List.flatMap_congr fun next hnext => ?_
    rw [hstar, rounds_eq]
    exact Nat.le_of_lt_succ (length_rest_lt hnext)

/-! ## Texts that are read -/

theorem spells_of_mem_ways (regex : Regex) :
    ∀ {text : List Char} {way : Way}, way ∈ regex.ways false text →
      regex.Spells (text.take way.length) := by
  induction regex with
  | empty =>
    intro text way h
    rw [ways, List.mem_singleton] at h
    subst h
    exact .empty
  | oneOf negated classes =>
    intro text way h
    cases text with
    | nil => simp [ways] at h
    | cons c rest =>
      simp only [ways] at h
      split at h
      · next hc =>
        rw [List.mem_singleton] at h
        subst h
        exact .oneOf hc
      · simp at h
  | seq first second ihf ihs =>
    intro text way h
    rw [ways, List.mem_flatMap] at h
    obtain ⟨w, hw, h⟩ := h
    obtain ⟨next, hnext, rfl⟩ := List.mem_map.mp h
    have hrest := (reads_of_mem_ways false first text w hw).rest_eq
    simp only [List.take_add]
    exact .seq (ihf hw) (hrest ▸ ihs hnext)
  | alt first second ihf ihs =>
    intro text way h
    rw [ways, List.mem_append] at h
    rcases h with h | h
    · exact .left (ihf h)
    · exact .right (ihs h)
  | star body ih =>
    intro text way h
    induction hn : text.length using Nat.strongRecOn generalizing text way with
    | ind n ihn =>
      rw [ways_star, List.mem_append, List.mem_singleton] at h
      rcases h with h | rfl
      · obtain ⟨next, hnext, h⟩ := List.mem_flatMap.mp h
        obtain ⟨last, hlast, rfl⟩ := List.mem_map.mp h
        have hmem := (List.mem_filter.mp hnext).1
        have hrest := (reads_of_mem_ways false body text next hmem).rest_eq
        rw [Way.length_after, List.take_add]
        refine .more (ih hmem) (hrest ▸ ihn _ (hn ▸ length_rest_lt hnext) hlast rfl)
      · exact .nil
  | notAhead body =>
    intro text way h
    rw [ways] at h
    split at h
    · rw [List.mem_singleton] at h
      subst h
      exact .notAhead
    · simp at h

/-! ## What follows -/

/-- There is no look-ahead in the regular expression. -/
def IsPlain : Regex → Prop
  | .empty | .oneOf .. => True
  | .seq first second | .alt first second => first.IsPlain ∧ second.IsPlain
  | .star body => body.IsPlain
  | .notAhead _ => False

/-- The way as one to match just the first `length` characters of `text`. -/
def Way.within (text : List Char) (way : Way) : Way :=
  ⟨way.length, text.drop way.length⟩

/-- Ways that follow ways stay inside of a text if both do. -/
theorem within_flatMap {text rest : List Char} (next : List Char → List Way) (ways : List Way)
    (hreads : ∀ way ∈ ways, way.Reads (text ++ rest))
    (hnext : ∀ way ∈ ways, way.length ≤ text.length →
      next (text.drop way.length) =
        ((next (text.drop way.length ++ rest)).filter
          (·.length ≤ (text.drop way.length).length)).map (·.within (text.drop way.length))) :
    ((ways.filter (·.length ≤ text.length)).map (·.within text)).flatMap
        (fun way => (next way.rest).map (·.after way.length)) =
      ((ways.flatMap fun way => (next way.rest).map (·.after way.length)).filter
        (·.length ≤ text.length)).map (·.within text) := by
  induction ways with
  | nil => rfl
  | cons way ways ih =>
    have hrest := ih (fun w hw => hreads w (List.mem_cons_of_mem _ hw))
      (fun w hw => hnext w (List.mem_cons_of_mem _ hw))
    have hway := (hreads way List.mem_cons_self).rest_eq
    rw [List.flatMap_cons, List.filter_append, List.map_append, ← hrest]
    by_cases hl : way.length ≤ text.length
    · rw [List.filter_cons_of_pos (by simpa using hl), List.map_cons, List.flatMap_cons]
      congr 1
      have hn := hnext way List.mem_cons_self hl
      rw [List.drop_append_of_le_length hl] at hway
      simp only [Way.within]
      rw [hn, hway, List.map_map, List.filter_map, List.map_map, List.length_drop]
      have hpred : ((fun w : Way => decide (w.length ≤ text.length)) ∘
          (fun w : Way => w.after way.length)) =
          fun w : Way => decide (w.length ≤ text.length - way.length) := by
        funext w
        simp only [Function.comp_apply, Way.after, decide_eq_decide]
        omega
      rw [hpred]
      congr 1
      funext w
      simp [Way.after, Way.within, List.drop_drop]
    · have hnone : ((next way.rest).map (·.after way.length)).filter
          (fun w => decide (w.length ≤ text.length)) = [] := by
        rw [List.filter_eq_nil_iff]
        intro w hw
        obtain ⟨v, _, rfl⟩ := List.mem_map.mp hw
        intro hle
        have := of_decide_eq_true hle
        simp only [Way.length_after] at this
        omega
      rw [List.filter_cons_of_neg (by simpa using hl), hnone]
      rfl

/-- The ways to match a text are those to match a longer one that stay inside of it. -/
theorem ways_prefix {regex : Regex} (hplain : regex.IsPlain) :
    ∀ (text rest : List Char), regex.ways false text =
      ((regex.ways false (text ++ rest)).filter (·.length ≤ text.length)).map (·.within text) := by
  induction regex with
  | empty =>
    intro text rest
    simp [ways, Way.within]
  | oneOf negated classes =>
    intro text rest
    cases text with
    | nil =>
      cases rest with
      | nil => simp [ways]
      | cons c rest =>
        simp only [List.nil_append, ways]
        split <;> simp
    | cons c text =>
      simp only [List.cons_append, ways]
      split <;> simp [Way.within]
  | seq first second ihf ihs =>
    intro text rest
    have h := within_flatMap (second.ways false) (first.ways false (text ++ rest))
      (reads_of_mem_ways false first _) (fun way _ _ => ihs hplain.2 _ rest)
    rw [← ihf hplain.1] at h
    exact h
  | alt first second ihf ihs =>
    intro text rest
    rw [ways, ways, List.filter_append, List.map_append, ihf hplain.1 text rest,
      ihs hplain.2 text rest]
  | star body ih =>
    intro text rest
    induction hn : text.length using Nat.strongRecOn generalizing text with
    | ind n ihn =>
      subst hn
      have hpos : (body.ways false text).filter (0 < ·.length) =
          (((body.ways false (text ++ rest)).filter (0 < ·.length)).filter
            (·.length ≤ text.length)).map (·.within text) := by
        rw [ih hplain text rest, List.filter_map, List.filter_filter, List.filter_filter]
        congr 1
        refine List.filter_congr fun way _ => ?_
        simp only [Function.comp_apply, Way.within, Bool.and_comm]
      have h := within_flatMap ((Regex.star body).ways false)
        ((body.ways false (text ++ rest)).filter (0 < ·.length))
        (fun way hway => reads_of_mem_ways false body _ way (List.mem_filter.mp hway).1)
        (fun way hway hl => ihn _ (by
          have := (List.mem_filter.mp hway).2
          simp only [decide_eq_true_eq] at this
          rw [List.length_drop]
          omega) _ rfl)
      rw [ways_star, ways_star, List.filter_append, List.map_append, hpos, h]
      simp [Way.within]
  | notAhead body => exact hplain.elim

/-! ## Runs of characters of one kind -/

/-- A repetition of single characters reads as many of them as there are. -/
theorem head?_ways_star {negated : Bool} {classes : List CharClass} (text : List Char) :
    ((Regex.star (.oneOf negated classes)).ways false text).head? =
      some ⟨(text.takeWhile fun c => classes.any (·.contains c) != negated).length,
        text.dropWhile fun c => classes.any (·.contains c) != negated⟩ := by
  induction text with
  | nil => rfl
  | cons c rest ih =>
    rw [ways_star]
    by_cases hc : (classes.any (·.contains c) != negated) = true
    · have hone : (Regex.oneOf negated classes).ways false (c :: rest) = [⟨1, rest⟩] := if_pos hc
      rw [hone, List.takeWhile_cons_of_pos (by exact hc), List.dropWhile_cons_of_pos (by exact hc)]
      simp [ih, Way.after, Nat.add_comm]
    · have hnone : (Regex.oneOf negated classes).ways false (c :: rest) = [] := if_neg hc
      rw [hnone, List.takeWhile_cons_of_neg (by exact hc), List.dropWhile_cons_of_neg (by exact hc)]
      rfl

end GatedExpr.Regex

namespace GatedExpr.Pattern

/-- The pattern reads exactly the text, if nothing follows. -/
def Accepts (pattern : Pattern) (text : List Char) : Prop :=
  pattern.match? text = some ⟨text.length, []⟩

/-- The text can be read before what follows, and nothing longer. -/
def Bounds (pattern : Pattern) (text rest : List Char) : Prop :=
  ∀ c more, rest = c :: more → ∀ longer, pattern.regex.Spells longer → ¬ (text ++ [c]) <+: longer

variable {pattern : Pattern} {text rest : List Char}

theorem match?_of_flags (hf : pattern.flags = 0) :
    pattern.match? text = (pattern.regex.ways false text).head? := by
  rw [match?, ignoresCase, hf]
  rfl

/-- What a pattern reads it also reads alone. -/
theorem accepts_of_match? (hf : pattern.flags = 0) (hp : pattern.regex.IsPlain)
    (h : pattern.match? (text ++ rest) = some ⟨text.length, rest⟩) : pattern.Accepts text := by
  rw [match?_of_flags hf] at h
  rw [Accepts, match?_of_flags hf, Regex.ways_prefix hp text rest]
  cases hw : pattern.regex.ways false (text ++ rest) with
  | nil => simp [hw] at h
  | cons way ways =>
    rw [hw, List.head?_cons, Option.some.injEq] at h
    subst h
    simp [Regex.Way.within]

/-- What a pattern reads alone it also reads before what it cannot read on with. -/
theorem match?_of_accepts (hf : pattern.flags = 0) (hp : pattern.regex.IsPlain)
    (h : pattern.Accepts text) (hb : pattern.Bounds text rest) :
    pattern.match? (text ++ rest) = some ⟨text.length, rest⟩ := by
  have hinside : ∀ way ∈ pattern.regex.ways false (text ++ rest), way.length ≤ text.length := by
    intro way hway
    by_contra hlt
    have hle := (Regex.reads_of_mem_ways false _ _ way hway).length_le
    cases rest with
    | nil =>
      rw [List.append_nil] at hle
      omega
    | cons c more =>
      apply hb c more rfl _ (Regex.spells_of_mem_ways _ hway)
      rw [List.prefix_take_iff]
      refine ⟨⟨more, by simp⟩, ?_⟩
      rw [List.length_append, List.length_singleton]
      omega
  rw [Accepts, match?_of_flags hf, Regex.ways_prefix hp text rest,
    List.filter_eq_self.mpr (by simpa using hinside)] at h
  rw [match?_of_flags hf]
  cases hw : pattern.regex.ways false (text ++ rest) with
  | nil => simp [hw] at h
  | cons way ways =>
    rw [hw, List.map_cons, List.head?_cons, Option.some.injEq] at h
    have hreads := Regex.reads_of_mem_ways false _ _ way (hw ▸ List.mem_cons_self)
    have hlength : way.length = text.length := congrArg Regex.Way.length h
    have hrest : way.rest = rest := by rw [hreads.rest_eq, hlength, List.drop_left]
    rw [List.head?_cons, ← hlength, ← hrest]

end GatedExpr.Pattern

namespace GatedExpr

/-! ## Shapes of what is spelled -/

namespace Regex.Spells

theorem oneOf_iff {negated : Bool} {classes : List CharClass} {t : List Char} :
    Spells (.oneOf negated classes) t ↔
      ∃ c, t = [c] ∧ (classes.any (·.contains c) != negated) = true := by
  constructor
  · intro h
    cases h with
    | oneOf hc => exact ⟨_, rfl, hc⟩
  · rintro ⟨c, rfl, hc⟩
    exact .oneOf hc

theorem char_iff {d : Char} {t : List Char} : Spells (.char d) t ↔ t = [d] := by
  simp [Regex.char, oneOf_iff, CharClass.contains]

theorem seq_iff {first second : Regex} {t : List Char} :
    Spells (.seq first second) t ↔ ∃ s r, t = s ++ r ∧ Spells first s ∧ Spells second r := by
  constructor
  · intro h
    cases h with
    | seq hs hr => exact ⟨_, _, rfl, hs, hr⟩
  · rintro ⟨s, r, rfl, hs, hr⟩
    exact .seq hs hr

theorem alt_iff {first second : Regex} {t : List Char} :
    Spells (.alt first second) t ↔ Spells first t ∨ Spells second t := by
  constructor
  · intro h
    cases h with
    | left h => exact .inl h
    | right h => exact .inr h
  · rintro (h | h)
    · exact .left h
    · exact .right h

theorem empty_iff {t : List Char} : Spells .empty t ↔ t = [] := by
  constructor
  · rintro ⟨⟩
    rfl
  · rintro rfl
    exact .empty

theorem optional_iff {body : Regex} {t : List Char} :
    Spells body.optional t ↔ Spells body t ∨ t = [] := by
  rw [Regex.optional, alt_iff, empty_iff]

theorem star_oneOf {negated : Bool} {classes : List CharClass} {t : List Char}
    (h : Spells (.star (.oneOf negated classes)) t) :
    ∀ c ∈ t, (classes.any (·.contains c) != negated) = true := by
  generalize hr : Regex.star (.oneOf negated classes) = regex at h
  induction h with
  | nil => simp
  | more hs _ _ ih =>
    cases hr
    obtain ⟨c, rfl, hc⟩ := oneOf_iff.mp hs
    exact List.forall_mem_cons.mpr ⟨hc, ih rfl⟩
  | _ => cases hr

theorem plus_oneOf {negated : Bool} {classes : List CharClass} {t : List Char}
    (h : Spells (Regex.oneOf negated classes).plus t) :
    t ≠ [] ∧ ∀ c ∈ t, (classes.any (·.contains c) != negated) = true := by
  obtain ⟨s, r, rfl, hs, hr⟩ := seq_iff.mp h
  obtain ⟨c, rfl, hc⟩ := oneOf_iff.mp hs
  exact ⟨by simp, List.forall_mem_cons.mpr ⟨hc, star_oneOf hr⟩⟩

end Regex.Spells

namespace Regex

/-- The character can be read somewhere in the regular expression. -/
def mentions (c : Char) : Regex → Bool
  | .empty | .notAhead _ => false
  | .oneOf negated classes => classes.any (·.contains c) != negated
  | .seq first second | .alt first second => first.mentions c || second.mentions c
  | .star body => body.mentions c

theorem mentions_of_spells {regex : Regex} {t : List Char} (h : regex.Spells t) :
    ∀ c ∈ t, regex.mentions c = true := by
  induction h with
  | empty => simp
  | oneOf hc => simpa [mentions] using hc
  | seq _ _ ihs iht =>
    intro c hc
    rcases List.mem_append.mp hc with hc | hc
    · simp [mentions, ihs c hc]
    · simp [mentions, iht c hc]
  | left _ ih => simpa [mentions] using fun c hc => .inl (ih c hc)
  | right _ ih => simpa [mentions] using fun c hc => .inr (ih c hc)
  | nil => simp
  | more _ _ ihs iht =>
    intro c hc
    rcases List.mem_append.mp hc with hc | hc
    · exact ihs c hc
    · exact iht c hc
  | notAhead => simp

theorem mem_ways_literal {word text : List Char} {way : Way} :
    way ∈ (Regex.literal word).ways false text ↔
      word <+: text ∧ way = ⟨word.length, text.drop word.length⟩ := by
  induction word generalizing text way with
  | nil => simp [Regex.literal, ways]
  | cons c word ih =>
    have hseq : Regex.literal (c :: word) = .seq (.char c) (Regex.literal word) := rfl
    rw [hseq, ways, List.mem_flatMap]
    cases text with
    | nil => simp [Regex.char, ways]
    | cons d rest =>
      have hchar : (Regex.char c).ways false (d :: rest) = if d = c then [⟨1, rest⟩] else [] := by
        simp [Regex.char, ways, classesContain, CharClass.contains]
      rw [hchar]
      by_cases hd : d = c
      · subst hd
        simp only [if_true, List.mem_singleton, exists_eq_left, List.mem_map, ih,
          List.cons_prefix_cons, true_and, List.length_cons, List.drop_succ_cons]
        constructor
        · rintro ⟨next, ⟨hp, rfl⟩, rfl⟩
          exact ⟨hp, by simp [Nat.add_comm]⟩
        · rintro ⟨hp, rfl⟩
          exact ⟨_, ⟨hp, rfl⟩, by simp [Nat.add_comm]⟩
      · simp [hd, List.cons_prefix_cons, Ne.symm hd]

theorem head?_ways_seq {first second : Regex} {text : List Char} {way next : Way}
    (hf : (first.ways false text).head? = some way)
    (hs : (second.ways false way.rest).head? = some next) :
    ((Regex.seq first second).ways false text).head? = some (next.after way.length) := by
  cases hw : first.ways false text with
  | nil => simp [hw] at hf
  | cons w ways' =>
    rw [hw, List.head?_cons, Option.some.injEq] at hf
    subst hf
    cases hn : second.ways false w.rest with
    | nil => simp [hn] at hs
    | cons n nexts =>
      rw [hn, List.head?_cons, Option.some.injEq] at hs
      subst hs
      simp [ways, hw, hn, Way.after]

theorem head?_ways_left {first : Regex} (second : Regex) {text : List Char} {way : Way}
    (h : (first.ways false text).head? = some way) :
    ((Regex.alt first second).ways false text).head? = some way := by
  rw [ways, List.head?_append, h]
  rfl

theorem head?_ways_optional (body : Regex) (text : List Char) :
    ∃ way, (body.optional.ways false text).head? = some way := by
  rw [Regex.optional, ways, ways, List.head?_append]
  cases (body.ways false text).head? with
  | none => exact ⟨_, rfl⟩
  | some way => exact ⟨way, rfl⟩

end Regex

namespace Pattern

theorem bounds_nil (pattern : Pattern) (text : List Char) : pattern.Bounds text [] :=
  nofun

theorem match?_eq_none {pattern : Pattern} {text : List Char} (hf : pattern.flags = 0)
    (h : ∀ t, pattern.regex.Spells t → ¬ t <+: text) : pattern.match? text = none := by
  rw [match?_of_flags hf, List.head?_eq_none_iff, List.eq_nil_iff_forall_not_mem]
  intro way hway
  exact h _ (Regex.spells_of_mem_ways _ hway) (List.take_prefix _ _)

/-- What is accepted is spelled. -/
theorem Accepts.spells {pattern : Pattern} {text : List Char} (hf : pattern.flags = 0)
    (h : pattern.Accepts text) : pattern.regex.Spells text := by
  rw [Accepts, match?_of_flags hf] at h
  have := Regex.spells_of_mem_ways _ (List.mem_of_mem_head? h)
  rwa [List.take_length] at this

theorem bounds_of_not_mentions {pattern : Pattern} {c : Char}
    (h : pattern.regex.mentions c = false) (text more : List Char) :
    pattern.Bounds text (c :: more) := by
  rintro _ _ ⟨⟩ longer hl hp
  have := Regex.mentions_of_spells hl c (hp.subset (by simp))
  rw [h] at this
  cases this

end Pattern

end GatedExpr
