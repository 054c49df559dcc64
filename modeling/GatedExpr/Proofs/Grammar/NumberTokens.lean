import GatedExpr.Proofs.Grammar.Tokens

/-! # Number tokens

Every part of the pattern of numbers takes as much as it can, so a text that the pattern spells is
a number token, although a part of it may be one too.
-/

namespace GatedExpr

namespace Token

open Regex Regex.Spells

variable {raw : List Char}

theorem readsFirst_exponent (h : exponent.Spells raw) : exponent.ReadsFirst raw [] := by
  rcases exponent_cases h with rfl | ⟨letter, sign, digits, rfl, hletter, hsign, hd⟩
  · rfl
  · have hdigits : decimalDigit.plus.ReadsFirst digits [] := readsFirst_digits hd nofun
    have hsigns : (Regex.optional (.oneOf false [.char '+', .char '-'])).ReadsFirst sign
        (digits ++ []) := by
      rcases hsign with rfl | rfl | rfl
      · obtain ⟨d, digits, rfl⟩ := List.exists_cons_of_ne_nil hd.1
        refine .none (refuses_oneOf ?_)
        rintro _ ⟨⟩
        have hdecimal := hd.2 d List.mem_cons_self
        simp only [CharClass.contains, List.any_cons, List.any_nil, Bool.or_false,
          Bool.bne_false, Bool.or_eq_false_iff, beq_eq_false_iff_ne]
        constructor <;>
          · rintro rfl
            exact absurd hdecimal (by decide)
      · exact .left _ (.oneOf (by decide) _)
      · exact .left _ (.oneOf (by decide) _)
    refine .left _ ((ReadsFirst.oneOf (c := letter) ?_ _).seq (hsigns.seq hdigits))
    rcases hletter with rfl | rfl <;> decide

/-- What may come after a mantissa. -/
theorem head_of_exponent {x : List Char} (h : exponent.Spells x) :
    ∀ c, x.head? = some c → c = 'e' ∨ c = 'E' := by
  rcases exponent_cases h with rfl | ⟨letter, sign, digits, rfl, hletter, -, -⟩
  · nofun
  · rintro _ ⟨⟩
    exact hletter

theorem readsFirst_mantissa {m x : List Char} (hm : mantissa.Spells m) (hx : exponent.Spells x) :
    mantissa.ReadsFirst m x := by
  have hhead := head_of_exponent hx
  have hx' : ∀ c, x.head? = some c → Text.isDecimal c = false := fun c hc => by
    rcases hhead c hc with rfl | rfl <;> decide
  have hdecimals {t : List Char} (ht : ∀ c ∈ t, Text.isDecimal c = true) :
      (Regex.star decimalDigit).ReadsFirst t x :=
    .star (fun c hc => (takes_decimal c).trans (ht c hc))
      fun c hc => (takes_decimal c).trans (hx' c hc)
  have hdot (t : List Char) : (Regex.char '.').ReadsFirst ['.'] t := rfl
  rcases isMantissa_of_spells hm with hm | ⟨whole, fraction, rfl, hw, hf⟩ | ⟨fraction, rfl, hf⟩
  · have hpoint : point.ReadsFirst [] x := by
      refine .none (Refuses.seq (refuses_oneOf fun c hc => ?_) _)
      rcases hhead c hc with rfl | rfl <;> decide
    have hwhole := (readsFirst_digits hm (by rwa [List.nil_append])).seq hpoint
    rw [List.append_nil] at hwhole
    exact .left _ hwhole
  · refine .left _ ((readsFirst_digits hw ?_).seq (.left _ ((hdot _).seq (hdecimals hf))))
    rintro _ ⟨⟩
    decide
  · refine .right (Refuses.seq (Refuses.seq (refuses_oneOf ?_) _) _) ((hdot _).seq
      (readsFirst_digits hf hx'))
    rintro _ ⟨⟩
    decide

/-- A hexadecimal number is not refused, and no other number is taken for one. -/
theorem readsFirst_number (h : number.regex.Spells raw) : number.regex.ReadsFirst raw [] := by
  rw [number_regex] at h ⊢
  rcases alt_iff.mp h with h | h
  · obtain ⟨zero, t, rfl, hzero, ht⟩ := seq_iff.mp h
    obtain ⟨u, digits, rfl, hu, hd⟩ := seq_iff.mp ht
    obtain ⟨x, rfl, hx⟩ := oneOf_iff.mp hu
    rw [char_iff] at hzero
    subst hzero
    obtain ⟨hne, hall⟩ := plus_oneOf hd
    exact .left _ ((ReadsFirst.oneOf (by decide) _).seq ((ReadsFirst.oneOf hx _).seq
      (.plus hall hne nofun)))
  · refine .right (hexNumber_ways_eq_nil fun x hsecond => ?_) ?_
    · rw [List.append_nil] at hsecond
      have hmem := List.mem_of_getElem? hsecond
      constructor <;>
        · rintro rfl
          exact not_mem_of_mentions h (by decide) hmem
    · obtain ⟨m, x, rfl, hm, hx⟩ := seq_iff.mp h
      exact .seq (by rw [List.append_nil]; exact readsFirst_mantissa hm hx) (readsFirst_exponent hx)

/-- A run of digits is a number token. -/
theorem accepts_of_isInteger (h : IsInteger raw) : number.Accepts raw := by
  have hwhole : mantissa.ReadsFirst raw [] := by
    have hpoint : point.ReadsFirst [] [] := rfl
    have hdigits : decimalDigit.plus.ReadsFirst raw ([] ++ []) := readsFirst_digits h nofun
    have hseq := hdigits.seq hpoint
    rw [List.append_nil] at hseq
    exact .left _ hseq
  have hexponent : exponent.ReadsFirst [] [] := rfl
  have hdecimal : (Regex.seq mantissa exponent).ReadsFirst (raw ++ []) [] := .seq hwhole hexponent
  rw [List.append_nil] at hdecimal
  refine Pattern.accepts_of_readsFirst rfl (.right ?_ hdecimal)
  refine hexNumber_ways_eq_nil fun x hx => not_hexMark_of_decimal (h.2 x ?_)
  rw [List.append_nil] at hx
  exact List.mem_of_getElem? hx

/-- The number tokens are the texts that the pattern of numbers spells. -/
theorem accepts_number_iff : number.Accepts raw ↔ number.regex.Spells raw :=
  ⟨fun h => h.spells rfl, fun h => Pattern.accepts_of_readsFirst rfl (readsFirst_number h)⟩

end Token

end GatedExpr
