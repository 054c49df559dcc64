import GatedExpr.Number.Numeral

/-! # How numerals are read

Digits around an optional point and an optional exponent are read to the end. What is read to the
end has nothing but digits, a point, exponent marks and signs in it, and two views of which
characters are digits read it alike if they agree about its characters.
-/

namespace GatedExpr.Numeral

variable {digit? other? : Char → Option Nat} {text rest : List Char}

/-! ## Runs of digits -/

theorem takeDigits_append {digits : List Char} (hd : ∀ c ∈ digits, (digit? c).isSome)
    (hr : ∀ c, rest.head? = some c → digit? c = none) :
    takeDigits digit? (digits ++ rest) = (digits.filterMap digit?, rest) := by
  induction digits with
  | nil =>
    cases rest with
    | nil => rfl
    | cons c rest => simp [takeDigits, hr c rfl]
  | cons c digits ih =>
    obtain ⟨hc, hdigits⟩ := List.forall_mem_cons.mp hd
    obtain ⟨value, hvalue⟩ := Option.isSome_iff_exists.mp hc
    simp [takeDigits, hvalue, ih hdigits]

theorem takeDigits_all {digits : List Char} (hd : ∀ c ∈ digits, (digit? c).isSome) :
    takeDigits digit? digits = (digits.filterMap digit?, []) := by
  have htake : takeDigits digit? (digits ++ []) = _ := takeDigits_append hd nofun
  rwa [List.append_nil] at htake

theorem filterMap_ne_nil {digits : List Char} (hd : ∀ c ∈ digits, (digit? c).isSome)
    (hne : digits ≠ []) : digits.filterMap digit? ≠ [] := by
  obtain ⟨c, digits, rfl⟩ := List.exists_cons_of_ne_nil hne
  obtain ⟨value, hvalue⟩ := Option.isSome_iff_exists.mp (hd c List.mem_cons_self)
  simp [hvalue]

theorem exists_takeDigits (digit? : Char → Option Nat) (text : List Char) :
    ∃ digits, text = digits ++ (takeDigits digit? text).2 ∧ ∀ c ∈ digits, (digit? c).isSome := by
  induction text with
  | nil => exact ⟨[], rfl, nofun⟩
  | cons c text ih =>
    cases hc : digit? c with
    | none => exact ⟨[], by simp [takeDigits, hc], nofun⟩
    | some value =>
      obtain ⟨digits, htext, hd⟩ := ih
      refine ⟨c :: digits, ?_, List.forall_mem_cons.mpr ⟨by simp [hc], hd⟩⟩
      simpa [takeDigits, hc] using htext

theorem takeDigits_congr (h : ∀ c ∈ text, digit? c = other? c) :
    takeDigits digit? text = takeDigits other? text := by
  induction text with
  | nil => rfl
  | cons c text ih =>
    obtain ⟨hc, htext⟩ := List.forall_mem_cons.mp h
    simp only [takeDigits, hc, ih htext]

/-! ## Exponents -/

/-- A character that a numeral may have beside its digits. -/
def IsMark (c : Char) : Prop :=
  c ∈ ['.', 'e', 'E', '+', '-']

theorem exists_takeSign (text : List Char) :
    ∃ sign, text = sign ++ (takeSign text).2 ∧ ∀ c ∈ sign, IsMark c := by
  unfold takeSign
  split
  · exact ⟨['-'], rfl, by simp [IsMark]⟩
  · exact ⟨['+'], rfl, by simp [IsMark]⟩
  · exact ⟨[], rfl, nofun⟩

theorem takeExponent_mark {mark : Char} {sign digits : List Char} (hm : mark = 'e' ∨ mark = 'E')
    (hs : sign = [] ∨ sign = ['+'] ∨ sign = ['-'])
    (hsign : ∀ c ∈ ['+', '-'], digit? c = none) (hne : digits ≠ [])
    (hd : ∀ c ∈ digits, (digit? c).isSome) :
    ∃ size, takeExponent digit? (mark :: (sign ++ digits)) = (some size, []) := by
  have hmark : (mark == 'e' || mark == 'E') = true := by simpa using hm
  obtain ⟨negative, hunsigned⟩ : ∃ negative, takeSign (sign ++ digits) = (negative, digits) := by
    rcases hs with rfl | rfl | rfl
    · obtain ⟨c, digits, rfl⟩ := List.exists_cons_of_ne_nil hne
      have hc := hd c List.mem_cons_self
      refine ⟨false, ?_⟩
      rw [List.nil_append, takeSign]
      all_goals
        rintro _ ⟨⟩
        rw [hsign _ (by simp)] at hc
        cases hc
    · exact ⟨false, rfl⟩
    · exact ⟨true, rfl⟩
  obtain ⟨value, values, hvalues⟩ := List.exists_cons_of_ne_nil (filterMap_ne_nil hd hne)
  exact ⟨_, by simp only [takeExponent, hmark, if_true, hunsigned, takeDigits_all hd, hvalues]; rfl⟩

theorem exists_takeExponent (digit? : Char → Option Nat) (text : List Char) :
    ∃ read, text = read ++ (takeExponent digit? text).2 ∧
      ∀ c ∈ read, (digit? c).isSome ∨ IsMark c := by
  cases text with
  | nil => exact ⟨[], rfl, nofun⟩
  | cons mark text =>
    by_cases hmark : (mark == 'e' || mark == 'E') = true
    · obtain ⟨sign, hsign, hs⟩ := exists_takeSign text
      obtain ⟨digits, hdigits, hd⟩ := exists_takeDigits digit? (takeSign text).2
      simp only [takeExponent, hmark, if_true]
      split
      · exact ⟨[], rfl, nofun⟩
      · next values after _ htake =>
        rw [htake] at hdigits
        refine ⟨mark :: (sign ++ digits), ?_, ?_⟩
        · rw [List.cons_append, List.append_assoc, ← hdigits, ← hsign]
        · simp only [Bool.or_eq_true, beq_iff_eq] at hmark
          simp only [List.mem_cons, List.mem_append]
          rintro c (rfl | hc | hc)
          · exact .inr (by rcases hmark with rfl | rfl <;> simp [IsMark])
          · exact .inr (hs c hc)
          · exact .inl (hd c hc)
    · exact ⟨[], by simp only [takeExponent, hmark, List.nil_append]; rfl, nofun⟩

theorem takeExponent_congr (h : ∀ c ∈ text, digit? c = other? c) :
    takeExponent digit? text = takeExponent other? text := by
  cases text with
  | nil => rfl
  | cons mark text =>
    obtain ⟨sign, hsign, -⟩ := exists_takeSign text
    have hrest : ∀ c ∈ (takeSign text).2, digit? c = other? c := fun c hc =>
      h c (List.mem_cons_of_mem _ (hsign ▸ List.mem_append_right _ hc))
    simp only [takeExponent, takeDigits_congr hrest]

/-! ## Whole numerals -/

theorem read?_digits {digits exponent : List Char} {size : Option Int}
    (hd : ∀ c ∈ digits, (digit? c).isSome) (hne : digits ≠ [])
    (hx : ∀ c, exponent.head? = some c → digit? c = none ∧ c ≠ '.')
    (hsize : takeExponent digit? exponent = (size, [])) :
    read? digit? (digits ++ exponent) =
      some ({ whole := digits.filterMap digit?, fraction := none, exponent := size }, []) := by
  have htake := takeDigits_append hd fun c hc => (hx c hc).1
  obtain ⟨value, values, hvalues⟩ := List.exists_cons_of_ne_nil (filterMap_ne_nil hd hne)
  rw [hvalues] at htake ⊢
  unfold read?
  rw [htake]
  split
  · next heq => cases heq
  · next heq => cases heq
  · next heq =>
    cases heq
    exact absurd rfl (hx '.' rfl).2
  · next heq =>
    cases heq
    rw [hsize]

theorem read?_point {whole fraction exponent : List Char} {size : Option Int}
    (hpoint : digit? '.' = none) (hw : ∀ c ∈ whole, (digit? c).isSome)
    (hf : ∀ c ∈ fraction, (digit? c).isSome) (hne : whole ≠ [] ∨ fraction ≠ [])
    (hx : ∀ c, exponent.head? = some c → digit? c = none)
    (hsize : takeExponent digit? exponent = (size, [])) :
    read? digit? (whole ++ '.' :: (fraction ++ exponent)) =
      some ({ whole := whole.filterMap digit?, fraction := some (fraction.filterMap digit?),
              exponent := size }, []) := by
  have htake : takeDigits digit? (whole ++ '.' :: (fraction ++ exponent)) = _ :=
    takeDigits_append hw (by rintro _ ⟨⟩; exact hpoint)
  have hfraction := takeDigits_append hf hx
  unfold read?
  rcases whole with _ | ⟨c, whole⟩
  · obtain ⟨value, values, hvalues⟩ :=
      List.exists_cons_of_ne_nil (filterMap_ne_nil hf (hne.resolve_left (· rfl)))
    rw [hvalues] at hfraction ⊢
    simp only [htake, List.filterMap_nil, hfraction, hsize]
  · obtain ⟨value, values, hvalues⟩ :=
      List.exists_cons_of_ne_nil (filterMap_ne_nil hw (List.cons_ne_nil c whole))
    rw [hvalues] at htake ⊢
    simp only [htake, hfraction, hsize]

/-- What a run of digits and an exponent after it leave over. -/
theorem exists_takeExponent_takeDigits (digit? : Char → Option Nat) (text : List Char) :
    ∃ read, text = read ++ (takeExponent digit? (takeDigits digit? text).2).2 ∧
      ∀ c ∈ read, (digit? c).isSome ∨ IsMark c := by
  obtain ⟨digits, htext, hd⟩ := exists_takeDigits digit? text
  obtain ⟨exponent, hexponent, hx⟩ := exists_takeExponent digit? (takeDigits digit? text).2
  refine ⟨digits ++ exponent, by rw [List.append_assoc, ← hexponent, ← htext], fun c hc => ?_⟩
  exact (List.mem_append.mp hc).elim (fun hc => .inl (hd c hc)) (hx c)

/-- What is left over comes after an exponent, and before that digits with a point among them. -/
theorem read?_cases {numeral : Numeral} (h : read? digit? text = some (numeral, rest)) :
    (∃ more, (takeDigits digit? text).2 = '.' :: more ∧
      rest = (takeExponent digit? (takeDigits digit? more).2).2) ∨
    rest = (takeExponent digit? (takeDigits digit? text).2).2 := by
  unfold read? at h
  split at h
  · next more htake =>
    split at h
    · cases h
    · next hfraction =>
      cases h
      exact .inl ⟨more, congrArg (·.2) htake, by rw [hfraction]; rfl⟩
  · cases h
  · next more _ htake =>
    cases h
    exact .inl ⟨more, congrArg (·.2) htake, rfl⟩
  · next htake =>
    cases h
    exact .inr (by rw [htake]; rfl)

/-- What is read to the end has only digits and marks in it. -/
theorem digits_or_marks_of_read? {numeral : Numeral}
    (h : read? digit? text = some (numeral, [])) : ∀ c ∈ text, (digit? c).isSome ∨ IsMark c := by
  rcases read?_cases h with ⟨more, htake, hrest⟩ | hrest
  · obtain ⟨digits, htext, hd⟩ := exists_takeDigits digit? text
    obtain ⟨read, hread, hc⟩ := exists_takeExponent_takeDigits digit? more
    rw [← hrest, List.append_nil] at hread
    rw [htext, htake, hread]
    simp only [List.mem_append, List.mem_cons]
    rintro c (hmem | rfl | hmem)
    · exact .inl (hd c hmem)
    · exact .inr (by simp [IsMark])
    · exact hc c hmem
  · obtain ⟨read, hread, hc⟩ := exists_takeExponent_takeDigits digit? text
    rw [← hrest, List.append_nil] at hread
    exact hread ▸ hc

theorem read?_congr (h : ∀ c ∈ text, digit? c = other? c) :
    read? digit? text = read? other? text := by
  obtain ⟨digits, htext, -⟩ := exists_takeDigits digit? text
  have hafter : ∀ c ∈ (takeDigits digit? text).2, digit? c = other? c := fun c hc =>
    h c (htext ▸ List.mem_append_right _ hc)
  unfold read?
  rw [← takeDigits_congr h]
  revert hafter
  generalize takeDigits digit? text = taken
  intro hafter
  have fraction (more : List Char) (hmore : ∀ c ∈ more, digit? c = other? c) :
      takeDigits digit? more = takeDigits other? more ∧
        takeExponent digit? (takeDigits other? more).2 =
          takeExponent other? (takeDigits other? more).2 := by
    obtain ⟨digits, hmore', -⟩ := exists_takeDigits other? more
    exact ⟨takeDigits_congr hmore, takeExponent_congr fun c hc =>
      hmore c (hmore' ▸ List.mem_append_right _ hc)⟩
  split
  · next more =>
    obtain ⟨hdigits, hexponent⟩ := fraction more (List.forall_mem_cons.mp hafter).2
    rw [hdigits]
    split
    · rfl
    · next heq =>
      rw [heq] at hexponent
      simp only [hexponent]
  · rfl
  · next more _ =>
    obtain ⟨hdigits, hexponent⟩ := fraction more (List.forall_mem_cons.mp hafter).2
    simp only [hdigits, hexponent]
  · simp only [takeExponent_congr hafter]

/-! ## Padding and separators -/

theorem withoutSeparators?_of_not_mem {isDigit : Char → Bool} (h : '_' ∉ text)
    (afterDigit : Bool) : withoutSeparators? isDigit afterDigit text = some text := by
  induction text generalizing afterDigit with
  | nil => rfl
  | cons c text ih =>
    obtain ⟨hc, htext⟩ := not_or.mp (mt List.mem_cons.mpr h)
    rw [withoutSeparators?, ih htext, Option.map_some]
    exact fun he => hc he.symm

theorem dropWhile_of_forall {property : Char → Bool} (h : ∀ c ∈ text, property c = false) :
    text.dropWhile property = text := by
  cases text with
  | nil => rfl
  | cons c text => rw [List.dropWhile_cons_of_neg (by simp [h c List.mem_cons_self])]

theorem dropLastWhile_of_forall {property : Char → Bool} (h : ∀ c ∈ text, property c = false) :
    Text.dropLastWhile property text = text := by
  rw [Text.dropLastWhile, dropWhile_of_forall fun c hc => h c (List.mem_reverse.mp hc),
    List.reverse_reverse]

theorem withoutPadding_of_forall (h : ∀ c ∈ text, isPadding c = false) :
    withoutPadding text = text := by
  rw [withoutPadding, dropWhile_of_forall h, dropLastWhile_of_forall h]

theorem takeSign_of_forall (h : ∀ c, text.head? = some c → c ≠ '+' ∧ c ≠ '-') :
    takeSign text = (false, text) := by
  unfold takeSign
  split
  · exact absurd rfl (h '-' rfl).2
  · exact absurd rfl (h '+' rfl).1
  · rfl

theorem mapM_of_forall (h : ∀ c ∈ text, (digit? c).isSome) :
    text.mapM digit? = some (text.filterMap digit?) := by
  induction text with
  | nil => rfl
  | cons c text ih =>
    obtain ⟨hc, htext⟩ := List.forall_mem_cons.mp h
    obtain ⟨value, hvalue⟩ := Option.isSome_iff_exists.mp hc
    rw [List.mapM_cons, hvalue, ih htext, List.filterMap_cons_some hvalue]
    rfl

/-- Digits without any separators. -/
theorem separatedDigits?_of_forall (h : ∀ c ∈ text, (digit? c).isSome) (hne : text ≠ [])
    (hmark : digit? '_' = none) (afterDigit : Bool) :
    separatedDigits? digit? afterDigit text = some (text.filterMap digit?) := by
  have hseparator : '_' ∉ text := fun hmem => by simpa [hmark] using h '_' hmem
  simp only [separatedDigits?, withoutSeparators?_of_not_mem hseparator, Option.bind_eq_bind,
    Option.bind_some, List.isEmpty_iff, hne, if_false, mapM_of_forall h]

end GatedExpr.Numeral
