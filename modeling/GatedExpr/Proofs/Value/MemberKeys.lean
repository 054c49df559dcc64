import Mathlib
import GatedExpr.Proofs.Grammar.Literals
import GatedExpr.Proofs.Number.Whole
import GatedExpr.Value.Member

/-! # Keys and their texts

A member is read by the text of its key, except that the items of a list, tuple or text are read
by a number as it stands. Which keys read something else than their texts do is known exactly:
keys that are not texts but print as `length`, negative integers beyond the doubles, and doubles
so large that they print with an exponent.
-/

namespace GatedExpr

/-! ## Digits as an index -/

namespace Value

theorem indexNumber?_decimal (n : Nat) :
    (Value.text (String.ofList (Text.decimal n))).indexNumber? = some (.int n) := by
  have hdigit {c : Char} (h : c.isDigit = true) :
      (Text.asciiDigitValue? c).filter (· < 10) = some (c.toNat - '0'.toNat) :=
    Token.forall_digits (P := fun c =>
      (Text.asciiDigitValue? c).filter (· < 10) = some (c.toNat - '0'.toNat)) (by decide +kernel) h
  have hvalues : ((Text.decimal n).map fun c => (Text.asciiDigitValue? c).filter (· < 10)) =
      ((Text.decimal n).map fun c => c.toNat - '0'.toNat).map some := by
    rw [List.map_map]
    exact List.map_congr_left fun c hc => hdigit (Token.isDigit_of_mem_decimal hc)
  have hall (values : List Nat) : (values.map some).mapM id = some values := by
    induction values with
    | nil => rfl
    | cons value values ih => rw [List.map_cons, List.mapM_cons, ih]; rfl
  have hne : (Text.decimal n).isEmpty = false := List.isEmpty_eq_false_iff.mpr Nat.toDigits_ne_nil
  simp only [indexNumber?, toText, String.toList_ofList, hne, hvalues, hall, Bool.false_eq_true,
    if_false, Option.map_some, Token.valueOfDigits_decimal]

/-- A text with anything but digits in it is not an index. -/
theorem indexNumber?_eq_none {s : String} {c : Char} (hc : c ∈ s.toList)
    (h : c.isDigit = false) : (Value.text s).indexNumber? = none := by
  have hdigit : (Text.asciiDigitValue? c).filter (· < 10) = none := by
    rw [Option.filter_eq_none_iff]
    intro value hvalue
    unfold Text.asciiDigitValue? at hvalue
    split_ifs at hvalue with h₁ h₂ h₃
    · have : c.isDigit = true := by simpa [Char.isDigit, Char.le_def] using h₁
      rw [h] at this
      cases this
    · cases hvalue; simp
    · cases hvalue; simp
  have hnone (digits : List Char) (hc : c ∈ digits) :
      (digits.map fun c => (Text.asciiDigitValue? c).filter (· < 10)).mapM id = none := by
    induction digits with
    | nil => cases hc
    | cons first digits ih =>
      rw [List.map_cons, List.mapM_cons]
      rcases List.mem_cons.mp hc with rfl | hc
      · rw [id, hdigit]; rfl
      · rw [ih hc]
        cases id ((Text.asciiDigitValue? first).filter (· < 10)) <;> rfl
  simp only [indexNumber?, toText, hnone _ hc, Option.map_none, ite_self]

end Value

/-! ## The texts of numbers -/

namespace Number

theorem signed_natCast (n : Nat) : signed n = String.ofList (Text.decimal n) := by
  rw [signed, if_neg (by omega), Int.natAbs_natCast]

theorem minus_mem_signed {n : Int} (h : n < 0) : '-' ∈ (signed n).toList := by
  rw [signed, if_pos h, String.toList_ofList]
  exact List.mem_cons_self

/-- What marks the text of a number that is not whole, or too large to be written out. -/
def isMark (c : Char) : Bool :=
  c == '.' || c == '+' || c == '-'

theorem exists_mark_scientific (layout : Shortest.Layout) (digits : List Char) (exponent : Int) :
    ∃ c ∈ layout.scientific digits exponent, isMark c = true := by
  refine ⟨if exponent < 0 then '-' else '+', ?_, by split <;> rfl⟩
  simp [Shortest.Layout.scientific]

theorem exists_mark_positional (digits : List Char) (point : Int) :
    ∃ c ∈ floatLayout.positional digits point, isMark c = true := by
  refine ⟨'.', ?_, rfl⟩
  have hending : '.' ∈ floatLayout.wholeEnding.toList := by decide
  unfold Shortest.Layout.positional
  split_ifs
  · simp
  · simp [hending]
  · simp

theorem exists_mark_write {x : Float} {negative : Bool} {mantissa : Nat} {exponent : Int}
    (h : Binary64.ofFloat x = .finite negative mantissa exponent) :
    ∃ c ∈ (floatLayout.write x).toList, isMark c = true := by
  have hsigned (numeral : List Char) (hn : ∃ c ∈ numeral, isMark c = true) :
      ∃ c ∈ (String.ofList (if negative then '-' :: numeral else numeral)).toList,
        isMark c = true := by
    obtain ⟨c, hc, hmark⟩ := hn
    rw [String.toList_ofList]
    split
    · exact ⟨c, List.mem_cons_of_mem _ hc, hmark⟩
    · exact ⟨c, hc, hmark⟩
  rw [Shortest.Layout.write, h]
  refine hsigned _ ?_
  split
  · exact exists_mark_scientific ..
  · exact exists_mark_positional ..

/-- No number is written as the key that asks for a length. -/
theorem text_ne_length (n : Number) : n.text ≠ "length" := by
  have hletters : ∀ c ∈ "length".toList, c.isDigit = false ∧ isMark c = false := by decide
  have hmark {s : String} (h : ∃ c ∈ s.toList, isMark c = true) : s ≠ "length" := by
    rintro rfl
    obtain ⟨c, hc, hmark⟩ := h
    exact absurd hmark (by simp [hletters c hc])
  have hsigned (n : Int) : signed n ≠ "length" := by
    rcases lt_or_ge n 0 with hn | hn
    · exact hmark ⟨'-', minus_mem_signed hn, rfl⟩
    · obtain ⟨k, rfl⟩ := Int.eq_ofNat_of_zero_le hn
      obtain ⟨c, hc⟩ := List.exists_mem_of_ne_nil (Text.decimal k) Nat.toDigits_ne_nil
      intro h
      rw [signed_natCast] at h
      have hmem : c ∈ "length".toList := by rwa [← h, String.toList_ofList]
      exact absurd (Token.isDigit_of_mem_decimal hc) (by simp [hletters c hmem])
  unfold text
  split
  · exact hsigned _
  · split
    · decide
    · split <;> decide
    · next hx =>
      simp only
      split
      · exact hsigned _
      · exact hmark (exists_mark_write hx)

/-- Whichever way a whole value is made an integer, its places below the point are zeros. -/
theorem exists_whole {value : Binary64.Dyadic} (h : value.isInteger = true) :
    ∃ i : Int, value.numerator = i * (twoTo value.shift : Int) ∧ value.truncate = i ∧
      value.floor = i := by
  obtain ⟨i, hi⟩ : ∃ i, value.numerator = i * (twoTo value.shift : Int) :=
    exists_eq_mul_left_of_dvd
      (Int.dvd_of_emod_eq_zero (by simpa [Binary64.Dyadic.isInteger] using h))
  have hpos : 0 < twoTo value.shift := Nat.two_pow_pos _
  have hne : (twoTo value.shift : Int) ≠ 0 := by omega
  refine ⟨i, hi, ?_, ?_⟩
  · rw [Binary64.Dyadic.truncate, hi, Int.mul_tdiv_cancel _ hne]
  · rw [Binary64.Dyadic.floor, hi, Int.mul_fdiv_cancel _ hne]

/-- A double is written as the integer that it is, unless it is not whole or so large that it is
written with an exponent. -/
theorem text_float (x : Float) :
    (∃ i : Int, Binary64.isInteger x = true ∧ (float x).truncate = .ok i ∧ i.natAbs < 10 ^ 21 ∧
      (float x).text = signed i) ∨
    (∃ c ∈ (float x).text.toList, c.isDigit = false) ∧
      (Binary64.isInteger x = false ∨ ∃ i : Int, Binary64.isInteger x = true ∧
        (float x).truncate = .ok i ∧ 10 ^ 21 ≤ i.natAbs) := by
  unfold text truncate Binary64.isInteger
  simp only
  cases hf : Binary64.ofFloat x with
  | nan => exact .inr ⟨⟨'N', show 'N' ∈ "NaN".toList by decide, rfl⟩, .inl rfl⟩
  | infinite negative =>
    have hletter : 'I' ∈ (if negative then "-Infinity" else "Infinity").toList := by
      cases negative <;> decide
    exact .inr ⟨⟨'I', hletter, rfl⟩, .inl rfl⟩
  | finite negative mantissa exponent =>
    simp only
    generalize Binary64.dyadic negative mantissa exponent = value
    have hwritten : ∃ c ∈ (floatLayout.write x).toList, c.isDigit = false := by
      obtain ⟨c, hc, hmark⟩ := exists_mark_write hf
      refine ⟨c, hc, ?_⟩
      rw [isMark, Bool.or_eq_true, Bool.or_eq_true, beq_iff_eq, beq_iff_eq, beq_iff_eq] at hmark
      rcases hmark with (rfl | rfl) | rfl <;> rfl
    cases hvalue : value.isInteger with
    | false => exact .inr ⟨by simpa using hwritten, .inl rfl⟩
    | true =>
      obtain ⟨i, hi, htruncate, hfloor⟩ := exists_whole hvalue
      have hsize : value.numerator.natAbs < tenTo 21 * twoTo value.shift ↔ i.natAbs < 10 ^ 21 := by
        rw [hi, Int.natAbs_mul, Int.natAbs_natCast]
        exact Nat.mul_lt_mul_right (Nat.two_pow_pos _)
      simp only [hsize, htruncate, hfloor, Bool.true_and, decide_eq_true_eq]
      by_cases hsmall : i.natAbs < 10 ^ 21
      · exact .inl ⟨i, trivial, rfl, hsmall, if_pos hsmall⟩
      · rw [if_neg hsmall]
        exact .inr ⟨hwritten, .inr ⟨i, trivial, rfl, Nat.le_of_not_lt hsmall⟩⟩

end Number

/-! ## Reading by a key and by its text -/

namespace Value

/-- The items that are read by index: of a list or tuple its own, of a text its characters. -/
def sequence? : Value → Option (List Value)
  | .list _ items | .tuple _ items => some items
  | .text s => some (s.toList.map fun c => .text (String.singleton c))
  | _ => none

/-- What a key reads from items. -/
def readFrom (items : List Value) (key : Value) : Except Fault Value :=
  if key.isLengthKey then .ok (.int items.length)
  else
    match key.index? items.length with
    | .ok position => .ok ((position.bind (items[·]?)).getD .null)
    | .error cause => .error (.number cause)

variable {target key : Value} {items : List Value} {id : Identity}

theorem getMember_of_sequence? (h : target.sequence? = some items) (key : Value) :
    target.getMember key = readFrom items key := by
  cases target with
  | list | tuple | text => cases h; rfl
  | _ => cases h

/-- Whatever has no items is read by the text of the key. -/
theorem getMember_text (h : target.sequence? = none) (key : Value) :
    target.getMember (.text key.toText) = target.getMember key := by
  cases target with
  | list | tuple | text => cases h
  | _ => rfl

theorem readFrom_of_none (hkey : key.isLengthKey = false) (h : key.indexNumber? = none) :
    readFrom items key = .ok .null := by
  simp [readFrom, hkey, index?, h]

theorem readFrom_text {s : String} (hs : s ≠ "length") (h : (text s).indexNumber? = none) :
    readFrom items (.text s) = .ok .null :=
  readFrom_of_none (by simpa [isLengthKey] using hs) h

/-- A number reads an item if it is whole. -/
theorem readFrom_number {n : Number} {i : Int} (hn : n.isInteger = .ok true)
    (ht : n.truncate = .ok i) :
    readFrom items (.number id n) = .ok (if 0 ≤ i then items[i.toNat]?.getD .null else .null) := by
  have hlength : (Value.number id n).isLengthKey = false := rfl
  have hnumber : (Value.number id n).indexNumber? = some n := rfl
  have hindex : (Value.number id n).index? items.length =
      .ok (if 0 ≤ i ∧ i < items.length then some i.toNat else none) := by
    simp only [index?, hnumber, hn, bind, Except.bind, if_true, ht]
    rfl
  simp only [readFrom, hlength, hindex, Bool.false_eq_true, if_false]
  split_ifs with hin hi hi
  · rfl
  · exact absurd hin.1 hi
  · have hout : items.length ≤ i.toNat := by omega
    rw [List.getElem?_eq_none hout]
    rfl
  · rfl

theorem readFrom_apart {n : Number} (hn : n.isInteger = .ok false) :
    readFrom items (.number id n) = .ok .null := by
  have hnumber : (Value.number id n).indexNumber? = some n := rfl
  have hindex : (Value.number id n).index? items.length = .ok none := by
    simp only [index?, hnumber, hn, bind, Except.bind]
    rfl
  simp only [readFrom, hindex]
  rfl

theorem readFrom_fails {n : Number} {cause : NumberFault} (hn : n.isInteger = .error cause) :
    readFrom items (.number id n) = .error (.number cause) := by
  have hnumber : (Value.number id n).indexNumber? = some n := rfl
  have hindex : (Value.number id n).index? items.length = .error cause := by
    simp only [index?, hnumber, hn, bind, Except.bind]
  simp only [readFrom, hindex]
  rfl

/-- Keys that read something else from items than their texts do. -/
inductive ReadsApart (items : List Value) : Value → Prop
  /-- Only a text asks for the length. -/
  | length {key : Value} (hkey : key.isText = false) (h : key.toText = "length") :
      ReadsApart items key
  /-- Such an integer is an error, while its text is not an index. -/
  | tooLow {id : Identity} {n : Int} (hn : n < 0) (h : Binary64.ofInt? n = none) :
      ReadsApart items (.number id (.int n))
  /-- The text of such a double has an exponent, and is not an index. -/
  | farOut {id : Identity} {x : Float} {i : Int} {item : Value}
      (hx : Binary64.isInteger x = true) (ht : (Number.float x).truncate = .ok i)
      (hi : 10 ^ 21 ≤ i) (hitem : items[i.toNat]? = some item) (hnull : item ≠ .null) :
      ReadsApart items (.number id (.float x))

/-- An integer that is not negative reads what its digits do. -/
theorem readFrom_decimal (n : Nat) (id : Identity) :
    readFrom items (.text (String.ofList (Text.decimal n))) =
      readFrom items (.number id (.int n)) := by
  have hlength : (Value.text (String.ofList (Text.decimal n))).isLengthKey = false := by
    have := Number.text_ne_length (.int n)
    rw [Number.text, Number.signed_natCast] at this
    simpa [isLengthKey] using this
  have hlength' : (Value.number id (.int n)).isLengthKey = false := rfl
  simp only [readFrom, hlength, hlength', index?, indexNumber?_decimal]
  rfl

/-- The text of a negative integer is not an index. -/
theorem readFrom_minus {n : Int} (hn : n < 0) :
    readFrom items (.text (Number.signed n)) = .ok .null :=
  readFrom_text (Number.text_ne_length (.int n))
    (indexNumber?_eq_none (Number.minus_mem_signed hn) rfl)

/-- The text of an integer of at most 21 digits reads the item with this index. -/
theorem readFrom_signed {n : Int} (h : n.natAbs < 10 ^ 21) :
    readFrom items (.text (Number.signed n)) =
      .ok (if 0 ≤ n then items[n.toNat]?.getD .null else .null) := by
  rcases lt_or_ge n 0 with hn | hn
  · rw [readFrom_minus hn, if_neg (by omega)]
  · obtain ⟨k, rfl⟩ := Int.eq_ofNat_of_zero_le hn
    have hinteger : (Number.int k).isInteger = .ok true :=
      Number.isInteger_int (h.trans (by decide +kernel))
    rw [Number.signed_natCast, readFrom_decimal k .unassigned, readFrom_number hinteger rfl]

theorem readsApart_int {n : Int} :
    ReadsApart items (.number id (.int n)) ↔ n < 0 ∧ Binary64.ofInt? n = none := by
  constructor
  · rintro (⟨-, h⟩ | ⟨hn, h⟩)
    · exact absurd h (Number.text_ne_length (.int n))
    · exact ⟨hn, h⟩
  · exact fun ⟨hn, h⟩ => .tooLow hn h

theorem readFrom_int (n : Int) :
    readFrom items (.text (Number.int n).text) = readFrom items (.number id (.int n)) ↔
      ¬ ReadsApart items (.number id (.int n)) := by
  rw [readsApart_int]
  rcases lt_or_ge n 0 with hn | hn
  · have htext : readFrom items (.text (Number.int n).text) = .ok .null := readFrom_minus hn
    rw [htext]
    cases hx : Binary64.ofInt? n with
    | none =>
      have hfails : (Number.int n).isInteger = .error .tooLarge := by
        rw [Number.isInteger, Number.toFloat, hx]
        rfl
      simp [readFrom_fails hfails, hn]
    | some x =>
      have hinteger : (Number.int n).isInteger = .ok (Binary64.isInteger x) := by
        rw [Number.isInteger, Number.toFloat, hx]
        rfl
      have hnull : readFrom items (.number id (.int n)) = .ok .null := by
        cases hw : Binary64.isInteger x with
        | true =>
          rw [readFrom_number (hw ▸ hinteger) rfl, if_neg (by omega)]
        | false => exact readFrom_apart (hw ▸ hinteger)
      simp [hnull]
  · obtain ⟨k, rfl⟩ := Int.eq_ofNat_of_zero_le hn
    have htext : (Number.int k).text = String.ofList (Text.decimal k) := Number.signed_natCast k
    rw [htext, readFrom_decimal k id]
    exact iff_of_true rfl fun h => by omega

theorem readsApart_float {x : Float} :
    ReadsApart items (.number id (.float x)) ↔
      ∃ i item, Binary64.isInteger x = true ∧ (Number.float x).truncate = .ok i ∧ 10 ^ 21 ≤ i ∧
        items[i.toNat]? = some item ∧ item ≠ .null := by
  constructor
  · rintro (⟨-, h⟩ | _ | ⟨hx, ht, hi, hitem, hnull⟩)
    · exact absurd h (Number.text_ne_length (.float x))
    · exact ⟨_, _, hx, ht, hi, hitem, hnull⟩
  · rintro ⟨i, item, hx, ht, hi, hitem, hnull⟩
    exact .farOut hx ht hi hitem hnull

theorem readFrom_float (x : Float) :
    readFrom items (.text (Number.float x).text) = readFrom items (.number id (.float x)) ↔
      ¬ ReadsApart items (.number id (.float x)) := by
  have hisInteger : (Number.float x).isInteger = .ok (Binary64.isInteger x) := rfl
  rw [readsApart_float]
  rcases Number.text_float x with ⟨i, hx, ht, hsmall, htext⟩ | ⟨⟨c, hc, hdigit⟩, hx⟩
  · -- A whole double reads what the integer does.
    have hread : readFrom items (.text (Number.float x).text) =
        readFrom items (.number id (.float x)) := by
      rw [readFrom_number (hx ▸ hisInteger) ht, htext, readFrom_signed hsmall]
    refine iff_of_true hread ?_
    rintro ⟨j, item, -, hj, hlarge, -⟩
    rw [ht] at hj
    cases hj
    omega
  · have htext : readFrom items (.text (Number.float x).text) = .ok .null :=
      readFrom_text (Number.text_ne_length _) (indexNumber?_eq_none hc hdigit)
    rw [htext]
    rcases hx with hx | ⟨i, hx, ht, hlarge⟩
    · rw [readFrom_apart (hx ▸ hisInteger)]
      simp [hx]
    · rw [readFrom_number (hx ▸ hisInteger) ht]
      simp only [hx, ht, true_and, Except.ok.injEq]
      rcases lt_or_ge i 0 with hi | hi
      · rw [if_neg (by omega)]
        refine iff_of_true rfl ?_
        rintro ⟨j, item, rfl, hj, -⟩
        omega
      · rw [if_pos hi]
        have hlarge' : (10 : Int) ^ 21 ≤ i := by omega
        constructor
        · rintro hnull ⟨j, item, rfl, -, hitem, hne⟩
          rw [hitem] at hnull
          exact hne hnull.symm
        · intro hapart
          cases hitem : items[i.toNat]? with
          | none => rfl
          | some item =>
            by_contra hne
            exact hapart ⟨i, item, rfl, hlarge', hitem, fun h => hne h.symm⟩

/-- A key that is neither a text nor a number counts as its text, except that it does not ask for
the length. -/
theorem readFrom_other (htext : key.isText = false) (hlength : key.isLengthKey = false)
    (hindex : (text key.toText).indexNumber? = key.indexNumber?)
    (hapart : ReadsApart items key → key.toText = "length") :
    readFrom items (.text key.toText) = readFrom items key ↔ ¬ ReadsApart items key := by
  by_cases h : key.toText = "length"
  · have hnone : key.indexNumber? = none := by
      rw [← hindex, h]
      exact indexNumber?_eq_none (c := 'l') (by decide) rfl
    have hasked : (text key.toText).isLengthKey = true := beq_iff_eq.mpr h
    rw [readFrom_of_none hlength hnone, readFrom, if_pos hasked]
    exact iff_of_false nofun fun hnot => hnot (.length htext h)
  · have hasked : (text key.toText).isLengthKey = false := beq_eq_false_iff_ne.mpr h
    have hread : readFrom items (.text key.toText) = readFrom items key := by
      simp only [readFrom, index?, hasked, hlength, hindex]
    exact iff_of_true hread (mt hapart h)

theorem readFrom_iff (items : List Value) (key : Value) :
    readFrom items (.text key.toText) = readFrom items key ↔ ¬ ReadsApart items key := by
  cases key with
  | text s =>
    refine iff_of_true rfl ?_
    rintro ⟨h, -⟩
    cases h
  | number id n =>
    cases n with
    | int n => exact readFrom_int n
    | float x => exact readFrom_float x
  | _ => exact readFrom_other rfl rfl rfl fun | .length _ h => h

/-- A member read depends on the text of its key alone, unless items are read by a key that reads
apart from its text. -/
theorem getMember_by_text_iff (target key : Value) :
    target.getMember (.text key.toText) = target.getMember key ↔
      ∀ items, target.sequence? = some items → ¬ ReadsApart items key := by
  cases h : target.sequence? with
  | none => exact iff_of_true (getMember_text h key) nofun
  | some items =>
    rw [getMember_of_sequence? h, getMember_of_sequence? h, readFrom_iff]
    simp

example : ReadsApart [.int 1, .int 2] (.ofList [.text "length"]) :=
  .length rfl rfl

end Value

end GatedExpr
