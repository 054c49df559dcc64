import Mathlib
import GatedExpr.Builtin.Library
import GatedExpr.Proofs.Text.Digits

/-! # Reading integers

The integer at the start of a text is written by the longest run of digits of a base, after blanks,
a sign and a mark of the base. The run is found by lower case letters but read by ASCII digits, and
the only character that the two judge differently is the Kelvin sign: reading breaks off just if the
digits of a base that has the letter k come upon it.
-/

namespace GatedExpr

namespace Builtin

open Text (kelvinSign)

/-- The value of an ASCII digit or letter as a digit of a base. -/
def asciiDigitOf? (base : Nat) (c : Char) : Option Nat :=
  (Text.asciiDigitValue? c).filter (· < base)

/-- The natural number that a text begins with, in a base from 2 to 36: what its longest run of
digits writes, the first one weighing most. -/
inductive BeginsWith (base : Int) (text : List Char) : Option Nat → Prop
  | noBase (h : base < 2 ∨ 36 < base) : BeginsWith base text none
  | noDigit (h : ∀ c, text.head? = some c → asciiDigitOf? base.toNat c = none) :
      BeginsWith base text none
  | digits {digits rest : List Char} {values : List Nat} (hbase : 2 ≤ base ∧ base ≤ 36)
      (htext : text = digits ++ rest) (hne : digits ≠ [])
      (hvalues : digits.map (asciiDigitOf? base.toNat) = values.map some)
      (hrest : ∀ c, rest.head? = some c → asciiDigitOf? base.toNat c = none) :
      BeginsWith base text (some (Nat.ofDigits base.toNat values.reverse))

/-- A natural number with a sign, or not-a-number. -/
def signedNumber (negative : Bool) : Option Nat → Number
  | none => Number.nan
  | some n => .int (if negative then -n else n)

/-- Without a base, or with that of hexadecimal numbers, their mark may stand before the digits. -/
def isMarked (unsigned : List Char) (radix : Option Int) : Bool :=
  (radix.isNone || radix == some 16) && Numeral.hasHexMark unsigned

/-- The base that digits are read in: 16 after a mark, and 10 when none or zero is given. -/
def baseInEffect (unsigned : List Char) (radix : Option Int) : Int :=
  if isMarked unsigned radix then 16
  else
    match radix with
    | none | some 0 => 10
    | some base => base

def afterMark (unsigned : List Char) (radix : Option Int) : List Char :=
  if isMarked unsigned radix then unsigned.drop 2 else unsigned

/-- The number that a text begins with, after blanks, a sign and a mark. -/
def Reads (text : List Char) (radix : Option Int) (n : Number) : Prop :=
  let signed := Numeral.takeSign (Text.trim text)
  ∃ size, BeginsWith (baseInEffect signed.2 radix) (afterMark signed.2 radix) size ∧
    n = signedNumber signed.1 size

/-- The digits of a base that has the letter k come upon a Kelvin sign. -/
def RunsIntoKelvin (base : Int) (text : List Char) : Prop :=
  20 < base ∧ base ≤ 36 ∧ ∃ digits rest, text = digits ++ kelvinSign :: rest ∧
    ∀ c ∈ digits, (asciiDigitOf? base.toNat c).isSome = true

/-- Reading the number that a text begins with comes upon a Kelvin sign. -/
def MeetsKelvin (text : List Char) (radix : Option Int) : Prop :=
  let unsigned := (Numeral.takeSign (Text.trim text)).2
  RunsIntoKelvin (baseInEffect unsigned radix) (afterMark unsigned radix)

/-! ## Digits -/

section

variable {base : Nat} {c : Char} {text digits rest : List Char}

theorem ascii_of_asciiDigitOf? (h : (asciiDigitOf? base c).isSome = true) : c.toNat < 128 :=
  Text.ascii_of_isSome_filter h

theorem digitValue?_kelvinSign (base : Nat) :
    digitValue? base kelvinSign = if 20 < base then some 20 else none := by
  have hlower : Text.lowerChar kelvinSign = ['k'] := by decide +kernel
  have hvalue : Text.asciiDigitValue? 'k' = some 20 := by decide
  simp only [digitValue?, hlower, hvalue, Option.filter_some, decide_eq_true_eq]

/-- Apart from the Kelvin sign, digits are ASCII digits and letters. -/
theorem digitValue?_eq (hc : c ≠ kelvinSign) : digitValue? base c = asciiDigitOf? base c := by
  rcases Nat.lt_or_ge c.toNat 128 with hascii | hbeyond
  · rw [digitValue?, Text.lowerChar, if_pos hascii]
    simp only [Text.asciiDigitValue?_toLower hascii]
    rfl
  · rw [asciiDigitOf?, Text.asciiDigitValue?_of_not_ascii hbeyond, digitValue?]
    split
    · next d hd => rw [Text.asciiDigitValue?_of_lowerChar hbeyond hc hd]
    · rfl

theorem ne_kelvinSign (h : c.toNat < 128) : c ≠ kelvinSign := by
  rintro rfl
  exact absurd h (by decide)

theorem asciiDigitOf?_kelvinSign (base : Nat) : asciiDigitOf? base kelvinSign = none :=
  Option.not_isSome_iff_eq_none.mp fun h => ne_kelvinSign (ascii_of_asciiDigitOf? h) rfl

theorem digitValue?_of_asciiDigitOf? (h : (asciiDigitOf? base c).isSome = true) :
    digitValue? base c = asciiDigitOf? base c :=
  digitValue?_eq (ne_kelvinSign (ascii_of_asciiDigitOf? h))

theorem readDigits_eq (h : ∀ c ∈ digits, (asciiDigitOf? base c).isSome = true) :
    readDigits base digits =
      .ok (.int (Nat.ofDigits base (digits.filterMap (asciiDigitOf? base)).reverse : Nat)) := by
  have hascii : digits.all (·.toNat < 128) = true :=
    List.all_eq_true.mpr fun c hc => decide_eq_true (ascii_of_asciiDigitOf? (h c hc))
  have hvalues : digits.filterMap (digitValue? base) = digits.filterMap (asciiDigitOf? base) :=
    List.filterMap_congr fun c hc => digitValue?_of_asciiDigitOf? (h c hc)
  rw [readDigits, if_pos hascii, hvalues, Text.valueOfDigits_eq]

theorem readDigits_of_kelvinSign (h : kelvinSign ∈ digits) :
    readDigits base digits = .error .notANumeral := by
  have hbeyond : ¬ digits.all (·.toNat < 128) = true := fun hall =>
    absurd (List.all_eq_true.mp hall kelvinSign h) (by decide)
  rw [readDigits, if_neg hbeyond]

end

/-! ## Runs of digits -/

section

variable {base : Int} {text digits rest : List Char} {radix : Option Int}

/-- Reads the run of digits at the start of a text. -/
def readRun (base : Int) (text : List Char) : Except Fault Number :=
  if base < 2 || 36 < base then .ok Number.nan
  else
    let digits := text.takeWhile fun c => (digitValue? base.toNat c).isSome
    if digits.isEmpty then .ok Number.nan else readDigits base.toNat digits

theorem parseDigits_eq (unsigned : List Char) (radix : Option Int) :
    parseDigits unsigned radix =
      readRun (baseInEffect unsigned radix) (afterMark unsigned radix) := by
  unfold parseDigits
  simp only
  rw [← isMarked]
  have hbase : (if (if isMarked unsigned radix = true then 16 else radix.getD 10) = 0 then 10
      else if isMarked unsigned radix = true then 16 else radix.getD 10) =
        baseInEffect unsigned radix := by
    unfold baseInEffect
    cases isMarked unsigned radix with
    | true => rfl
    | false =>
      rcases radix with _ | base
      · rfl
      · by_cases hzero : base = 0 <;> simp [hzero]
  simp only [hbase]
  rfl

theorem takeWhile_run {digit? : Char → Option Nat} (hdigits : ∀ c ∈ digits, (digit? c).isSome = true)
    (hrest : ∀ c, rest.head? = some c → digit? c = none) :
    (digits ++ rest).takeWhile (fun c => (digit? c).isSome) = digits := by
  rw [List.takeWhile_append_of_pos hdigits]
  cases rest with
  | nil => simp
  | cons c rest => simp [hrest c rfl]

theorem exists_run (digit? : Char → Option Nat) (text : List Char) :
    ∃ digits rest, text = digits ++ rest ∧ (∀ c ∈ digits, (digit? c).isSome = true) ∧
      ∀ c, rest.head? = some c → digit? c = none := by
  refine ⟨text.takeWhile fun c => (digit? c).isSome, text.dropWhile fun c => (digit? c).isSome,
    List.takeWhile_append_dropWhile.symm, fun c hc => ?_, fun c hc => ?_⟩
  · exact List.mem_takeWhile_imp (p := fun c => (digit? c).isSome) hc
  · have hhead := List.head?_dropWhile_not (fun c => (digit? c).isSome) text
    rw [hc] at hhead
    simpa using hhead

/-- The digits of a run have values, which are read. -/
theorem map_run {digit? : Char → Option Nat} (hdigits : ∀ c ∈ digits, (digit? c).isSome = true) :
    digits.map digit? = (digits.filterMap digit?).map some := by
  induction digits with
  | nil => rfl
  | cons c digits ih =>
    obtain ⟨hc, htail⟩ := List.forall_mem_cons.mp hdigits
    obtain ⟨value, hvalue⟩ := Option.isSome_iff_exists.mp hc
    rw [List.map_cons, ih htail, List.filterMap_cons_some hvalue, List.map_cons, hvalue]

theorem isSome_of_mem_run {digit? : Char → Option Nat} {values : List Nat}
    (h : digits.map digit? = values.map some) {c : Char} (hc : c ∈ digits) :
    (digit? c).isSome = true := by
  obtain ⟨value, -, hvalue⟩ := List.mem_map.mp (h ▸ List.mem_map_of_mem hc)
  rw [← hvalue, Option.isSome_some]

/-- A text begins with one number at most. -/
theorem BeginsWith.unique {size size' : Option Nat} (h : BeginsWith base text size)
    (h' : BeginsWith base text size') : size = size' := by
  have hnone {digits rest : List Char} {values : List Nat} (htext : text = digits ++ rest)
      (hne : digits ≠ []) (hvalues : digits.map (asciiDigitOf? base.toNat) = values.map some)
      (hno : ∀ c, text.head? = some c → asciiDigitOf? base.toNat c = none) : False := by
    obtain ⟨c, digits, rfl⟩ := List.exists_cons_of_ne_nil hne
    have hdigit := isSome_of_mem_run hvalues List.mem_cons_self
    rw [hno c (by rw [htext]; rfl)] at hdigit
    cases hdigit
  cases h with
  | noBase hout =>
    cases h' with
    | noBase | noDigit => rfl
    | digits hbase => omega
  | noDigit hno =>
    cases h' with
    | noBase | noDigit => rfl
    | digits _ htext hne hvalues => exact (hnone htext hne hvalues hno).elim
  | digits hbase htext hne hvalues hrest =>
    cases h' with
    | noBase hout => omega
    | noDigit hno => exact (hnone htext hne hvalues hno).elim
    | digits _ htext' _ hvalues' hrest' =>
      -- Both runs of digits are as long as they can be.
      have hrun := takeWhile_run (fun _ => isSome_of_mem_run hvalues) hrest
      have hrun' := takeWhile_run (fun _ => isSome_of_mem_run hvalues') hrest'
      rw [← htext] at hrun
      rw [← htext', hrun] at hrun'
      subst hrun'
      rw [List.map_injective_iff.mpr (Option.some_injective Nat) (hvalues.symm.trans hvalues')]

theorem readRun_of_mem (hbase : 2 ≤ base ∧ base ≤ 36) :
    readRun base text = (let digits := text.takeWhile fun c => (digitValue? base.toNat c).isSome
      if digits.isEmpty then .ok Number.nan else readDigits base.toNat digits) := by
  refine if_neg ?_
  rw [Bool.or_eq_true, decide_eq_true_eq, decide_eq_true_eq]
  omega

theorem readRun_of_run (hbase : 2 ≤ base ∧ base ≤ 36)
    (hdigits : ∀ c ∈ digits, (asciiDigitOf? base.toNat c).isSome = true)
    (hrest : ∀ c, rest.head? = some c → digitValue? base.toNat c = none) :
    readRun base (digits ++ rest) =
      if digits.isEmpty then .ok Number.nan else readDigits base.toNat digits := by
  have hdigits' : ∀ c ∈ digits, (digitValue? base.toNat c).isSome = true := fun c hc => by
    rw [digitValue?_of_asciiDigitOf? (hdigits c hc), hdigits c hc]
  simp only [readRun_of_mem hbase, takeWhile_run hdigits' hrest]

theorem readRun_of_kelvinSign (hbase : 2 ≤ base ∧ base ≤ 36) (hk : 20 < base)
    (hdigits : ∀ c ∈ digits, (asciiDigitOf? base.toNat c).isSome = true) :
    readRun base (digits ++ kelvinSign :: rest) = .error .notANumeral := by
  have hkelvin : (digitValue? base.toNat kelvinSign).isSome = true := by
    rw [digitValue?_kelvinSign, if_pos (by omega)]
    rfl
  obtain ⟨more, hrun⟩ : ∃ more, (digits ++ kelvinSign :: rest).takeWhile
      (fun c => (digitValue? base.toNat c).isSome) = digits ++ kelvinSign :: more := by
    have hdigits' : ∀ c ∈ digits, (digitValue? base.toNat c).isSome = true := fun c hc => by
      rw [digitValue?_of_asciiDigitOf? (hdigits c hc), hdigits c hc]
    exact ⟨_, (List.takeWhile_append_of_pos hdigits').trans
      (congrArg _ (List.takeWhile_cons_of_pos hkelvin))⟩
  simp only [readRun_of_mem hbase, hrun]
  rw [if_neg (by simp), readDigits_of_kelvinSign (by simp)]

/-- A text runs into a Kelvin sign if that follows its ASCII digits. -/
theorem runsIntoKelvin_iff (hdigits : ∀ c ∈ digits, (asciiDigitOf? base.toNat c).isSome = true)
    (hrest : ∀ c, rest.head? = some c → asciiDigitOf? base.toNat c = none) :
    RunsIntoKelvin base (digits ++ rest) ↔
      20 < base ∧ base ≤ 36 ∧ rest.head? = some kelvinSign := by
  refine and_congr_right' (and_congr_right' ⟨?_, fun hhead => ?_⟩)
  · rintro ⟨digits', rest', htext, hdigits'⟩
    have hsame : digits = digits' := by
      rw [← takeWhile_run hdigits hrest, htext]
      exact takeWhile_run hdigits' (by rintro _ ⟨⟩; exact asciiDigitOf?_kelvinSign _)
    rw [hsame] at htext
    rw [List.append_cancel_left htext]
    rfl
  · cases rest with
    | nil => cases hhead
    | cons c rest =>
      cases hhead
      exact ⟨digits, rest, rfl, hdigits⟩

/-- Reading a run breaks off at a Kelvin sign, and otherwise yields what the text begins with. -/
theorem readRun_cases (base : Int) (text : List Char) :
    RunsIntoKelvin base text ∧ readRun base text = .error .notANumeral ∨
      ¬ RunsIntoKelvin base text ∧
        ∃ size, BeginsWith base text size ∧ readRun base text = .ok (signedNumber false size) := by
  by_cases hbase : 2 ≤ base ∧ base ≤ 36
  · obtain ⟨digits, rest, rfl, hdigits, hrest⟩ := exists_run (asciiDigitOf? base.toNat) text
    rw [runsIntoKelvin_iff hdigits hrest, and_iff_right hbase.2]
    by_cases hkelvin : 20 < base ∧ rest.head? = some kelvinSign
    · obtain ⟨rest, rfl⟩ : ∃ more, rest = kelvinSign :: more :=
        ⟨_, List.eq_cons_of_mem_head? hkelvin.2⟩
      exact .inl ⟨hkelvin, readRun_of_kelvinSign hbase hkelvin.1 hdigits⟩
    · have hstop (c : Char) (hc : rest.head? = some c) : digitValue? base.toNat c = none := by
        rcases eq_or_ne c kelvinSign with rfl | hne
        · have hfew : ¬ 20 < base.toNat := fun hk => hkelvin ⟨by omega, hc⟩
          rw [digitValue?_kelvinSign, if_neg hfew]
        · rw [digitValue?_eq hne, hrest c hc]
      refine .inr ⟨hkelvin, ?_⟩
      rw [readRun_of_run hbase hdigits hstop]
      cases digits with
      | nil => exact ⟨none, .noDigit hrest, rfl⟩
      | cons c digits =>
        exact ⟨_, .digits hbase rfl (List.cons_ne_nil c digits) (map_run hdigits) hrest,
          readDigits_eq hdigits⟩
  · refine .inr ⟨fun h => hbase ⟨by linarith [h.1], h.2.1⟩, none, .noBase (by omega), ?_⟩
    have hout : (decide (base < 2) || decide (36 < base)) = true := by
      rw [Bool.or_eq_true, decide_eq_true_eq, decide_eq_true_eq]
      omega
    rw [readRun, if_pos hout]
    rfl

/-! ## The start of a text -/

theorem parseIntText_cases (text : List Char) (radix : Option Int) :
    MeetsKelvin text radix ∧ parseIntText text radix = .error .notANumeral ∨
      ¬ MeetsKelvin text radix ∧ ∃ n, Reads text radix n ∧ parseIntText text radix = .ok n := by
  unfold MeetsKelvin Reads parseIntText
  obtain ⟨⟨negative, unsigned⟩, hsign⟩ : ∃ signed, Numeral.takeSign (Text.trim text) = signed :=
    ⟨_, rfl⟩
  simp only [hsign, parseDigits_eq]
  rcases readRun_cases (baseInEffect unsigned radix) (afterMark unsigned radix) with
    ⟨hmeets, hrun⟩ | ⟨hpass, size, hbegins, hrun⟩
  · exact .inl ⟨hmeets, by rw [hrun]; rfl⟩
  · refine .inr ⟨hpass, _, ⟨size, hbegins, rfl⟩, ?_⟩
    rw [hrun]
    cases negative <;> cases size <;> rfl

theorem Reads.unique {text : List Char} {n n' : Number} (h : Reads text radix n)
    (h' : Reads text radix n') : n = n' := by
  obtain ⟨size, hbegins, rfl⟩ := h
  obtain ⟨size', hbegins', rfl⟩ := h'
  rw [hbegins.unique hbegins']

theorem parseIntText_of_reads {text : List Char} {n : Number} (h : Reads text radix n)
    (hpass : ¬ MeetsKelvin text radix) : parseIntText text radix = .ok n := by
  rcases parseIntText_cases text radix with ⟨hmeets, -⟩ | ⟨-, n', hn', hok⟩
  · exact absurd hmeets hpass
  · rw [hok, hn'.unique h]

/-- The arguments after a text that say which base to read: none, null or an integer. -/
inductive GivesRadix : List Value → Option Int → Prop
  | absent : GivesRadix [] none
  | null : GivesRadix [.null] none
  | integer (id : Identity) (base : Int) : GivesRadix [.number id (.int base)] (some base)

end

end Builtin

namespace Library

open Builtin (GivesRadix MeetsKelvin Reads)

/-- Reading an integer yields the number that the text begins with, unless its digits come upon a
Kelvin sign. -/
theorem parseInt_reads_unless (s : String) {arguments : List Value} {radix : Option Int}
    (h : GivesRadix arguments radix) :
    MeetsKelvin s.toList radix ∧
        parseInt.apply (.text s :: arguments) = Eval.fail .notANumeral ∨
      ¬ MeetsKelvin s.toList radix ∧ ∃ n, Reads s.toList radix n ∧
        parseInt.apply (.text s :: arguments) = pure (.ofResult n) := by
  have hparse : parseInt.apply (.text s :: arguments) =
      (do return .ofResult (← Eval.ofExcept (Builtin.parseIntText s.toList radix))) := by
    cases h <;> rfl
  rw [hparse]
  rcases Builtin.parseIntText_cases s.toList radix with ⟨hmeets, hfails⟩ | ⟨hpass, n, hn, hok⟩
  · exact .inl ⟨hmeets, by rw [hfails]; rfl⟩
  · exact .inr ⟨hpass, n, hn, by rw [hok]; rfl⟩

/-- In base 36 the Kelvin sign is recognised as a digit, and then cannot be read. -/
theorem parseInt_reads_unless_kelvin :
    GivesRadix [.number 1 (.int 36)] (some 36) ∧ MeetsKelvin "\u212a".toList (some 36) ∧
      parseInt.apply [.text "\u212a", .number 1 (.int 36)] = Eval.fail .notANumeral := by
  have hradix : GivesRadix [.number 1 (.int 36)] (some 36) := .integer 1 36
  have hmeets : MeetsKelvin "\u212a".toList (some 36) := by
    refine ⟨by decide, by decide, [], [], ?_, nofun⟩
    decide +kernel
  refine ⟨hradix, hmeets, ?_⟩
  rcases parseInt_reads_unless "\u212a" hradix with ⟨-, hfails⟩ | ⟨hpass, -⟩
  · exact hfails
  · exact absurd hmeets hpass

end Library

end GatedExpr
