import GatedExpr.Grammar.PatternText
import GatedExpr.Proofs.Grammar.History
import GatedExpr.Proofs.Grammar.Literals

/-! # Kept matchers

Grammars keep the literals, patterns and references that they have made, each under a key, and hand
them out to whoever asks for the same again. A derived grammar takes over the literals and patterns
of its parent and has references of its own in place of those of its parent, and a parse may leave a
pattern behind. Whatever happened to the grammars that there are, they hand out what would be made
anew, and asking again changes nothing.
-/

namespace GatedExpr

/-! ## Keys -/

namespace Number

theorem toList_signed (n : Int) :
    (signed n).toList = if n < 0 then '-' :: Text.decimal n.natAbs else Text.decimal n.natAbs :=
  String.toList_ofList

theorem toString_eq_signed (n : Int) : toString n = signed n := by
  refine String.toList_inj.mp ?_
  rw [toList_signed]
  cases n with
  | ofNat n => exact String.toList_ofList
  | negSucc n => simp [toString, Int.repr, Nat.repr, Text.decimal]

/-- The texts of integers have no other characters than digits and a minus. -/
theorem not_mem_signed {c : Char} (hdigit : c.isDigit = false) (hminus : c ≠ '-') (n : Int) :
    c ∉ (signed n).toList := by
  have hdecimal : c ∉ Text.decimal n.natAbs := by
    intro hc
    cases hdigit.symm.trans (Token.isDigit_of_mem_decimal hc)
  rw [toList_signed]
  split
  · exact fun hc => (List.mem_cons.mp hc).elim hminus hdecimal
  · exact hdecimal

theorem signed_inj {m n : Int} (h : signed m = signed n) : m = n := by
  have hdecimal {m n : Nat} (h : Text.decimal m = Text.decimal n) : m = n := by
    rw [← Token.valueOfDigits_decimal m, h, Token.valueOfDigits_decimal]
  have hlist := congrArg String.toList h
  rw [toList_signed, toList_signed] at hlist
  have hminus (n : Nat) : '-' ∉ Text.decimal n :=
    fun hc => absurd (Token.isDigit_of_mem_decimal hc) (by decide)
  split_ifs at hlist with hm hn hn
  · have := hdecimal (List.cons_inj_right _ |>.mp hlist)
    omega
  · exact absurd (hlist ▸ List.mem_cons_self) (hminus _)
  · exact absurd (hlist ▸ List.mem_cons_self) (hminus _)
  · have := hdecimal hlist
    omega

end Number

namespace Pattern

theorem toList_key (pattern : Pattern) : pattern.key.toList =
    '/' :: pattern.text.toList ++ '/' :: (Number.signed pattern.flags).toList := by
  have hkey : pattern.key = "/" ++ pattern.text ++ "/" ++ toString pattern.flags := rfl
  rw [hkey, Number.toString_eq_signed]
  simp

/-- A text and what follows its last slash are told by the whole. -/
theorem append_slash_inj {before other after last : List Char} (hafter : '/' ∉ after)
    (hlast : '/' ∉ last) (h : before ++ '/' :: after = other ++ '/' :: last) :
    before = other ∧ after = last := by
  rcases List.append_eq_append_iff.mp h with ⟨more, rfl, hmore⟩ | ⟨more, rfl, hmore⟩
  all_goals
    cases more with
    | nil => simp_all
    | cons c more =>
      obtain ⟨-, rfl⟩ := List.cons_eq_cons.mp hmore
      simp at hafter hlast

/-- There is no slash in the flags, so that the last one of a key is the one before them. -/
theorem key_eq_iff {p q : Pattern} : p.key = q.key ↔ p.text = q.text ∧ p.flags = q.flags := by
  constructor
  · intro h
    have hlist := congrArg String.toList h
    rw [toList_key, toList_key] at hlist
    obtain ⟨htext, hflags⟩ := append_slash_inj (Number.not_mem_signed rfl (by decide) _)
      (Number.not_mem_signed rfl (by decide) _) hlist
    exact ⟨String.toList_inj.mp ((List.cons_inj_right _).mp htext),
      Number.signed_inj (String.toList_inj.mp hflags)⟩
  · rintro ⟨htext, hflags⟩
    simp only [key, htext, hflags]

end Pattern

/-! ## Asking one grammar -/

/-- The matchers that grammars keep. -/
inductive Elementary where
  | literal (text : String)
  | pattern (text : String) (flags : Int)
  | reference (kind : String)
  deriving DecidableEq

/-- How the text of a pattern is read under its flags, if it is one. -/
abbrev Reading := String → Int → Option Regex

/-- Blanks are read as the pattern of them that parsing uses. -/
def Reading.ReadsBlanks (reading : Reading) : Prop :=
  reading Pattern.blanks.text Pattern.blanks.flags = some Pattern.blanks.regex

/-- The matcher that a grammar makes anew. -/
def Elementary.make (reading : Reading) (id : GrammarId) : Elementary → Option Matcher
  | .literal text => some (.literal text)
  | .pattern text flags => (reading text flags).map fun regex => .pattern { text, flags, regex }
  | .reference kind => some (.reference id kind)

namespace Grammar

/-- What a grammar answers when it is asked for a matcher, and what becomes of it. -/
def ask (reading : Reading) (grammar : Grammar) : Elementary → Option (Matcher × Grammar)
  | .literal text => some (grammar.literal text)
  | .pattern text flags =>
    (reading text flags).map fun regex => grammar.pattern { text, flags, regex }
  | .reference kind => some (grammar.reference kind)

/-- The matcher that a grammar has kept. -/
def kept? (grammar : Grammar) : Elementary → Option Matcher
  | .literal text => grammar.literals.lookup text
  | .pattern text flags => grammar.patterns.lookup (Pattern.key { text, flags, regex := .empty })
  | .reference kind => grammar.references.lookup kind

/-- All that a grammar has kept is what it would make anew. -/
def Faithful (reading : Reading) (grammar : Grammar) : Prop :=
  ∀ wanted matcher, grammar.kept? wanted = some matcher →
    wanted.make reading grammar.id = some matcher

variable {reading : Reading} {grammar asked : Grammar} {wanted other : Elementary}
  {matcher fresh : Matcher} {entries : List (String × Matcher)} {key name : String}

theorem keep_of_lookup (h : entries.lookup key = some matcher) :
    keep entries key fresh = (matcher, entries) := by
  rw [keep, h]

theorem fst_keep : (keep entries key fresh).1 = (entries.lookup key).getD fresh := by
  rw [keep]
  split <;> next h => rw [h]; rfl

theorem lookup_keep : (keep entries key fresh).2.lookup name =
    (entries.lookup name).or (if name = key then some fresh else none) := by
  rw [keep]
  split
  · next h =>
    by_cases hname : name = key
    · rw [hname, h, Option.some_or]
    · rw [if_neg hname, Option.or_none]
  · next h =>
    rw [List.lookup_append]
    by_cases hname : name = key <;> simp [hname, List.lookup_cons, beq_false_of_ne]

/-- A grammar answers with what it has kept, or else with a new matcher, which it then keeps. -/
theorem ask_of_make (h : wanted.make reading grammar.id = some fresh) :
    ∃ asked, grammar.ask reading wanted = some ((grammar.kept? wanted).getD fresh, asked) ∧
      asked.id = grammar.id ∧ ∀ other, asked.kept? other =
        (grammar.kept? other).or (if other = wanted then some fresh else none) := by
  cases wanted with
  | literal text =>
    cases h
    refine ⟨(grammar.literal text).2, ?_, rfl, fun other => ?_⟩
    · rw [kept?, ← fst_keep]
      rfl
    · cases other with
      | literal name =>
        simp only [Elementary.literal.injEq]
        exact lookup_keep
      | pattern | reference => simp [kept?, literal]
  | pattern text flags =>
    obtain ⟨regex, hregex, rfl⟩ := Option.map_eq_some_iff.mp h
    refine ⟨(grammar.pattern { text, flags, regex }).2, ?_, rfl, fun other => ?_⟩
    · rw [ask, hregex, kept?, ← fst_keep]
      rfl
    · cases other with
      | pattern name others =>
        have hkey := Pattern.key_eq_iff (p := { text := name, flags := others, regex := .empty })
          (q := { text, flags, regex })
        simp only [Elementary.pattern.injEq, ← hkey]
        exact lookup_keep
      | literal | reference => simp [kept?, pattern]
  | reference kind =>
    cases h
    refine ⟨(grammar.reference kind).2, ?_, rfl, fun other => ?_⟩
    · rw [kept?, ← fst_keep]
      rfl
    · cases other with
      | reference name =>
        simp only [Elementary.reference.injEq]
        exact lookup_keep
      | pattern | literal => simp [kept?, reference]

theorem exists_make (h : grammar.ask reading wanted = some (matcher, asked)) :
    ∃ fresh, wanted.make reading grammar.id = some fresh := by
  cases wanted with
  | literal | reference => exact ⟨_, rfl⟩
  | pattern text flags =>
    obtain ⟨regex, hregex, -⟩ := Option.map_eq_some_iff.mp h
    rw [Elementary.make, hregex]
    exact ⟨_, rfl⟩

/-- A grammar that has kept a matcher stays as it is. -/
theorem ask_of_kept (h : grammar.kept? wanted = some matcher)
    (hmake : wanted.make reading grammar.id = some fresh) :
    grammar.ask reading wanted = some (matcher, grammar) := by
  cases wanted with
  | literal text => rw [ask, literal, keep_of_lookup h]
  | pattern text flags =>
    obtain ⟨regex, hregex, rfl⟩ := Option.map_eq_some_iff.mp hmake
    have hkept : keep grammar.patterns (Pattern.key { text, flags, regex })
        (.pattern { text, flags, regex }) = (matcher, grammar.patterns) := keep_of_lookup h
    rw [ask, hregex, Option.map_some, pattern, hkept]
  | reference kind => rw [ask, reference, keep_of_lookup h]

namespace Faithful

theorem empty (id : GrammarId) : (Grammar.empty id).Faithful reading := by
  intro wanted matcher h
  cases wanted <;> cases h

/-- Only what is kept matters, and which grammar keeps it. -/
theorem of_eq (h : grammar.Faithful reading) (hid : asked.id = grammar.id)
    (hkept : ∀ wanted, asked.kept? wanted = grammar.kept? wanted) : asked.Faithful reading := by
  intro wanted matcher hfound
  rw [hid]
  exact h wanted matcher (hkept wanted ▸ hfound)

/-- A grammar that has kept what it would make answers as if it had kept nothing. -/
theorem ask_eq (h : grammar.Faithful reading)
    (hmake : wanted.make reading grammar.id = some fresh) :
    ∃ asked, grammar.ask reading wanted = some (fresh, asked) ∧ asked.id = grammar.id ∧
      asked.Faithful reading ∧ asked.kept? wanted = some fresh ∧
      ∀ other matcher, grammar.kept? other = some matcher → asked.kept? other = some matcher := by
  obtain ⟨asked, hask, hid, hkept⟩ := ask_of_make hmake
  have hanswer : (grammar.kept? wanted).getD fresh = fresh := by
    cases hk : grammar.kept? wanted with
    | none => rfl
    | some matcher => exact Option.some_inj.mp ((h _ _ hk).symm.trans hmake)
  refine ⟨asked, hanswer ▸ hask, hid, fun other matcher hfound => ?_, ?_,
    fun other matcher hk => ?_⟩
  · rw [hkept, Option.or_eq_some_iff] at hfound
    rw [hid]
    rcases hfound with hold | ⟨-, hnew⟩
    · exact h other matcher hold
    · split_ifs at hnew with hsame
      exact hsame ▸ hmake.trans hnew
  · rw [hkept, if_pos rfl, Option.or_some, hanswer]
  · rw [hkept, hk, Option.some_or]

theorem ask (h : grammar.Faithful reading)
    (hask : grammar.ask reading wanted = some (matcher, asked)) : asked.Faithful reading := by
  obtain ⟨fresh, hmake⟩ := exists_make hask
  obtain ⟨_, hasked, -, hf, -⟩ := h.ask_eq hmake
  cases hask.symm.trans hasked
  exact hf

/-- A derived grammar makes the references of its parent anew. -/
theorem derive (h : grammar.Faithful reading) (id : GrammarId) :
    (Grammar.derive id grammar).Faithful reading := by
  -- The child begins without references and is asked for those of its parent one by one.
  have hfold : ∀ (entries : List (String × Matcher)) (child : Grammar), child.Faithful reading →
      (entries.foldl (fun child entry => (child.reference entry.1).2) child).Faithful reading := by
    intro entries
    induction entries with
    | nil => exact fun _ hchild => hchild
    | cons entry entries ih =>
      intro child hchild
      have hask : child.ask reading (.reference entry.1) = some (child.reference entry.1) := rfl
      exact ih _ (hchild.ask hask)
  refine hfold _ _ fun wanted matcher hk => ?_
  cases wanted with
  | literal text => exact h (.literal text) matcher hk
  | pattern text flags => exact h (.pattern text flags) matcher hk
  | reference kind => cases hk

end Faithful

end Grammar

/-! ## What happens to families -/

/-- What can be done with the grammars that there are. A clone is a derived grammar. -/
inductive Operation where
  | new
  | derive (parent : GrammarId)
  | register (id : GrammarId) (descriptor : Descriptor)
  | ask (id : GrammarId) (wanted : Elementary)
  | parse (id : GrammarId) (source : List Char) (kind : String)

namespace Family

/-- The grammars after an operation. What cannot be done leaves them as they are. -/
def perform (reading : Reading) (family : Family) : Operation → Family
  | .new => (family.add Grammar.empty).2
  | .derive parent => ((family.get? parent).map family.derived).getD family
  | .register id descriptor => family.edit id (.register descriptor)
  | .ask id wanted =>
    (((family.get? id).bind (·.ask reading wanted)).map
      fun answer => family.set answer.2).getD family
  | .parse id source kind => (family.parseKeeping id source kind).2

/-- The grammars that there are after some operations, of which the last ones come last. -/
def after (reading : Reading) (operations : List Operation) : Family :=
  operations.foldl (perform reading) { grammars := [] }

/-- All that the grammars have kept is what they would make anew. -/
def Faithful (reading : Reading) (family : Family) : Prop :=
  ∀ ⦃id grammar⦄, family.get? id = some grammar → grammar.id = id ∧ grammar.Faithful reading

/-- The grammars are still there, faithful, and have lost nothing that they had kept. -/
structure Continues (reading : Reading) (family now : Family) : Prop where
  faithful : now.Faithful reading
  kept : ∀ ⦃id grammar⦄, family.get? id = some grammar → ∃ later, now.get? id = some later ∧
    ∀ wanted matcher, grammar.kept? wanted = some matcher → later.kept? wanted = some matcher

variable {reading : Reading} {family now last : Family} {id : GrammarId}
  {grammar changed : Grammar}

namespace Continues

theorem refl (h : family.Faithful reading) : Continues reading family family :=
  ⟨h, fun _ grammar hg => ⟨grammar, hg, fun _ _ hk => hk⟩⟩

theorem trans (h : Continues reading family now) (h' : Continues reading now last) :
    Continues reading family last where
  faithful := h'.faithful
  kept id grammar hg := by
    obtain ⟨later, hlater, hkept⟩ := h.kept hg
    obtain ⟨final, hfinal, hkept'⟩ := h'.kept hlater
    exact ⟨final, hfinal, fun wanted matcher hk => hkept' _ _ (hkept _ _ hk)⟩

theorem add (h : family.Faithful reading) {build : GrammarId → Grammar}
    (hid : (build family.grammars.length).id = family.grammars.length)
    (hf : (build family.grammars.length).Faithful reading) :
    Continues reading family (family.add build).2 where
  faithful id grammar hg := by
    rw [get?_add] at hg
    split at hg
    · next he =>
      cases hg
      exact he ▸ ⟨hid, hf⟩
    · exact h hg
  kept id grammar hg := by
    refine ⟨grammar, ?_, fun _ _ hk => hk⟩
    rw [get?_add, if_neg (Nat.ne_of_lt (lt_of_get? hg)), hg]

theorem set (h : family.Faithful reading) (hg : family.get? id = some grammar)
    (hid : changed.id = grammar.id) (hf : changed.Faithful reading)
    (hkept : ∀ wanted matcher, grammar.kept? wanted = some matcher →
      changed.kept? wanted = some matcher) : Continues reading family (family.set changed) := by
  have hplace : changed.id = id := hid.trans (h hg).1
  have hget := get?_set (hplace ▸ lt_of_get? hg : changed.id < family.grammars.length)
  refine ⟨fun other found hfound => ?_, fun other found hfound => ?_⟩
  · rw [hget] at hfound
    split at hfound
    · next he =>
      cases hfound
      exact ⟨he.symm, hf⟩
    · exact h hfound
  · rw [hget]
    split
    · next he =>
      obtain rfl : other = id := he.trans hplace
      cases hg.symm.trans hfound
      exact ⟨changed, rfl, hkept⟩
    · exact ⟨found, hfound, fun _ _ hk => hk⟩

theorem ask (h : family.Faithful reading) (hg : family.get? id = some grammar)
    {wanted : Elementary} {matcher : Matcher}
    (hask : grammar.ask reading wanted = some (matcher, changed)) :
    Continues reading family (family.set changed) := by
  obtain ⟨fresh, hmake⟩ := Grammar.exists_make hask
  obtain ⟨_, hasked, hid, hf, -, hkept⟩ := (h hg).2.ask_eq hmake
  cases hask.symm.trans hasked
  exact set h hg hid hf hkept

/-- What has been kept stays so whatever is done next, and what is kept in addition is faithful. -/
theorem perform (hblanks : reading.ReadsBlanks) (h : family.Faithful reading)
    (operation : Operation) :
    Continues reading family (family.perform reading operation) := by
  cases operation with
  | new => exact add h rfl (.empty _)
  | derive parent =>
    rw [Family.perform]
    cases hg : family.get? parent with
    | none => exact refl h
    | some grammar => exact add h (Grammar.derive_eq _ _).1 ((h hg).2.derive _)
  | register id descriptor =>
    rw [Family.perform, Family.edit]
    split
    · next grammar hg =>
      have hkept : ∀ wanted, (grammar.register descriptor).kept? wanted = grammar.kept? wanted :=
        fun wanted => by cases wanted <;> rfl
      exact set h hg rfl ((h hg).2.of_eq rfl hkept) fun wanted _ hk => (hkept wanted).trans hk
    · exact refl h
  | ask id wanted =>
    rw [Family.perform]
    cases hg : family.get? id with
    | none => exact refl h
    | some grammar =>
      rw [Option.bind_some]
      cases hask : grammar.ask reading wanted with
      | none => exact refl h
      | some answer => exact ask h hg hask
  | parse id source kind =>
    -- A parse whose rule matches asks for blanks, and nothing else is asked for.
    rw [Family.perform, parseKeeping]
    split
    · exact refl h
    · next grammar hg =>
      split
      · exact refl h
      · split
        · exact refl h
        · exact refl h
        · exact refl h
        · have hask : grammar.ask reading (.pattern Pattern.blanks.text Pattern.blanks.flags) =
              some (grammar.pattern .blanks) := by
            rw [Grammar.ask, show reading _ _ = _ from hblanks]
            rfl
          exact ask h hg hask

theorem performAll (hblanks : reading.ReadsBlanks) (h : family.Faithful reading)
    (operations : List Operation) :
    Continues reading family (operations.foldl (Family.perform reading) family) := by
  induction operations generalizing family with
  | nil => exact refl h
  | cons operation operations ih =>
    have hnext := perform hblanks h operation
    exact hnext.trans (ih hnext.faithful)

end Continues

theorem faithful_after (hblanks : reading.ReadsBlanks) (operations : List Operation) :
    (after reading operations).Faithful reading :=
  (Continues.performAll hblanks (fun _ _ hg => by simp [get?] at hg) operations).faithful

/-- The keys of patterns differ whenever their texts or their flags do. Whatever was done with the
grammars that there are, a grammar that is asked for a matcher answers with the one that it would
make anew, also if it has kept one or taken one over; and when it is asked for the same again,
whatever was done in between, it answers with the same and stays as it is. -/
theorem ask_yields_anew (hblanks : reading.ReadsBlanks) (operations : List Operation) :
    (∀ p q : Pattern, p.key = q.key ↔ p.text = q.text ∧ p.flags = q.flags) ∧
      ∀ id grammar, (after reading operations).get? id = some grammar → ∀ wanted,
        (grammar.ask reading wanted).map (·.1) = wanted.make reading id ∧
        ∀ matcher, wanted.make reading id = some matcher → ∀ later, ∃ now,
          (after reading (operations ++ .ask id wanted :: later)).get? id = some now ∧
            now.ask reading wanted = some (matcher, now) := by
  refine ⟨fun p q => Pattern.key_eq_iff, fun id grammar hg wanted => ?_⟩
  have hbefore := faithful_after hblanks operations
  obtain ⟨hid, hf⟩ := hbefore hg
  cases hmake : wanted.make reading id with
  | none =>
    refine ⟨?_, nofun⟩
    cases hask : grammar.ask reading wanted with
    | none => rfl
    | some answer =>
      obtain ⟨fresh, hmake'⟩ := Grammar.exists_make hask
      cases hmake.symm.trans (hid ▸ hmake')
  | some fresh =>
    obtain ⟨asked, hask, hid', -, hkept, -⟩ := hf.ask_eq (hid ▸ hmake)
    refine ⟨by rw [hask]; rfl, fun matcher hm later => ?_⟩
    cases hm
    have hplace : asked.id = id := hid'.trans hid
    have hnext := Continues.ask hbefore hg hask
    have hget : ((after reading operations).set asked).get? id = some asked := by
      rw [get?_set (hplace ▸ lt_of_get? hg), if_pos hplace.symm]
    have hset : (after reading operations).perform reading (.ask id wanted) =
        (after reading operations).set asked := by
      rw [perform, hg, Option.bind_some, hask]
      rfl
    have hlast := Continues.performAll hblanks hnext.faithful later
    obtain ⟨now, hnow, hkeeps⟩ := hlast.kept hget
    refine ⟨now, ?_, Grammar.ask_of_kept (hkeeps _ _ hkept) ((hlast.faithful hnow).1 ▸ hmake)⟩
    rw [after, List.foldl_append, List.foldl_cons, ← after, hset, hnow]

/-- A derived grammar makes a reference of its own, and tells a pattern from the one that its parent
had kept for other flags. -/
theorem ask_yields_anew_derived :
    let reading : Reading := fun text flags => (Pattern.ofText? text flags).map (·.regex)
    let operations : List Operation :=
      [.new, .ask 0 (.reference "A"), .ask 0 (.pattern "a" 2), .derive 0]
    reading.ReadsBlanks ∧ ∃ grammar, (after reading operations).get? 1 = some grammar ∧
      (grammar.ask reading (.reference "A")).map (·.1) = some (.reference 1 "A") ∧
      (grammar.ask reading (.pattern "a" 0)).map (·.1) =
        some (.pattern { text := "a", flags := 0, regex := .char 'a' }) := by
  intro reading operations
  have hblanks : reading.ReadsBlanks := rfl
  obtain ⟨grammar, hg⟩ : ∃ grammar, (after reading operations).get? 1 = some grammar := ⟨_, rfl⟩
  obtain ⟨-, hask⟩ := ask_yields_anew hblanks operations
  exact ⟨hblanks, grammar, hg, (hask 1 grammar hg (.reference "A")).1,
    (hask 1 grammar hg (.pattern "a" 0)).1⟩

end Family

end GatedExpr
