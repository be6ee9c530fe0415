import Armadito.Conf.Lex
import Armadito.Conf.Load
import Armadito.Conf.Save

/-!
# Conf.RoundTrip

What is saved can be loaded. The text of a configuration has the tokens one
expects, these are a configuration of the grammar, and its definitions,
added one by one, make the same sections again.
-/

namespace Armadito.Conf

/-! ## What can be saved -/

/-- A string that may stand between quotes. -/
def IsText (s : CString) : Prop := '"' ∉ s ∧ NoNul s

instance (s : CString) : Decidable (IsText s) :=
  inferInstanceAs (Decidable (_ ∉ s ∧ _ ∉ s))

/-- A list of one string would be read as a string. -/
def SaveableValue : A6oConfValue → Prop
  | .void => False
  | .int n => 0 ≤ n ∧ n < 2 ^ 31
  | .string s => IsText s
  | .list values => 2 ≤ values.length ∧ ∀ v ∈ values, IsText v

instance : DecidablePred SaveableValue
  | .void => inferInstanceAs (Decidable False)
  | .int n => inferInstanceAs (Decidable (0 ≤ n ∧ n < 2 ^ 31))
  | .string s => inferInstanceAs (Decidable (IsText s))
  | .list values => inferInstanceAs (Decidable (2 ≤ values.length ∧ ∀ v ∈ values, IsText v))

/-- An entry that reads back as it is written: its key is one identifier. -/
structure SaveableKey (k : KeyEntry) : Prop where
  key : isName k.key = true
  value : SaveableValue k.value

instance (k : KeyEntry) : Decidable (SaveableKey k) :=
  decidable_of_iff (isName k.key = true ∧ SaveableValue k.value)
    ⟨fun h => ⟨h.1, h.2⟩, fun h => ⟨h.key, h.value⟩⟩

/-- The names are identifiers, the values are saveable. -/
structure SaveableSection (s : SectionEntry) : Prop where
  sect : isName s.sect = true
  keys : ∀ k ∈ s.keys, SaveableKey k

instance (s : SectionEntry) : Decidable (SaveableSection s) :=
  decidable_of_iff (isName s.sect = true ∧ ∀ k ∈ s.keys, SaveableKey k)
    ⟨fun h => ⟨h.1, h.2⟩, fun h => ⟨h.sect, h.keys⟩⟩

/-- A store whose text reads back as the store. -/
def Saveable (conf : A6oConf) : Prop := ∀ s ∈ conf.sections, SaveableSection s

instance (conf : A6oConf) : Decidable (Saveable conf) :=
  inferInstanceAs (Decidable (∀ s ∈ conf.sections, SaveableSection s))

theorem noNul_of_isName {name : CString} (h : isName name = true) : NoNul name := by
  cases name with
  | nil => cases h
  | cons c cs =>
    rw [isName, Bool.and_eq_true, List.all_eq_true] at h
    intro hmem
    rcases List.mem_cons.mp hmem with heq | hmem
    · rw [← heq] at h
      exact absurd h.1 (by decide)
    · exact absurd (h.2 _ hmem) (by decide)

theorem SaveableValue.wellFormed {v : A6oConfValue} (h : SaveableValue v) : v.WellFormed := by
  cases v with
  | void => exact h.elim
  | int n =>
    obtain ⟨hlow, hhigh⟩ := h
    constructor <;> omega
  | string s => exact h.2
  | list values => exact fun v hv => (h.2 v hv).2

/-! ## The tokens of the text -/

/-- The tokens of `saveMore`. -/
def moreTokens (values : List CString) : List Token :=
  values.flatMap fun v => [⟨.semiColon, [';']⟩, ⟨.string, v⟩]

/-- The tokens of `saveValue`. -/
def valueTokens : A6oConfValue → List Token
  | .void => []
  | .int n => [⟨.integer, printInt n⟩]
  | .string s => [⟨.string, s⟩]
  | .list [] => []
  | .list (v :: values) => ⟨.string, v⟩ :: moreTokens values

/-- The tokens of `keyLine`. -/
def keyTokens (k : KeyEntry) : List Token :=
  ⟨.string, k.key⟩ :: ⟨.equalSign, ['=']⟩ :: valueTokens k.value

/-- The tokens of `sectionLine`. -/
def headTokens (sect : CString) : List Token :=
  [⟨.leftBrace, ['[']⟩, ⟨.string, sect⟩, ⟨.rightBrace, [']']⟩]

/-- The tokens of `sectionText`. -/
def sectionTokens (s : SectionEntry) : List Token :=
  headTokens s.sect ++ s.keys.flatMap keyTokens

/-- Whole lines, read anywhere but behind an equal sign. -/
def LexesLines (input : List Char) (ts : List Token) : Prop :=
  ∀ (prev : TokenType) (rest : List Char), prev ≠ .equalSign →
    ∃ last, last ≠ .equalSign ∧ Lexes prev (input ++ rest) ts last rest

theorem LexesLines.append {i j : List Char} {ts ts' : List Token} (h : LexesLines i ts)
    (h' : LexesLines j ts') : LexesLines (i ++ j) (ts ++ ts') := by
  intro prev rest hprev
  rw [List.append_assoc]
  obtain ⟨mid, hmid, hlex⟩ := h prev (j ++ rest) hprev
  obtain ⟨last, hlast, hlex'⟩ := h' mid rest hmid
  exact ⟨last, hlast, hlex.trans hlex'⟩

theorem LexesLines.flatMap {α : Type} {xs : List α} {f : α → List Char} {g : α → List Token}
    (h : ∀ x ∈ xs, LexesLines (f x) (g x)) : LexesLines (xs.flatMap f) (xs.flatMap g) := by
  induction xs with
  | nil => exact fun prev _ hprev => ⟨prev, hprev, rfl⟩
  | cons x xs ih =>
    rw [List.flatMap_cons, List.flatMap_cons]
    exact (h x List.mem_cons_self).append (ih fun y hy => h y (List.mem_cons_of_mem x hy))

theorem LexesLines.tokens_eq {input : List Char} {ts : List Token} (h : LexesLines input ts) :
    tokens .none input = ts ++ [⟨.eof, []⟩] := by
  obtain ⟨last, -, hlex⟩ := h .none [] (by decide)
  rw [Lexes, List.append_nil, tokens_nil] at hlex
  exact hlex

theorem lexes_saveMore {values : List CString} (h : ∀ v ∈ values, IsText v)
    (rest : List Char) :
    Lexes .string (saveMore values ++ rest) (moreTokens values) .string rest := by
  induction values with
  | nil => rfl
  | cons v values ih =>
    have hsep : Lexes .string (';' :: ' ' :: '"' :: v ++ '"' :: (saveMore values ++ rest))
        [⟨.semiColon, [';']⟩] .semiColon (' ' :: '"' :: v ++ '"' :: (saveMore values ++ rest)) :=
      .punctuation (by decide) rfl _
    have hstr : Lexes .semiColon (' ' :: '"' :: v ++ '"' :: (saveMore values ++ rest))
        [⟨.string, v⟩] .string (saveMore values ++ rest) :=
      (Lexes.string (h v List.mem_cons_self).1 _).space rfl
    have hmore := ih fun w hw => h w (List.mem_cons_of_mem v hw)
    have htext : saveMore (v :: values) ++ rest =
        ';' :: ' ' :: '"' :: v ++ '"' :: (saveMore values ++ rest) := by
      simp [saveMore, quoted]
    rw [htext]
    exact hsep.trans (hstr.trans hmore)

/-- The digits of a number. -/
theorem lexes_printInt {n : Int} (h : 0 ≤ n) (rest : List Char) :
    Lexes .equalSign (' ' :: printInt n ++ '\n' :: rest) [⟨.integer, printInt n⟩] .integer
      ('\n' :: rest) := by
  obtain ⟨m, rfl⟩ := Int.eq_ofNat_of_zero_le h
  have hdigits : ∀ c ∈ Nat.toDigits 10 m, c.isDigit = true := by
    intro c hc
    exact Nat.isDigit_of_mem_toDigits (by decide) (by decide) hc
  have hne : Nat.toDigits 10 m ≠ [] := Nat.toDigits_ne_nil
  obtain ⟨c, cs, hcons⟩ := List.exists_cons_of_ne_nil hne
  have hlex : Lexes .equalSign (Nat.toDigits 10 m ++ '\n' :: rest)
      [⟨.integer, Nat.toDigits 10 m⟩] .integer ('\n' :: rest) :=
    Lexes.integer hne hdigits rfl rest
  have hc : isSpace c = false :=
    digit_not_space (hdigits c (by rw [hcons]; exact List.mem_cons_self))
  show Lexes _ (' ' :: (Nat.toDigits 10 m ++ '\n' :: rest)) [⟨_, Nat.toDigits 10 m⟩] _ _
  rw [hcons] at hlex ⊢
  exact hlex.space hc

theorem lexes_saveValue {v : A6oConfValue} (h : SaveableValue v) (rest : List Char) :
    ∃ last, last ≠ .equalSign ∧
      Lexes .equalSign (saveValue v ++ '\n' :: rest) (valueTokens v) last ('\n' :: rest) := by
  cases v with
  | void => exact h.elim
  | int n => exact ⟨.integer, by decide, lexes_printInt h.1 rest⟩
  | string s =>
    refine ⟨.string, by decide, ?_⟩
    have hlex : Lexes .equalSign (' ' :: '"' :: s ++ '"' :: '\n' :: rest) [⟨.string, s⟩]
        .string ('\n' :: rest) :=
      (Lexes.string h.1 _).space rfl
    simpa [saveValue, quoted, valueTokens] using hlex
  | list values =>
    cases values with
    | nil => exact absurd h.1 (by decide)
    | cons v values =>
      refine ⟨.string, by decide, ?_⟩
      have hfirst : Lexes .equalSign (' ' :: '"' :: v ++ '"' :: (saveMore values ++ '\n' :: rest))
          [⟨.string, v⟩] .string (saveMore values ++ '\n' :: rest) :=
        (Lexes.string (h.2 v List.mem_cons_self).1 _).space rfl
      have hmore := lexes_saveMore (fun w hw => h.2 w (List.mem_cons_of_mem v hw))
        ('\n' :: rest)
      have htext : saveValue (.list (v :: values)) ++ '\n' :: rest =
          ' ' :: '"' :: v ++ '"' :: (saveMore values ++ '\n' :: rest) := by
        simp [saveValue, quoted]
      rw [htext]
      exact hfirst.trans hmore

theorem lexesLines_keyLine {k : KeyEntry} (h : SaveableKey k) :
    LexesLines (keyLine k) (keyTokens k) := by
  intro prev rest _
  have hname : Lexes prev (k.key ++ ' ' :: '=' :: (saveValue k.value ++ '\n' :: rest))
      [⟨.string, k.key⟩] .string (' ' :: '=' :: (saveValue k.value ++ '\n' :: rest)) :=
    .identifier h.key rfl _
  have heq : Lexes .string (' ' :: '=' :: (saveValue k.value ++ '\n' :: rest))
      [⟨.equalSign, ['=']⟩] .equalSign (saveValue k.value ++ '\n' :: rest) :=
    (Lexes.punctuation (by decide) rfl _).space rfl
  obtain ⟨last, hlast, hvalue⟩ := lexes_saveValue h.value rest
  have hline := Lexes.newline hlast rest
  have htext : keyLine k ++ rest =
      k.key ++ ' ' :: '=' :: (saveValue k.value ++ '\n' :: rest) := by
    simp [keyLine]
  refine ⟨last, hlast, ?_⟩
  rw [htext]
  simpa [keyTokens] using hname.trans (heq.trans (hvalue.trans hline))

theorem lexesLines_sectionLine {sect : CString} (h : isName sect = true) :
    LexesLines (sectionLine sect) (headTokens sect) := by
  intro prev rest hprev
  have hline := Lexes.newline hprev ('[' :: (sect ++ ']' :: '\n' :: '\n' :: rest))
  have hleft : Lexes prev ('[' :: (sect ++ ']' :: '\n' :: '\n' :: rest))
      [⟨.leftBrace, ['[']⟩] .leftBrace (sect ++ ']' :: '\n' :: '\n' :: rest) :=
    .punctuation hprev rfl _
  have hname : Lexes .leftBrace (sect ++ ']' :: '\n' :: '\n' :: rest)
      [⟨.string, sect⟩] .string (']' :: '\n' :: '\n' :: rest) := .identifier h rfl _
  have hright : Lexes .string (']' :: '\n' :: '\n' :: rest)
      [⟨.rightBrace, [']']⟩] .rightBrace ('\n' :: '\n' :: rest) :=
    .punctuation (by decide) rfl _
  have hlines : Lexes .rightBrace ('\n' :: '\n' :: rest) [] .rightBrace rest :=
    (Lexes.newline (by decide) _).trans (Lexes.newline (by decide) _)
  have htext : sectionLine sect ++ rest =
      '\n' :: '[' :: (sect ++ ']' :: '\n' :: '\n' :: rest) := by
    simp [sectionLine]
  refine ⟨.rightBrace, by decide, ?_⟩
  rw [htext]
  exact hline.trans (hleft.trans (hname.trans (hright.trans hlines)))

/-- The tokens of what is written for the sections. -/
theorem tokens_sectionText {sections : List SectionEntry}
    (h : ∀ s ∈ sections, SaveableSection s) :
    tokens .none (sections.flatMap sectionText) =
      sections.flatMap sectionTokens ++ [⟨.eof, []⟩] := by
  apply LexesLines.tokens_eq
  apply LexesLines.flatMap
  intro s hs
  exact (lexesLines_sectionLine (h s hs).sect).append
    (LexesLines.flatMap fun k hk => lexesLines_keyLine ((h s hs).keys k hk))

/-! ## The derivation -/

theorem optStringList_moreTokens {values : List CString} (h : ∀ v ∈ values, IsText v) :
    OptStringList (moreTokens values) values := by
  induction values with
  | nil => exact .empty
  | cons v values ih =>
    have hcons : OptStringList (moreTokens (v :: values)) (osStrdup v :: values) :=
      .cons (.inr rfl) rfl (ih fun w hw => h w (List.mem_cons_of_mem v hw))
    rw [osStrdup_of_noNul (h v List.mem_cons_self).2] at hcons
    exact hcons

/-- The digits that are printed are read back. -/
theorem atoi_printInt {n : Int} (hlow : 0 ≤ n) (hhigh : n < 2 ^ 31) :
    atoi (osStrdup (printInt n)) = n := by
  obtain ⟨m, rfl⟩ := Int.eq_ofNat_of_zero_le hlow
  have hnul : NoNul (Nat.toDigits 10 m) := by
    intro hmem
    have := Nat.isDigit_of_mem_toDigits (by decide) (by decide) hmem
    exact absurd this (by decide)
  show atoi (osStrdup (Nat.toDigits 10 m)) = m
  rw [osStrdup_of_noNul hnul, atoi, Nat.ofDigitChars_ten_toDigits,
    Int.min_eq_left (by omega)]
  exact toInt32_of_isInt32 ⟨by omega, hhigh⟩

theorem value_valueTokens {v : A6oConfValue} (h : SaveableValue v) :
    Value (valueTokens v) v := by
  cases v with
  | void => exact h.elim
  | int n =>
    have hint := Value.int (t := ⟨.integer, printInt n⟩) rfl
    rw [atoi_printInt h.1 h.2] at hint
    exact hint
  | string s =>
    have hstr := Value.strings (t := ⟨.string, s⟩) rfl .empty
    rw [osStrdup_of_noNul h.2] at hstr
    exact hstr
  | list values =>
    match values, h with
    | [], h => exact absurd h.1 (by decide)
    | [v], h => exact absurd h.1 (by simp)
    | v :: w :: values, h =>
      have hlist := Value.strings (t := ⟨.string, v⟩) rfl
        (optStringList_moreTokens fun u hu => h.2 u (List.mem_cons_of_mem v hu))
      rw [osStrdup_of_noNul (h.2 v List.mem_cons_self).2] at hlist
      exact hlist

/-- The definition that an entry is written as. -/
def keyDefinition (sect : CString) (k : KeyEntry) : ConfDefinition := ⟨sect, k.key, k.value⟩

/-- The definitions of a configuration, in order. -/
def definitions (sections : List SectionEntry) : List ConfDefinition :=
  sections.flatMap fun s => s.keys.map (keyDefinition s.sect)

theorem definitionList_keyTokens (sect : CString) {keys : List KeyEntry}
    (h : ∀ k ∈ keys, SaveableKey k) :
    DefinitionList sect (keys.flatMap keyTokens) (keys.map (keyDefinition sect)) := by
  induction keys with
  | nil => exact .empty
  | cons k keys ih =>
    have hk := h k List.mem_cons_self
    have hdef : DefinitionRule sect (keyTokens k) ⟨sect, osStrdup k.key, k.value⟩ :=
      .mk rfl rfl (value_valueTokens hk.value)
    rw [osStrdup_of_noNul (noNul_of_isName hk.key)] at hdef
    rw [List.flatMap_cons, List.map_cons]
    exact .cons hdef (ih fun e he => h e (List.mem_cons_of_mem k he))

theorem sectionList_sectionTokens {sections : List SectionEntry}
    (h : ∀ s ∈ sections, SaveableSection s) :
    SectionList (sections.flatMap sectionTokens) (definitions sections) := by
  induction sections with
  | nil => exact .empty
  | cons s sections ih =>
    have hs := h s List.mem_cons_self
    have hname : osStrdup s.sect = s.sect := osStrdup_of_noNul (noNul_of_isName hs.sect)
    have hdefs := definitionList_keyTokens s.sect hs.keys
    have hsect : SectionRule (sectionTokens s) (s.keys.map (keyDefinition s.sect)) :=
      .mk rfl rfl rfl (by rwa [hname])
    rw [definitions, List.flatMap_cons, List.flatMap_cons]
    exact .cons hsect (ih fun t ht => h t (List.mem_cons_of_mem s ht))

/-! ## The additions -/

theorem callOn_keyDefinition {k : KeyEntry} (hk : k.value.WellFormed) (sect : CString)
    (conf : A6oConf) :
    callOn confLoadParserCb (keyDefinition sect k) conf = addEntry conf sect k := by
  show addEntry conf sect ⟨k.key, a6oConfValueSet k.value⟩ = _
  rw [a6oConfValueSet_of_wellFormed hk]

theorem feed_addEntry {k : KeyEntry} (hk : k.value.WellFormed) {sect : CString}
    {conf : A6oConf} {sections : List SectionEntry}
    (h : keyEntryAdd conf.sections sect k = (true, sections)) (ds : List ConfDefinition) :
    ∃ conf' : A6oConf, conf'.sections = sections ∧
      feed confLoadParserCb (keyDefinition sect k :: ds) conf =
        feed confLoadParserCb ds conf' := by
  have hsections : (addEntry conf sect k).2.sections = sections := by
    show (keyEntryAdd conf.sections sect k).2 = sections
    rw [h]
  have hstatus : (addEntry conf sect k).1 = 0 := by
    show (if (keyEntryAdd conf.sections sect k).1 then (0 : Int) else 1) = 0
    rw [h, if_pos rfl]
  refine ⟨(addEntry conf sect k).2, hsections, ?_⟩
  rw [feed_cons_of_zero]
  · rw [callOn_keyDefinition hk]
  · rw [callOn_keyDefinition hk]
    exact hstatus

/-- The keys go to the last section, one after the other. -/
theorem feed_keys {sect : CString} {before : List SectionEntry}
    (hsect : sect ∉ before.map (·.sect)) {keys : List KeyEntry}
    (hkeys : ∀ k ∈ keys, k.value.WellFormed) :
    ∀ {conf : A6oConf} {done : List KeyEntry}, conf.sections = before ++ [⟨sect, done⟩] →
      ((done ++ keys).map (·.key)).Nodup →
      ∃ conf' : A6oConf, conf'.sections = before ++ [⟨sect, done ++ keys⟩] ∧
        feed confLoadParserCb (keys.map (keyDefinition sect)) conf = (conf', true) := by
  induction keys with
  | nil =>
    intro conf done h _
    exact ⟨conf, by rw [h, List.append_nil], rfl⟩
  | cons k keys ih =>
    intro conf done h hnodup
    have hk : k.key ∉ done.map (·.key) := by
      rw [List.map_append, List.map_cons, List.nodup_append] at hnodup
      intro hmem
      exact hnodup.2.2 _ hmem _ List.mem_cons_self rfl
    obtain ⟨conf₁, hconf₁, hfeed₁⟩ := feed_addEntry (hkeys k List.mem_cons_self)
      (by rw [h]; exact keyEntryAdd_last hsect hk) (keys.map (keyDefinition sect))
    rw [List.append_cons] at hnodup
    obtain ⟨conf', hconf', hfeed⟩ :=
      ih (fun e he => hkeys e (List.mem_cons_of_mem k he)) hconf₁ hnodup
    refine ⟨conf', by rw [hconf', List.append_assoc]; rfl, ?_⟩
    rw [List.map_cons, hfeed₁, hfeed]

/-- The sections come back one after the other. -/
theorem feed_sections {sections : List SectionEntry}
    (hkeys : NoEmptySection sections)
    (hvalues : ∀ s ∈ sections, ∀ k ∈ s.keys, k.value.WellFormed) :
    ∀ {conf : A6oConf} {before : List SectionEntry}, conf.sections = before →
      Distinct (before ++ sections) →
      ∃ conf' : A6oConf, conf'.sections = before ++ sections ∧
        feed confLoadParserCb (definitions sections) conf = (conf', true) := by
  induction sections with
  | nil =>
    intro conf before h _
    exact ⟨conf, by rw [h, List.append_nil], rfl⟩
  | cons s sections ih =>
    intro conf before h hdistinct
    have hsect : s.sect ∉ before.map (·.sect) := by
      have hsects := hdistinct.sects
      rw [List.map_append, List.map_cons, List.nodup_append] at hsects
      intro hmem
      exact hsects.2.2 _ hmem _ List.mem_cons_self rfl
    have hmem : s ∈ before ++ s :: sections := by simp
    have hnodup := hdistinct.keys s hmem
    have hwf := hvalues s List.mem_cons_self
    obtain ⟨k, keys, hcons⟩ := List.exists_cons_of_ne_nil (hkeys s List.mem_cons_self)
    -- the first key makes the section, the others find it
    obtain ⟨conf₁, hconf₁, hfeed₁⟩ := feed_addEntry
      (hwf k (by rw [hcons]; exact List.mem_cons_self))
      (by rw [h]; exact keyEntryAdd_of_not_mem hsect k) (keys.map (keyDefinition s.sect))
    obtain ⟨conf₂, hconf₂, hfeed₂⟩ := feed_keys hsect
      (fun e he => hwf e (by rw [hcons]; exact List.mem_cons_of_mem k he)) hconf₁
      (by rwa [hcons] at hnodup)
    have hsection : conf₂.sections = before ++ [s] := by
      rw [hconf₂, List.singleton_append, ← hcons]
    rw [List.append_cons] at hdistinct
    obtain ⟨conf', hconf', hfeed⟩ := ih (fun t ht => hkeys t (List.mem_cons_of_mem s ht))
      (fun t ht => hvalues t (List.mem_cons_of_mem s ht)) hsection hdistinct
    refine ⟨conf', by rw [hconf', List.append_assoc]; rfl, ?_⟩
    rw [definitions, List.flatMap_cons, feed_append, hcons, List.map_cons, hfeed₁, hfeed₂,
      if_pos rfl]
    exact hfeed

/-- The definitions of a configuration that can be saved are those of its
text. -/
theorem Saveable.derivable {conf : A6oConf} (h : Saveable conf)
    (hempty : NoEmptySection conf.sections) :
    Derivable (tokens .none (a6oConfSaveFile conf).2) (definitions conf.sections) := by
  refine ⟨_, ⟨.eof, []⟩, ?_, rfl, sectionList_sectionTokens h⟩
  rw [a6oConfSaveFile_text hempty, tokens_sectionText h]

/-- Added one by one they make it again. -/
theorem Saveable.feed_definitions {conf : A6oConf} (h : Saveable conf)
    (hempty : NoEmptySection conf.sections) :
    feed confLoadParserCb (definitions conf.sections) a6oConfNew = (conf, true) := by
  obtain ⟨conf', hconf', hfeed⟩ := feed_sections hempty
    (fun s hs k hk => ((h s hs).keys k hk).value.wellFormed) (rfl : a6oConfNew.sections = [])
    conf.distinct
  have heq : conf' = conf := by
    ext1
    rw [hconf']
    rfl
  rw [hfeed, heq]

/-- **What is saved can be loaded.** -/
theorem load_save (calls : List AddCall) (h : Saveable (build calls)) :
    a6oConfLoadFile a6oConfNew (some (a6oConfSaveFile (build calls)).2) =
      (0, build calls) := by
  have hempty := build_noEmptySection calls
  rw [a6oConfLoadFile, parse_derivable _ _ (h.derivable hempty), h.feed_definitions hempty]

/-- Strings with every character that means something outside of quotes. -/
def trickyCalls : List AddCall :=
  [.addString ['a'] ['x'] ['[', 'b', ']', '\n', '#', ';', '=', ',', ' '],
    .addUint ['b'] ['n', '-', '1'] 2147483647,
    .addList ['a'] ['_'] [['=', '\n'], [], ['#']],
    .addUint ['b'] ['n', '-', '1'] 0,
    .addString ['c'] ['x'] []]

theorem load_save_trickyCalls :
    Saveable (build trickyCalls) ∧
      a6oConfLoadFile a6oConfNew (some (a6oConfSaveFile (build trickyCalls)).2) =
        (0, build trickyCalls) := by
  have h : Saveable (build trickyCalls) := by decide +kernel
  exact ⟨h, load_save trickyCalls h⟩

end Armadito.Conf
