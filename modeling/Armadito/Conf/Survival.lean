import Armadito.Conf.Written

/-!
# Conf.Survival

Which configurations survive being saved. A name is written without quotes,
so it must be an identifier; a number is written with its sign, which the
scanner does not know.

A name that is no identifier could only come back as a string between two
values, read by a scanner that a `#` has led astray. That `#` is in a
shorter name, which would have to come back in the same way.
-/

namespace Armadito.Conf

/-- Saved and loaded again, the configuration has the same keys with the
same values. -/
def SurvivesSaving (conf : A6oConf) : Prop :=
  LoadSucceeds a6oConfNew (some (savedText conf)) ∧
    ∀ sect key, valueOf (loadedConf (savedText conf)) sect key = valueOf conf sect key

/-! ## What is written -/

/-- The names of the sections and of their keys. -/
def namesOf (sections : List SectionEntry) : Names :=
  fun n => ∃ s ∈ sections, s.sect = n ∨ ∃ k ∈ s.keys, k.key = n

/-- Names and values as the parser makes them. -/
structure ReadSection (s : SectionEntry) : Prop where
  sect : IsText s.sect
  keys : ∀ k ∈ s.keys, IsText k.key ∧ ReadValue k.value

theorem Loads.readSection {text : List Char} {ds : List ConfDefinition} (h : Loads text ds) :
    ∀ s ∈ (loadedConf text).sections, ReadSection s := by
  intro s hs
  have hread : ∀ k ∈ s.keys, ReadDefinition (keyDefinition s.sect k) := fun k hk =>
    h.derivable.read _ (h.definition_of_mem hs hk)
  obtain ⟨k, hk⟩ := List.exists_mem_of_ne_nil _ (h.noEmptySection s hs)
  exact ⟨(hread k hk).sectionName, fun k hk => ⟨(hread k hk).key, (hread k hk).value⟩⟩

section Writing

variable {names : Names}

theorem Written.of_plain {piece : List Char} (hquote : '"' ∉ piece)
    (hhash : ShorterName names piece) : Written names piece := by
  have h := Written.plain hquote hhash .nil
  rwa [List.append_nil] at h

theorem Written.quoted {sep : Char} {type : TokenType} {v : List Char} (hsep : IsSep sep type)
    (hv : '"' ∉ v) : Written names (sep :: ' ' :: quoted v) :=
  .value hsep hv .nil

/-- The text around a name. -/
theorem Written.name {n before after : List Char} (hn : names n) (hquote : '"' ∉ n)
    (hbefore : '"' ∉ before ∧ '#' ∉ before) (hafter : '"' ∉ after ∧ '#' ∉ after)
    (hlen : 0 < before.length + after.length) : Written names (before ++ n ++ after) := by
  refine .of_plain (by simp [hbefore.1, hquote, hafter.1]) ?_
  intro hmem
  have hhash : '#' ∈ n := by simpa [hbefore.2, hafter.2] using hmem
  refine ⟨n, hn, hhash, ?_⟩
  simp only [List.length_append]
  omega

theorem printInt_plain (n : Int) : '"' ∉ printInt n ∧ '#' ∉ printInt n := by
  have hdigits : ∀ (c : Char) (m : Nat), c.isDigit = false → c ∉ Nat.toDigits 10 m := by
    intro c m hc hmem
    rw [Nat.isDigit_of_mem_toDigits (by decide) (by decide) hmem] at hc
    cases hc
  cases n with
  | ofNat m => exact ⟨hdigits _ m rfl, hdigits _ m rfl⟩
  | negSucc m => simp [printInt, hdigits '"' (m + 1) rfl, hdigits '#' (m + 1) rfl]

theorem written_newline : Written names ['\n'] :=
  .of_plain (by decide) fun h => absurd h (by decide)

theorem written_saveMore {values : List CString} (h : ∀ v ∈ values, IsText v) :
    Written names (saveMore values) :=
  Written.flatMap fun v hv => .quoted (.inr ⟨rfl, rfl⟩) (h v hv).1

theorem written_keyLine {k : KeyEntry} (hn : names k.key) (hkey : IsText k.key)
    (hvalue : ReadValue k.value) : Written names (keyLine k) := by
  have hname : Written names ([] ++ k.key ++ [' ']) :=
    .name hn hkey.1 (by simp) (by decide) (by simp)
  have heq : ∀ {v : CString}, IsText v → Written names ('=' :: ' ' :: quoted v) :=
    fun hv => .quoted (.inl ⟨rfl, rfl⟩) hv.1
  cases hv : k.value with
  | void =>
    rw [hv] at hvalue
    exact hvalue.elim
  | int n =>
    obtain ⟨hquote, hhash⟩ := printInt_plain n
    have hline : Written names ([] ++ k.key ++ ([' ', '=', ' '] ++ printInt n ++ ['\n'])) :=
      .name hn hkey.1 (by simp) (by simp [hquote, hhash]) (by simp)
    simpa [keyLine, saveValue, hv] using hline
  | string s =>
    rw [hv] at hvalue
    have hline := (hname.append (heq hvalue)).append written_newline
    simpa [keyLine, saveValue, hv] using hline
  | list values =>
    rw [hv] at hvalue
    cases values with
    | nil => exact absurd hvalue.1 (by decide)
    | cons v values =>
      obtain ⟨hfirst, hmore⟩ := List.forall_mem_cons.mp hvalue.2
      have hline := ((hname.append (heq hfirst)).append (written_saveMore hmore)).append
        written_newline
      simpa [keyLine, saveValue, hv] using hline

theorem written_sectionText {sections : List SectionEntry}
    (h : ∀ s ∈ sections, ReadSection s) :
    Written (namesOf sections) (sections.flatMap sectionText) := by
  refine Written.flatMap fun s hs => ?_
  have hhead : Written (namesOf sections) (['\n', '['] ++ s.sect ++ [']', '\n', '\n']) :=
    .name ⟨s, hs, .inl rfl⟩ (h s hs).sect.1 (by decide) (by decide) (by simp)
  refine Written.append hhead (Written.flatMap fun k hk => ?_)
  exact written_keyLine ⟨s, hs, .inr ⟨k, hk, rfl⟩⟩ ((h s hs).keys k hk).1 ((h s hs).keys k hk).2

theorem noNul_append {a b : List Char} : NoNul (a ++ b) ↔ NoNul a ∧ NoNul b := by
  simp [NoNul]

theorem noNul_flatMap {α : Type} {xs : List α} {f : α → List Char} :
    NoNul (xs.flatMap f) ↔ ∀ x ∈ xs, NoNul (f x) := by
  simp [NoNul]

theorem noNul_quoted {v : CString} (h : NoNul v) : NoNul (quoted v) := by
  simpa [NoNul, quoted] using h

theorem noNul_printInt (n : Int) : NoNul (printInt n) := by
  have hdigits : ∀ m : Nat, NoNul (Nat.toDigits 10 m) := by
    intro m hmem
    exact absurd (Nat.isDigit_of_mem_toDigits (by decide) (by decide) hmem) (by decide)
  cases n with
  | ofNat m => exact hdigits m
  | negSucc m => simpa [NoNul, printInt] using hdigits (m + 1)

theorem noNul_saveValue {v : A6oConfValue} (h : ReadValue v) : NoNul (saveValue v) := by
  cases v with
  | void => exact h.elim
  | int n => simpa [NoNul, saveValue] using noNul_printInt n
  | string s => simpa [NoNul, saveValue] using noNul_quoted h.2
  | list values =>
    cases values with
    | nil => exact absurd h.1 (by decide)
    | cons v values =>
      obtain ⟨hfirst, hmore⟩ := List.forall_mem_cons.mp h.2
      have hsaved : NoNul (saveMore values) := by
        rw [saveMore, noNul_flatMap]
        intro w hw
        simpa [NoNul] using noNul_quoted (hmore w hw).2
      rw [saveValue, noNul_append]
      exact ⟨by simpa [NoNul] using noNul_quoted hfirst.2, hsaved⟩

theorem noNul_sectionText {s : SectionEntry} (h : ReadSection s) : NoNul (sectionText s) := by
  rw [sectionText, noNul_append, noNul_flatMap]
  refine ⟨by simpa [NoNul, sectionLine] using h.sect.2, fun k hk => ?_⟩
  obtain ⟨hkey, hvalue⟩ := h.keys k hk
  rw [keyLine, noNul_append, noNul_append, noNul_append]
  exact ⟨⟨⟨hkey.2, by simp [NoNul]⟩, noNul_saveValue hvalue⟩, by simp [NoNul]⟩

end Writing

/-! ## What is read -/

theorem scan_text_subset {prev : TokenType} {state : ScanState} {text input : List Char} :
    (scan prev state text input).1.text ⊆ text ++ input ∧
      (scan prev state text input).2 ⊆ input := by
  induction input generalizing state text with
  | nil => simp [scan]
  | cons c input ih =>
    rw [scan]
    cases hstep : scanStep prev state c with
    | goto state' append =>
      obtain ⟨htext, hrest⟩ := @ih state' (if append then text ++ [c] else text)
      refine ⟨List.Subset.trans htext ?_, List.subset_cons_of_subset c hrest⟩
      split_ifs
      · simp
      · simp
    | accept type =>
      refine ⟨?_, List.subset_cons_self c input⟩
      show acceptText type text c ⊆ text ++ c :: input
      unfold acceptText
      split_ifs
      · simp
      · simp
    | unget type => simp

theorem tokens_noNul {prev : TokenType} {input : List Char} (h : NoNul input) :
    ∀ t ∈ tokens prev input, NoNul t.text := by
  have hnext : ∀ prev, NoNul (scannerGetNextToken prev input).1.text := by
    intro prev hmem
    exact h (scan_text_subset.1 hmem)
  induction prev, input using tokens.induct with
  | case1 prev input next heof =>
    intro t ht
    rw [tokens, if_pos heof, List.mem_singleton] at ht
    rw [ht]
    exact hnext prev
  | case2 prev input next hne ih =>
    intro t ht
    rw [tokens, if_neg hne] at ht
    rcases List.mem_cons.mp ht with rfl | ht
    · exact hnext prev
    · have hrest : NoNul next.2 := fun hmem => h (scan_text_subset.2 hmem)
      exact ih hrest (fun prev hmem => hrest (scan_text_subset.1 hmem)) t ht

/-- The type of the last token. -/
def lastType (prev : TokenType) : List Token → TokenType
  | [] => prev
  | t :: ts => lastType t.type ts

section Reading

variable {names : Names}

theorem readsNames_append {ts ts' : List Token} :
    ∀ {prev : TokenType}, ReadsNames names prev (ts ++ ts') ↔
      ReadsNames names prev ts ∧ ReadsNames names (lastType prev ts) ts' := by
  induction ts with
  | nil => simp [ReadsNames, lastType]
  | cons t ts ih =>
    intro prev
    rw [List.cons_append, ReadsNames, ReadsNames, lastType, ih, and_assoc]

theorem lastType_append (ts ts' : List Token) (prev : TokenType) :
    lastType prev (ts ++ ts') = lastType (lastType prev ts) ts' := by
  induction ts generalizing prev with
  | nil => rfl
  | cons t ts ih => exact ih t.type

/-- A name does not follow these. -/
def BeforeName (prev : TokenType) : Prop := prev ≠ .equalSign ∧ prev ≠ .semiColon

theorem ReadAfter.nameText {prev : TokenType} (hprev : BeforeName prev) {t : Token}
    (h : ReadAfter names prev t) (ht : t.type = .string) : NameText names t.text := by
  rcases h ht with h | h | h
  · exact absurd h hprev.1
  · exact absurd h hprev.2
  · exact h

theorem OptStringList.lastType {ts : List Token} {vs : List CString} (h : OptStringList ts vs) :
    Conf.lastType .string ts = .string := by
  induction h with
  | empty => rfl
  | cons hsep hstr hrest ih =>
    rw [Conf.lastType, Conf.lastType, hstr]
    exact ih

theorem Value.beforeName {ts : List Token} {v : A6oConfValue} (h : Value ts v)
    (prev : TokenType) : BeforeName (Conf.lastType prev ts) := by
  cases h with
  | @int t ht =>
    rw [lastType, lastType, ht]
    exact ⟨by decide, by decide⟩
  | @strings t ts vs ht hrest =>
    rw [lastType, ht, hrest.lastType]
    exact ⟨by decide, by decide⟩

/-- A name is the text of a token that is a possible name. -/
def IsRead (names : Names) (ts : List Token) (n : CString) : Prop :=
  ∃ t ∈ ts, osStrdup t.text = n ∧ NameText names t.text

theorem IsRead.mono {ts ts' : List Token} (hsub : ts ⊆ ts') {n : CString}
    (h : IsRead names ts n) : IsRead names ts' n := by
  obtain ⟨t, ht, hn⟩ := h
  exact ⟨t, hsub ht, hn⟩

theorem DefinitionList.keys_read {sect : CString} {ts : List Token} {ds : List ConfDefinition}
    (h : DefinitionList sect ts ds) {prev : TokenType} (hprev : BeforeName prev)
    (hreads : ReadsNames names prev ts) :
    BeforeName (lastType prev ts) ∧ ∀ d ∈ ds, d.sectionName = sect ∧ IsRead names ts d.key := by
  induction h generalizing prev with
  | empty => exact ⟨hprev, fun d hd => by cases hd⟩
  | @cons ts ts' d ds hdef hrest ih =>
    cases hdef with
    | @mk key eq vs v hkey heq hvalue =>
      obtain ⟨⟨hread, -, hvs⟩, hreads'⟩ := readsNames_append.mp hreads
      obtain ⟨hlast, hds⟩ := ih (hvalue.beforeName _) hreads'
      rw [lastType_append]
      refine ⟨hlast, ?_⟩
      intro e he
      rcases List.mem_cons.mp he with rfl | he
      · exact ⟨rfl, key, by simp, rfl, hread.nameText hprev hkey⟩
      · exact ⟨(hds e he).1, (hds e he).2.mono (List.subset_append_right _ _)⟩

theorem SectionList.names_read {ts : List Token} {ds : List ConfDefinition}
    (h : SectionList ts ds) {prev : TokenType} (hprev : BeforeName prev)
    (hreads : ReadsNames names prev ts) :
    ∀ d ∈ ds, IsRead names ts d.sectionName ∧ IsRead names ts d.key := by
  induction h generalizing prev with
  | empty =>
    intro d hd
    cases hd
  | @cons ts ts' ds ds' hsect hrest ih =>
    cases hsect with
    | @mk left name right ts ds hleft hname hright hdefs =>
      obtain ⟨⟨-, hread, -, hdefsRead⟩, hreads'⟩ := readsNames_append.mp hreads
      have hnameText : NameText names name.text :=
        hread.nameText (by rw [hleft]; exact ⟨by decide, by decide⟩) hname
      obtain ⟨hlast, hds⟩ := hdefs.keys_read (by rw [hright]; exact ⟨by decide, by decide⟩)
        hdefsRead
      intro d hd
      rcases List.mem_append.mp hd with hd | hd
      · obtain ⟨hsectName, hkey⟩ := hds d hd
        refine ⟨⟨name, by simp, hsectName.symm, hnameText⟩, hkey.mono ?_⟩
        intro t ht
        simp [ht]
      · obtain ⟨hsectName, hkey⟩ := ih hlast hreads' d hd
        exact ⟨hsectName.mono (List.subset_append_right _ _),
          hkey.mono (List.subset_append_right _ _)⟩

end Reading

/-! ## Names that come back -/

theorem isIdentifier_of_isName {n : CString} (h : isName n = true) :
    ∀ c ∈ n, isIdentifier c = true := by
  cases n with
  | nil => cases h
  | cons c cs =>
    rw [isName, Bool.and_eq_true, List.all_eq_true] at h
    intro d hd
    rcases List.mem_cons.mp hd with rfl | hd
    · exact isIdentifier_of_first h.1
    · exact h.2 d hd

/-- A shortest name with a `#` cannot have come back. -/
theorem not_hashed {names : Names} (h : ∀ n, names n → NameText names n) :
    ¬ names.Hashed := by
  have hnone : ∀ (len : Nat) (n : CString), n.length = len → names n → '#' ∉ n := by
    intro len
    induction len using Nat.strong_induction_on with
    | _ len ih =>
      intro n hlen hn hmem
      rcases h n hn with hname | ⟨-, hshorter⟩
      · exact absurd (isIdentifier_of_isName hname '#' hmem) (by decide)
      · obtain ⟨m, hm, hmHash, hmLen⟩ := hshorter hmem
        exact ih m.length (hlen ▸ hmLen) m rfl hm hmHash
  rintro ⟨n, hn, hmem⟩
  exact hnone n.length n rfl hn hmem

/-- So every name is an identifier. -/
theorem isName_of_nameText {names : Names} (h : ∀ n, names n → NameText names n) :
    ∀ n, names n → isName n = true := by
  intro n hn
  rcases h n hn with hname | ⟨hhashed, -⟩
  · exact hname
  · exact absurd hhashed (not_hashed h)

/-! ## Tokens of the grammar -/

/-- Every token is understood. -/
def Understood (ts : List Token) : Prop := ∀ t ∈ ts, ¬ t.type.IsStuck

theorem not_isStuck {t : Token} {type : TokenType} (h : t.type = type) (hnone : type ≠ .none)
    (herror : type ≠ .error) : ¬ t.type.IsStuck := by
  rw [h]
  rintro (heq | heq)
  · exact hnone heq
  · exact herror heq

theorem OptStringList.understood {ts : List Token} {vs : List CString}
    (h : OptStringList ts vs) : Understood ts := by
  induction h with
  | empty =>
    intro t ht
    cases ht
  | cons hsep hstr hrest ih =>
    refine List.forall_mem_cons.mpr ⟨?_, List.forall_mem_cons.mpr ⟨?_, ih⟩⟩
    · rcases hsep with hsep | hsep
      · exact not_isStuck hsep (by decide) (by decide)
      · exact not_isStuck hsep (by decide) (by decide)
    · exact not_isStuck hstr (by decide) (by decide)

theorem Value.understood {ts : List Token} {v : A6oConfValue} (h : Value ts v) :
    Understood ts := by
  cases h with
  | int ht =>
    intro t' ht'
    rw [List.mem_singleton.mp ht']
    exact not_isStuck ht (by decide) (by decide)
  | strings ht hrest =>
    exact List.forall_mem_cons.mpr
      ⟨not_isStuck ht (by decide) (by decide), hrest.understood⟩

theorem DefinitionList.understood {sect : CString} {ts : List Token}
    {ds : List ConfDefinition} (h : DefinitionList sect ts ds) : Understood ts := by
  induction h with
  | empty =>
    intro t ht
    cases ht
  | cons hdef hrest ih =>
    refine List.forall_mem_append.mpr ⟨?_, ih⟩
    cases hdef with
    | mk hkey heq hvalue =>
      exact List.forall_mem_cons.mpr ⟨not_isStuck hkey (by decide) (by decide),
        List.forall_mem_cons.mpr ⟨not_isStuck heq (by decide) (by decide),
          hvalue.understood⟩⟩

theorem SectionList.understood {ts : List Token} {ds : List ConfDefinition}
    (h : SectionList ts ds) : Understood ts := by
  induction h with
  | empty =>
    intro t ht
    cases ht
  | cons hsect hrest ih =>
    refine List.forall_mem_append.mpr ⟨?_, ih⟩
    cases hsect with
    | mk hleft hname hright hdefs =>
      refine List.forall_mem_cons.mpr ⟨not_isStuck hleft (by decide) (by decide), ?_⟩
      refine List.forall_mem_cons.mpr ⟨not_isStuck hname (by decide) (by decide), ?_⟩
      exact List.forall_mem_cons.mpr
        ⟨not_isStuck hright (by decide) (by decide), hdefs.understood⟩

theorem Derivable.understood {ts : List Token} {ds : List ConfDefinition}
    (h : Derivable ts ds) : Understood ts := by
  obtain ⟨conf, last, rfl, hlast, hconf⟩ := h
  refine List.forall_mem_append.mpr ⟨hconf.understood, ?_⟩
  intro t ht
  rw [List.mem_singleton.mp ht]
  exact not_isStuck hlast (by decide) (by decide)

/-- The names that come back from a text that was written. -/
theorem Derivable.names_read {names : Names} {text : List Char} {ds : List ConfDefinition}
    (h : Derivable (tokens .none text) ds) (hwritten : Written names text)
    (hnul : NoNul text) : ∀ d ∈ ds, NameText names d.sectionName ∧ NameText names d.key := by
  have hplace : Place names .none text :=
    .inl ⟨[], ⟨List.not_mem_nil, hwritten⟩, followsSep_nil .none⟩
  have hreads := readsNames_tokens hplace h.understood
  have htext : ∀ t ∈ tokens .none text, NoNul t.text := tokens_noNul hnul
  obtain ⟨conf, last, hts, -, hconf⟩ := h
  rw [hts] at hreads htext
  have hname : ∀ n, IsRead names conf n → NameText names n := by
    rintro n ⟨t, ht, rfl, htname⟩
    rw [osStrdup_of_noNul (htext t (List.mem_append_left _ ht))]
    exact htname
  intro d hd
  obtain ⟨hsect, hkey⟩ :=
    hconf.names_read ⟨by decide, by decide⟩ (readsNames_append.mp hreads).1 d hd
  exact ⟨hname _ hsect, hname _ hkey⟩

theorem SurvivesSaving.isName {conf : A6oConf} (h : SurvivesSaving conf)
    (hempty : NoEmptySection conf.sections) (hread : ∀ s ∈ conf.sections, ReadSection s) :
    ∀ n, namesOf conf.sections n → isName n = true := by
  obtain ⟨hload, hsame⟩ := h
  obtain ⟨ds, hds⟩ := loadSucceeds_iff_loads.mp hload
  have hwritten : Written (namesOf conf.sections) (savedText conf) := by
    rw [savedText, a6oConfSaveFile_text hempty]
    exact written_sectionText hread
  have hnul : NoNul (savedText conf) := by
    rw [savedText, a6oConfSaveFile_text hempty, noNul_flatMap]
    exact fun s hs => noNul_sectionText (hread s hs)
  have hnames := hds.derivable.names_read hwritten hnul
  have hback : ∀ s ∈ conf.sections, ∀ k ∈ s.keys, ∃ d ∈ ds, d.sectionName = s.sect ∧
      d.key = k.key := by
    intro s hs k hk
    have hvalue := valueOf_of_mem hs hk
    rw [← hsame] at hvalue
    obtain ⟨d, hd, hsect, hkey, -⟩ := hds.valueOf.mp hvalue
    exact ⟨d, hd, hsect, hkey⟩
  refine isName_of_nameText ?_
  rintro n ⟨s, hs, rfl | ⟨k, hk, rfl⟩⟩
  · obtain ⟨k, hk⟩ := List.exists_mem_of_ne_nil _ (hempty s hs)
    obtain ⟨d, hd, hsect, -⟩ := hback s hs k hk
    rw [← hsect]
    exact (hnames d hd).1
  · obtain ⟨d, hd, -, hkey⟩ := hback s hs k hk
    rw [← hkey]
    exact (hnames d hd).2

/-! ## Negative numbers -/

/-- The scanner gets stuck on the text. -/
def Sticks (prev : TokenType) (input : List Char) : Prop := ¬ Understood (tokens prev input)

theorem Lexes.sticks {prev last : TokenType} {input rest : List Char} {ts : List Token}
    (h : Lexes prev input ts last rest) (hrest : Sticks last rest) : Sticks prev input := by
  intro hall
  rw [h] at hall
  exact hrest (List.forall_mem_append.mp hall).2

/-- Lines the scanner gets stuck on, read anywhere but behind an equal
sign. -/
def SticksLines (input : List Char) : Prop :=
  ∀ (prev : TokenType) (rest : List Char), prev ≠ .equalSign → Sticks prev (input ++ rest)

theorem LexesLines.sticks {i j : List Char} {ts : List Token} (h : LexesLines i ts)
    (hj : SticksLines j) : SticksLines (i ++ j) := by
  intro prev rest hprev
  rw [List.append_assoc]
  obtain ⟨last, hlast, hlex⟩ := h prev (j ++ rest) hprev
  exact hlex.sticks (hj last rest hlast)

theorem SticksLines.append {i : List Char} (h : SticksLines i) (j : List Char) :
    SticksLines (i ++ j) := by
  intro prev rest hprev
  rw [List.append_assoc]
  exact h prev (j ++ rest) hprev

/-- The text is read as lines, or the scanner gets stuck on it. -/
def ReadsLines (input : List Char) : Prop := (∃ ts, LexesLines input ts) ∨ SticksLines input

theorem ReadsLines.append {i j : List Char} (hi : ReadsLines i) (hj : ReadsLines j) :
    ReadsLines (i ++ j) := by
  rcases hi with ⟨ts, hi⟩ | hi
  · rcases hj with ⟨ts', hj⟩ | hj
    · exact .inl ⟨_, hi.append hj⟩
    · exact .inr (hi.sticks hj)
  · exact .inr (hi.append j)

theorem ReadsLines.flatMap {α : Type} {xs : List α} {f : α → List Char}
    (h : ∀ x ∈ xs, ReadsLines (f x)) : ReadsLines (xs.flatMap f) := by
  induction xs with
  | nil => exact .inl ⟨[], fun prev _ hprev => ⟨prev, hprev, rfl⟩⟩
  | cons x xs ih =>
    rw [List.flatMap_cons]
    exact (h x List.mem_cons_self).append (ih fun y hy => h y (List.mem_cons_of_mem x hy))

/-- One piece the scanner gets stuck on is enough. -/
theorem SticksLines.flatMap {α : Type} {xs : List α} {f : α → List Char}
    (h : ∀ x ∈ xs, ReadsLines (f x)) {x : α} (hx : x ∈ xs) (hstuck : SticksLines (f x)) :
    SticksLines (xs.flatMap f) := by
  induction xs with
  | nil => cases hx
  | cons y xs ih =>
    rw [List.flatMap_cons]
    rcases h y List.mem_cons_self with ⟨ts, hlex⟩ | hy
    · rcases List.mem_cons.mp hx with rfl | hx
      · exact hstuck.append _
      · exact hlex.sticks (ih (fun z hz => h z (List.mem_cons_of_mem y hz)) hx)
    · exact hy.append _

/-- A minus is no token, and behind the equal sign it is an error. -/
theorem sticks_minus (rest : List Char) : Sticks .equalSign (' ' :: '-' :: rest) := by
  have hnext : scannerGetNextToken .equalSign (' ' :: '-' :: rest) =
      (⟨.error, []⟩, '-' :: rest) := by
    rw [scannerGetNextToken_space (by decide)]
    rfl
  intro hall
  rw [tokens, hnext] at hall
  exact hall _ List.mem_cons_self (.inr rfl)

theorem sticksLines_keyLine {k : KeyEntry} (hkey : isName k.key = true) {n : Int}
    (hvalue : k.value = .int n) (hn : n < 0) : SticksLines (keyLine k) := by
  intro prev rest _
  obtain ⟨m, rfl⟩ := Int.eq_negSucc_of_lt_zero hn
  generalize hdigits : Nat.toDigits 10 (m + 1) ++ '\n' :: rest = after
  have hname : Lexes prev (k.key ++ ' ' :: '=' :: ' ' :: '-' :: after)
      [⟨.string, k.key⟩] .string (' ' :: '=' :: ' ' :: '-' :: after) :=
    .identifier hkey rfl _
  have heq : Lexes .string (' ' :: '=' :: ' ' :: '-' :: after)
      [⟨.equalSign, ['=']⟩] .equalSign (' ' :: '-' :: after) :=
    (Lexes.punctuation (by decide) rfl _).space rfl
  have htext : keyLine k ++ rest = k.key ++ ' ' :: '=' :: ' ' :: '-' :: after := by
    rw [← hdigits, keyLine, hvalue]
    simp [saveValue, printInt]
  rw [htext]
  exact hname.sticks (heq.sticks (sticks_minus after))

theorem readsLines_keyLine {k : KeyEntry} (hkey : isName k.key = true)
    (hvalue : ReadValue k.value) : ReadsLines (keyLine k) := by
  by_cases hneg : ∃ n, k.value = .int n ∧ n < 0
  · obtain ⟨n, hv, hn⟩ := hneg
    exact .inr (sticksLines_keyLine hkey hv hn)
  · refine .inl ⟨_, lexesLines_keyLine ⟨hkey, hvalue.saveable fun n hv => ?_⟩⟩
    exact Int.not_lt.mp fun hn => hneg ⟨n, hv, hn⟩

/-- The text of a configuration with proper names is understood only when
no number is negative. -/
theorem nonneg_of_understood {sections : List SectionEntry}
    (hread : ∀ s ∈ sections, ReadSection s)
    (hnames : ∀ n, namesOf sections n → isName n = true)
    (h : Understood (tokens .none (sections.flatMap sectionText))) :
    ∀ s ∈ sections, ∀ k ∈ s.keys, ∀ n, k.value = .int n → 0 ≤ n := by
  have hkeys : ∀ s ∈ sections, ∀ k ∈ s.keys, ReadsLines (keyLine k) := fun s hs k hk =>
    readsLines_keyLine (hnames _ ⟨s, hs, .inr ⟨k, hk, rfl⟩⟩) ((hread s hs).keys k hk).2
  have hhead : ∀ s ∈ sections, LexesLines (sectionLine s.sect) (headTokens s.sect) :=
    fun s hs => lexesLines_sectionLine (hnames _ ⟨s, hs, .inl rfl⟩)
  have hsections : ∀ s ∈ sections, ReadsLines (sectionText s) := fun s hs =>
    ReadsLines.append (.inl ⟨_, hhead s hs⟩) (.flatMap (hkeys s hs))
  intro s hs k hk n hv
  by_contra hneg
  have hline : SticksLines (keyLine k) :=
    sticksLines_keyLine (hnames _ ⟨s, hs, .inr ⟨k, hk, rfl⟩⟩) hv (Int.not_le.mp hneg)
  have hsection : SticksLines (sectionText s) :=
    (hhead s hs).sticks (SticksLines.flatMap (hkeys s hs) hk hline)
  have hall := SticksLines.flatMap hsections hs hsection .none [] (by decide)
  rw [List.append_nil] at hall
  exact hall h

/-! ## What survives -/

/-- The names are identifiers and no number is negative. -/
structure Writable (d : ConfDefinition) : Prop where
  sectionName : isName d.sectionName = true
  key : isName d.key = true
  value : ∀ n, d.value = .int n → 0 ≤ n

theorem Loads.saveable {text : List Char} {ds : List ConfDefinition} (h : Loads text ds)
    (hds : ∀ d ∈ ds, Writable d) : Saveable (loadedConf text) := by
  intro s hs
  have hkey : ∀ k ∈ s.keys, Writable (keyDefinition s.sect k) := fun k hk =>
    hds _ (h.definition_of_mem hs hk)
  obtain ⟨k, hk⟩ := List.exists_mem_of_ne_nil _ (h.noEmptySection s hs)
  refine ⟨(hkey k hk).sectionName, fun k hk => ⟨(hkey k hk).key, ?_⟩⟩
  exact ((h.readSection s hs).keys k hk).2.saveable (hkey k hk).value

/-- **A configuration survives being saved just when its names are
identifiers, however they were written, and none of its numbers is
negative.** -/
theorem survivesSaving_iff {text : List Char} {ds : List ConfDefinition}
    (h : Loads text ds) : SurvivesSaving (loadedConf text) ↔ ∀ d ∈ ds, Writable d := by
  constructor
  · intro hsurvives d hd
    have hread := h.readSection
    have hnames := hsurvives.isName h.noEmptySection hread
    obtain ⟨ds', hds'⟩ := loadSucceeds_iff_loads.mp hsurvives.1
    have hunderstood := hds'.derivable.understood
    rw [savedText, a6oConfSaveFile_text h.noEmptySection] at hunderstood
    obtain ⟨s, hs, k, hk, rfl⟩ := h.mem_of_definition hd
    exact ⟨hnames _ ⟨s, hs, .inl rfl⟩, hnames _ ⟨s, hs, .inr ⟨k, hk, rfl⟩⟩,
      nonneg_of_understood hread hnames hunderstood s hs k hk⟩
  · intro hds
    obtain ⟨hloads, hconf⟩ := (h.saveable hds).loads h.noEmptySection
    refine ⟨loadSucceeds_iff_loads.mpr ⟨_, hloads⟩, fun sect key => ?_⟩
    rw [hconf]

/-- A section whose name needs its quotes. -/
def quotedFile : List Char := "[\"my section\"]\nk = 1\n".toList

/-- It is loaded, and what is written for it is refused. -/
theorem not_survivesSaving_quotedFile :
    LoadSucceeds a6oConfNew (some quotedFile) ∧
      (a6oConfParserParse confLoadParserCb (some (savedText (loadedConf quotedFile)))
        a6oConfNew).1 = -2 ∧
      ¬ SurvivesSaving (loadedConf quotedFile) := by
  have hparse : (a6oConfParserParse confLoadParserCb
      (some (savedText (loadedConf quotedFile))) a6oConfNew).1 = -2 := by
    decide +kernel
  refine ⟨?_, hparse, ?_⟩
  · rw [loadSucceeds_iff_parse]
    decide +kernel
  · intro h
    have hload := h.1
    rw [loadSucceeds_iff_parse, hparse] at hload
    cases hload

/-- Names that do not need their quotes. -/
def quotedIdentifiers : List Char := "[\"a\"]\n\"k\" = 1\n".toList

theorem survivesSaving_quotedIdentifiers : SurvivesSaving (loadedConf quotedIdentifiers) := by
  have htokens : tokens .none quotedIdentifiers =
      (headTokens ['a'] ++ ([⟨.string, ['k']⟩, ⟨.equalSign, ['=']⟩, ⟨.integer, ['1']⟩] ++ [])) ++
        [⟨.eof, []⟩] := by
    decide +kernel
  have hloads : Loads quotedIdentifiers [⟨['a'], ['k'], .int 1⟩] := by
    refine ⟨⟨_, _, htokens, rfl, ?_⟩, by decide +kernel⟩
    exact .cons (.mk rfl rfl rfl (.cons (.mk rfl rfl (.int rfl)) .empty)) .empty
  refine (survivesSaving_iff hloads).mpr ?_
  intro d hd
  rw [List.mem_singleton.mp hd]
  exact ⟨rfl, rfl, fun n hn => by cases hn; decide⟩

end Armadito.Conf
