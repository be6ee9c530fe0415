import Armadito.Conf.Order
import Armadito.Conf.RoundTrip
import Armadito.Conf.Scanned

/-!
# Conf.Loaded

The configuration that a successful load makes out of nothing: which names
it has, which values, and what is written when it is saved.
-/

namespace Armadito.Conf

/-- What loading a text into a new configuration leaves. -/
def loadedConf (text : List Char) : A6oConf := (a6oConfLoadFile a6oConfNew (some text)).2

/-- The text is a configuration with these definitions, and none of them is
refused. -/
structure Loads (text : List Char) (ds : List ConfDefinition) : Prop where
  derivable : Derivable (tokens .none text) ds
  taken : (feed confLoadParserCb ds a6oConfNew).2 = true

theorem loadSucceeds_iff_loads {text : List Char} :
    LoadSucceeds a6oConfNew (some text) ↔ ∃ ds, Loads text ds := by
  constructor
  · rintro ⟨text', ds, hfile, hds, hfeed⟩
    cases hfile
    exact ⟨ds, hds, hfeed⟩
  · rintro ⟨ds, hds, hfeed⟩
    exact ⟨text, ds, rfl, hds, hfeed⟩

theorem Loads.conf_eq {text : List Char} {ds : List ConfDefinition} (h : Loads text ds) :
    loadedConf text = (feed confLoadParserCb ds a6oConfNew).1 := by
  show (a6oConfParserParse confLoadParserCb (some text) a6oConfNew).2 = _
  rw [parse_derivable _ _ h.derivable]

/-- A text has one list of definitions. -/
theorem Derivable.unique {text : List Char} {ds ds' : List ConfDefinition}
    (h : Derivable (tokens .none text) ds) (h' : Derivable (tokens .none text) ds') :
    ds = ds' := by
  obtain ⟨ds₀, hds₀⟩ := exists_longest text
  rw [hds₀.derivable ds h, hds₀.derivable ds' h']

/-! ## The values found -/

theorem valueOf_feed_load {ds : List ConfDefinition} {conf : A6oConf}
    (h : (feed confLoadParserCb ds conf).2 = true) {sect key : CString} {v : A6oConfValue} :
    valueOf (feed confLoadParserCb ds conf).1 sect key = some v ↔
      valueOf conf sect key = some v ∨
        ∃ d ∈ ds, d.sectionName = sect ∧ d.key = key ∧ a6oConfValueSet d.value = v := by
  induction ds generalizing conf with
  | nil =>
    show valueOf conf sect key = some v ↔ _
    simp
  | cons d ds ih =>
    have hzero : (callOn confLoadParserCb d conf).1 = 0 := by
      by_contra hne
      rw [feed_cons_of_ne _ hne] at h
      cases h
    have hnew := callOn_load_status.mp hzero
    rw [feed_cons_of_zero _ hzero] at h ⊢
    rw [ih h, valueOf_callOn_load hnew]
    simp only [List.mem_cons, exists_eq_or_imp, or_assoc.symm]
    refine or_congr_left ?_
    split_ifs with heq
    · obtain ⟨rfl, rfl⟩ := heq
      simp [hnew]
    · have hne : ¬ (d.sectionName = sect ∧ d.key = key ∧ a6oConfValueSet d.value = v) :=
        fun hd => heq ⟨hd.1.symm, hd.2.1.symm⟩
      simp [hne]

theorem Loads.valueOf {text : List Char} {ds : List ConfDefinition} (h : Loads text ds)
    {sect key : CString} {v : A6oConfValue} :
    valueOf (loadedConf text) sect key = some v ↔
      ∃ d ∈ ds, d.sectionName = sect ∧ d.key = key ∧ a6oConfValueSet d.value = v := by
  have hempty : Conf.valueOf a6oConfNew sect key = none := rfl
  rw [h.conf_eq, valueOf_feed_load h.taken, hempty]
  simp

/-- A key of a section is the one that is found. -/
theorem valueOf_of_mem {conf : A6oConf} {s : SectionEntry} (hs : s ∈ conf.sections)
    {k : KeyEntry} (hk : k ∈ s.keys) : valueOf conf s.sect k.key = some k.value := by
  have hsect : sectionEntryGet conf.sections s.sect = some s :=
    NamedArray.search_of_mem conf.distinct.sects hs
  have hkey : keyEntryGetSect s k.key = some k :=
    NamedArray.search_of_mem (conf.distinct.keys s hs) hk
  rw [Conf.valueOf, keyEntryGet, hsect, Option.bind_some, hkey]
  rfl

/-- What is found is a key of a section. -/
theorem mem_of_valueOf {conf : A6oConf} {sect key : CString} {v : A6oConfValue}
    (h : valueOf conf sect key = some v) :
    ∃ s ∈ conf.sections, s.sect = sect ∧ ∃ k ∈ s.keys, k.key = key ∧ k.value = v := by
  obtain ⟨k, hget, hv⟩ := Option.map_eq_some_iff.mp h
  obtain ⟨s, hs, hk⟩ := Option.bind_eq_some_iff.mp hget
  refine ⟨s, NamedArray.mem_of_search hs, ?_, k, NamedArray.mem_of_search hk, ?_, hv⟩
  · simpa using List.find?_some hs
  · simpa using List.find?_some hk

/-! ## Names and values that can be read -/

/-- A value as the parser makes it. -/
def ReadValue : A6oConfValue → Prop
  | .void => False
  | .int n => IsInt32 n
  | .string s => IsText s
  | .list values => 2 ≤ values.length ∧ ∀ v ∈ values, IsText v

theorem ReadValue.wellFormed {v : A6oConfValue} (h : ReadValue v) : v.WellFormed := by
  cases v with
  | void => exact h.elim
  | int n => exact h
  | string s => exact h.2
  | list values => exact fun v hv => (h.2 v hv).2

/-- It can be written unless it is a negative number. -/
theorem ReadValue.saveable {v : A6oConfValue} (h : ReadValue v)
    (hint : ∀ n, v = .int n → 0 ≤ n) : SaveableValue v := by
  cases v with
  | void => exact h.elim
  | int n => exact ⟨hint n rfl, h.2⟩
  | string s => exact h
  | list values => exact h

/-- A definition as a text can hold it. -/
structure ReadDefinition (d : ConfDefinition) : Prop where
  sectionName : IsText d.sectionName
  key : IsText d.key
  value : ReadValue d.value

theorem atoi_isInt32 (digits : CString) : IsInt32 (atoi digits) := by
  constructor
  · exact Int.le_bmod (by decide)
  · exact Int.bmod_lt (by decide)

theorem isText_osStrdup {t : Token} (ht : TokenText t) (htype : t.type = .string) :
    IsText (osStrdup t.text) := by
  refine ⟨?_, osStrdup_noNul t.text⟩
  intro hmem
  exact ht.string htype ((List.takeWhile_prefix _).subset hmem)

theorem OptStringList.isText {ts : List Token} {vs : List CString} (h : OptStringList ts vs)
    (hts : ∀ t ∈ ts, TokenText t) : ∀ v ∈ vs, IsText v := by
  induction h with
  | empty =>
    intro v hv
    cases hv
  | @cons sep str ts vs hsep hstr hrest ih =>
    intro v hv
    rcases List.mem_cons.mp hv with rfl | hv
    · exact isText_osStrdup (hts str (by simp)) hstr
    · exact ih (fun t ht => hts t (by simp [ht])) v hv

theorem Value.read {ts : List Token} {v : A6oConfValue} (h : Value ts v)
    (hts : ∀ t ∈ ts, TokenText t) : ReadValue v := by
  cases h with
  | int ht => exact atoi_isInt32 _
  | @strings t ts vs ht hrest =>
    have hfirst := isText_osStrdup (hts t List.mem_cons_self) ht
    have hmore := hrest.isText fun t ht => hts t (List.mem_cons_of_mem _ ht)
    unfold stringsValue
    split_ifs with hnil
    · exact hfirst
    · have hlen : 0 < vs.length := List.length_pos_iff.mpr hnil
      refine ⟨by rw [List.length_cons]; omega, ?_⟩
      intro v hv
      rcases List.mem_cons.mp hv with rfl | hv
      · exact hfirst
      · exact hmore v hv

theorem DefinitionList.read {sect : CString} (hsect : IsText sect) {ts : List Token}
    {ds : List ConfDefinition} (h : DefinitionList sect ts ds)
    (hts : ∀ t ∈ ts, TokenText t) : ∀ d ∈ ds, ReadDefinition d := by
  induction h with
  | empty =>
    intro d hd
    cases hd
  | @cons ts ts' d ds hdef hrest ih =>
    rw [List.forall_mem_append] at hts
    intro e he
    rcases List.mem_cons.mp he with rfl | he
    · cases hdef with
      | @mk key eq vs v hkey heq hvalue =>
        rw [List.forall_mem_cons, List.forall_mem_cons] at hts
        exact ⟨hsect, isText_osStrdup hts.1.1 hkey, hvalue.read hts.1.2.2⟩
    · exact ih hts.2 e he

theorem SectionList.read {ts : List Token} {ds : List ConfDefinition} (h : SectionList ts ds)
    (hts : ∀ t ∈ ts, TokenText t) : ∀ d ∈ ds, ReadDefinition d := by
  induction h with
  | empty =>
    intro d hd
    cases hd
  | @cons ts ts' ds ds' hsect hrest ih =>
    rw [List.forall_mem_append] at hts
    intro d hd
    rcases List.mem_append.mp hd with hd | hd
    · cases hsect with
      | @mk left name right ts ds hleft hname hright hdefs =>
        rw [List.forall_mem_cons, List.forall_mem_cons, List.forall_mem_cons] at hts
        obtain ⟨⟨-, hnameText, -, hdefsText⟩, -⟩ := hts
        exact hdefs.read (isText_osStrdup hnameText hname) hdefsText d hd
    · exact ih hts.2 d hd

/-- The definitions of any text. -/
theorem Derivable.read {text : List Char} {ds : List ConfDefinition}
    (h : Derivable (tokens .none text) ds) : ∀ d ∈ ds, ReadDefinition d := by
  obtain ⟨conf, last, hts, -, hconf⟩ := h
  refine hconf.read fun t ht => tokens_text .none text t ?_
  rw [hts]
  exact List.mem_append_left _ ht

/-! ## The sections -/

/-- The keys of the configuration are the definitions of the text. -/
theorem Loads.definition_of_mem {text : List Char} {ds : List ConfDefinition}
    (h : Loads text ds) {s : SectionEntry} (hs : s ∈ (loadedConf text).sections)
    {k : KeyEntry} (hk : k ∈ s.keys) : keyDefinition s.sect k ∈ ds := by
  obtain ⟨d, hd, hsect, hkey, hvalue⟩ := h.valueOf.mp (valueOf_of_mem hs hk)
  rw [a6oConfValueSet_of_wellFormed (h.derivable.read d hd).value.wellFormed] at hvalue
  rw [keyDefinition, ← hsect, ← hkey, ← hvalue]
  exact hd

theorem Loads.mem_of_definition {text : List Char} {ds : List ConfDefinition}
    (h : Loads text ds) {d : ConfDefinition} (hd : d ∈ ds) :
    ∃ s ∈ (loadedConf text).sections, ∃ k ∈ s.keys, keyDefinition s.sect k = d := by
  have hvalue : Conf.valueOf (loadedConf text) d.sectionName d.key = some d.value :=
    h.valueOf.mpr ⟨d, hd, rfl, rfl,
      a6oConfValueSet_of_wellFormed (h.derivable.read d hd).value.wellFormed⟩
  obtain ⟨s, hs, hsect, k, hk, hkey, hv⟩ := mem_of_valueOf hvalue
  refine ⟨s, hs, k, hk, ?_⟩
  rw [keyDefinition, hsect, hkey, hv]

theorem feed_load_noEmptySection (ds : List ConfDefinition) {conf : A6oConf}
    (h : NoEmptySection conf.sections) :
    NoEmptySection (feed confLoadParserCb ds conf).1.sections := by
  induction ds generalizing conf with
  | nil => exact h
  | cons d ds ih =>
    have hadd : NoEmptySection (callOn confLoadParserCb d conf).2.sections :=
      keyEntryAdd_noEmptySection h d.sectionName ⟨d.key, a6oConfValueSet d.value⟩
    by_cases hret : (callOn confLoadParserCb d conf).1 = 0
    · rw [feed_cons_of_zero _ hret]
      exact ih hadd
    · rw [feed_cons_of_ne _ hret]
      exact hadd

theorem Loads.noEmptySection {text : List Char} {ds : List ConfDefinition}
    (h : Loads text ds) : NoEmptySection (loadedConf text).sections := by
  rw [h.conf_eq]
  exact feed_load_noEmptySection ds fun s hs => by cases hs

/-- What is written for it. -/
def savedText (conf : A6oConf) : List Char := (a6oConfSaveFile conf).2

/-- Everything that can be saved comes back. -/
theorem Saveable.loads {conf : A6oConf} (h : Saveable conf)
    (hempty : NoEmptySection conf.sections) :
    Loads (savedText conf) (definitions conf.sections) ∧
      loadedConf (savedText conf) = conf := by
  have hfeed := h.feed_definitions hempty
  have hloads : Loads (savedText conf) (definitions conf.sections) :=
    ⟨h.derivable hempty, by rw [hfeed]⟩
  refine ⟨hloads, ?_⟩
  rw [hloads.conf_eq, hfeed]

end Armadito.Conf
