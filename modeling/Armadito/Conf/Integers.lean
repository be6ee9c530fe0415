import Armadito.Conf.Survival

/-!
# Conf.Integers

A string of digits from the file to the store, to the caller of
`a6o_conf_get_uint` and through the file that is saved. `atoi` keeps the low
32 bits, so a number from 2^31 on is another one from there.
-/

namespace Armadito.Conf

/-- `a6o_conf_get_uint`: -1 when there is no such key, or no integer. -/
def a6oConfGetUint (conf : A6oConf) (sect key : CString) : Int :=
  match keyEntryGet conf.sections sect key with
  | some ⟨_, .int v⟩ => v
  | _ => -1

/-! ## Integers in a text -/

/-- In a definition list, the key is set to the digits. -/
inductive DefinitionSets (sect : CString) : List Token → CString → List Char → Prop where
  | here {key eq int : Token} {ts : List Token} {ds : List ConfDefinition}
      (hkey : key.type = .string) (heq : eq.type = .equalSign) (hint : int.type = .integer)
      (hrest : DefinitionList sect ts ds) :
      DefinitionSets sect (key :: eq :: int :: ts) (osStrdup key.text) int.text
  | there {ts ts' : List Token} {d : ConfDefinition} {key : CString} {digits : List Char}
      (hdef : DefinitionRule sect ts d) (hrest : DefinitionSets sect ts' key digits) :
      DefinitionSets sect (ts ++ ts') key digits

/-- In a configuration, the key of the section is set to the digits. -/
inductive ConfigurationSets : List Token → CString → CString → List Char → Prop where
  | here {left name right : Token} {ts ts' : List Token} {ds : List ConfDefinition}
      {key : CString} {digits : List Char} (hleft : left.type = .leftBrace)
      (hname : name.type = .string) (hright : right.type = .rightBrace)
      (hdefs : DefinitionSets (osStrdup name.text) ts key digits) (hrest : SectionList ts' ds) :
      ConfigurationSets (left :: name :: right :: ts ++ ts') (osStrdup name.text) key digits
  | there {ts ts' : List Token} {ds : List ConfDefinition} {sect key : CString}
      {digits : List Char} (hsect : SectionRule ts ds)
      (hrest : ConfigurationSets ts' sect key digits) :
      ConfigurationSets (ts ++ ts') sect key digits

/-- In the file, the digits are the value of the key. -/
def SetsInteger (text : List Char) (sect key : CString) (digits : List Char) : Prop :=
  ∃ conf last, tokens .none text = conf ++ [last] ∧ last.type = .eof ∧
    ConfigurationSets conf sect key digits

theorem DefinitionSets.definition {sect : CString} {ts : List Token} {key : CString}
    {digits : List Char} (h : DefinitionSets sect ts key digits) :
    (∃ t ∈ ts, t.type = .integer ∧ t.text = digits) ∧
      ∃ ds, DefinitionList sect ts ds ∧ ⟨sect, key, .int (atoi (osStrdup digits))⟩ ∈ ds := by
  induction h with
  | @here key eq int ts ds hkey heq hint hrest =>
    have hdef : DefinitionRule sect [key, eq, int] _ := .mk hkey heq (.int hint)
    exact ⟨⟨int, by simp, hint, rfl⟩, _, .cons hdef hrest, List.mem_cons_self⟩
  | there hdef hrest ih =>
    obtain ⟨⟨t, ht, htext⟩, ds, hds, hmem⟩ := ih
    exact ⟨⟨t, List.mem_append_right _ ht, htext⟩, _, .cons hdef hds,
      List.mem_cons_of_mem _ hmem⟩

theorem ConfigurationSets.definition {ts : List Token} {sect key : CString}
    {digits : List Char} (h : ConfigurationSets ts sect key digits) :
    (∃ t ∈ ts, t.type = .integer ∧ t.text = digits) ∧
      ∃ ds, SectionList ts ds ∧ ⟨sect, key, .int (atoi (osStrdup digits))⟩ ∈ ds := by
  induction h with
  | here hleft hname hright hdefs hrest =>
    obtain ⟨⟨t, ht, htext⟩, ds, hds, hmem⟩ := hdefs.definition
    exact ⟨⟨t, by simp [ht], htext⟩, _, .cons (.mk hleft hname hright hds) hrest,
      List.mem_append_left _ hmem⟩
  | there hsect hrest ih =>
    obtain ⟨⟨t, ht, htext⟩, ds, hds, hmem⟩ := ih
    exact ⟨⟨t, List.mem_append_right _ ht, htext⟩, _, .cons hsect hds,
      List.mem_append_right _ hmem⟩

theorem DefinitionList.sets {sect : CString} {ts : List Token} {ds : List ConfDefinition}
    (h : DefinitionList sect ts ds) {d : ConfDefinition} (hd : d ∈ ds) {n : Int}
    (hn : d.value = .int n) :
    d.sectionName = sect ∧
      ∃ digits, DefinitionSets sect ts d.key digits ∧ n = atoi (osStrdup digits) := by
  induction h with
  | empty => cases hd
  | @cons ts ts' e ds hdef hrest ih =>
    rcases List.mem_cons.mp hd with rfl | hd
    · cases hdef with
      | @mk key eq vs v hkey heq hvalue =>
        replace hn : v = .int n := hn
        cases hvalue with
        | @int t ht =>
          cases hn
          exact ⟨rfl, t.text, .here hkey heq ht hrest, rfl⟩
        | strings ht hvs =>
          unfold stringsValue at hn
          split_ifs at hn
    · obtain ⟨hsect, digits, hsets, hdigits⟩ := ih hd
      exact ⟨hsect, digits, .there hdef hsets, hdigits⟩

theorem SectionList.sets {ts : List Token} {ds : List ConfDefinition} (h : SectionList ts ds)
    {d : ConfDefinition} (hd : d ∈ ds) {n : Int} (hn : d.value = .int n) :
    ∃ digits, ConfigurationSets ts d.sectionName d.key digits ∧
      n = atoi (osStrdup digits) := by
  induction h with
  | empty => cases hd
  | @cons ts ts' ds ds' hsect hrest ih =>
    rcases List.mem_append.mp hd with hd | hd
    · cases hsect with
      | mk hleft hname hright hdefs =>
        obtain ⟨hsectName, digits, hsets, hdigits⟩ := hdefs.sets hd hn
        rw [hsectName]
        exact ⟨digits, .here hleft hname hright hsets hrest, hdigits⟩
    · obtain ⟨digits, hsets, hdigits⟩ := ih hd
      exact ⟨digits, .there hsect hsets, hdigits⟩

/-- Its value is a string of digits, and the definition has what `atoi`
makes of them. -/
theorem SetsInteger.definition {text : List Char} {sect key : CString} {digits : List Char}
    (h : SetsInteger text sect key digits) {ds : List ConfDefinition}
    (hds : Derivable (tokens .none text) ds) :
    NoNul digits ∧ ⟨sect, key, .int (atoi digits)⟩ ∈ ds := by
  obtain ⟨conf, last, hts, hlast, hsets⟩ := h
  obtain ⟨⟨t, ht, htype, rfl⟩, ds', hds', hmem⟩ := hsets.definition
  have htext := tokens_text .none text t (by rw [hts]; exact List.mem_append_left _ ht)
  have hnul : NoNul t.text := by
    intro hzero
    exact absurd ((htext.integer htype).2 _ hzero) (by decide)
  rw [osStrdup_of_noNul hnul] at hmem
  obtain rfl := hds.unique ⟨conf, last, hts, hlast, hds'⟩
  exact ⟨hnul, hmem⟩

/-- Every integer of a configuration comes from digits. -/
theorem Derivable.sets {text : List Char} {ds : List ConfDefinition}
    (h : Derivable (tokens .none text) ds) {d : ConfDefinition} (hd : d ∈ ds) {n : Int}
    (hn : d.value = .int n) :
    ∃ digits, SetsInteger text d.sectionName d.key digits ∧ n = atoi digits := by
  have hds := h
  obtain ⟨conf, last, hts, hlast, hconf⟩ := h
  obtain ⟨digits, hsets, hdigits⟩ := hconf.sets hd hn
  have hinteger : SetsInteger text d.sectionName d.key digits :=
    ⟨conf, last, hts, hlast, hsets⟩
  rw [osStrdup_of_noNul (hinteger.definition hds).1] at hdigits
  exact ⟨digits, hinteger, hdigits⟩

/-! ## Integers that are kept -/

/-- The number that the digits denote. -/
def numeral (digits : List Char) : Nat := Nat.ofDigitChars 10 digits 0

theorem atoi_eq_numeral_iff (digits : List Char) :
    atoi digits = numeral digits ↔ numeral digits < 2 ^ 31 := by
  constructor
  · intro h
    have hhigh := (atoi_isInt32 digits).2
    rw [h] at hhigh
    exact_mod_cast hhigh
  · intro h
    rw [atoi, ← numeral, Int.min_eq_left (by omega)]
    exact toInt32_of_isInt32 ⟨by omega, by exact_mod_cast h⟩

theorem a6oConfGetUint_of_valueOf {conf : A6oConf} {sect key : CString} {n : Int}
    (h : valueOf conf sect key = some (.int n)) : a6oConfGetUint conf sect key = n := by
  obtain ⟨k, hget, hv⟩ := Option.map_eq_some_iff.mp h
  rw [a6oConfGetUint, hget]
  obtain ⟨name, value⟩ := k
  replace hv : value = .int n := hv
  rw [hv]

/-- The number of the digits is stored, returned, and there again when the
store was saved and reloaded. -/
structure IntegerKept (text : List Char) (sect key : CString) (digits : List Char) : Prop where
  stored : valueOf (loadedConf text) sect key = some (.int (numeral digits))
  returned : a6oConfGetUint (loadedConf text) sect key = numeral digits
  reloaded : valueOf (loadedConf (savedText (loadedConf text))) sect key =
    some (.int (numeral digits))

/-- Loading fails, or every integer of the file is kept. -/
def IntegersKept (text : List Char) : Prop :=
  LoadSucceeds a6oConfNew (some text) →
    ∀ sect key digits, SetsInteger text sect key digits → IntegerKept text sect key digits

/-- Loading fails, or every integer of the file is below 2^31. -/
def IntegersFit (text : List Char) : Prop :=
  LoadSucceeds a6oConfNew (some text) →
    ∀ sect key digits, SetsInteger text sect key digits → numeral digits < 2 ^ 31

/-- The names are identifiers, with or without quotes. -/
def NamesBare (text : List Char) : Prop :=
  ∀ ds, Derivable (tokens .none text) ds →
    ∀ d ∈ ds, isName d.sectionName = true ∧ isName d.key = true

theorem Loads.valueOf_integer {text : List Char} {ds : List ConfDefinition}
    (h : Loads text ds) {sect key : CString} {digits : List Char}
    (hsets : SetsInteger text sect key digits) :
    Conf.valueOf (loadedConf text) sect key = some (.int (atoi digits)) := by
  have hwf : A6oConfValue.WellFormed (.int (atoi digits)) := atoi_isInt32 digits
  exact h.valueOf.mpr ⟨_, (hsets.definition h.derivable).2, rfl, rfl,
    a6oConfValueSet_of_wellFormed hwf⟩

/-- With proper names, numbers that fit survive. -/
theorem Loads.survives {text : List Char} {ds : List ConfDefinition} (h : Loads text ds)
    (hnames : NamesBare text)
    (hfit : ∀ sect key digits, SetsInteger text sect key digits → numeral digits < 2 ^ 31) :
    loadedConf (savedText (loadedConf text)) = loadedConf text := by
  refine ((h.saveable fun d hd => ?_).loads h.noEmptySection).2
  obtain ⟨hsect, hkey⟩ := hnames ds h.derivable d hd
  refine ⟨hsect, hkey, fun n hn => ?_⟩
  obtain ⟨digits, hsets, rfl⟩ := h.derivable.sets hd hn
  rw [(atoi_eq_numeral_iff digits).mpr (hfit _ _ _ hsets)]
  exact Int.natCast_nonneg _

/-- **Integers are kept just when they are below 2^31**, in a file whose
names are identifiers; from 2^31 on they are lost whatever the names. -/
theorem integersKept_iff (text : List Char) :
    (IntegersKept text → IntegersFit text) ∧
      (NamesBare text → (IntegersKept text ↔ IntegersFit text)) := by
  have hfit : IntegersKept text → IntegersFit text := by
    intro hkept hload sect key digits hsets
    obtain ⟨ds, hds⟩ := loadSucceeds_iff_loads.mp hload
    have hstored := (hkept hload sect key digits hsets).stored
    rw [hds.valueOf_integer hsets] at hstored
    injection hstored with hvalue
    injection hvalue with hvalue
    exact (atoi_eq_numeral_iff digits).mp hvalue
  refine ⟨hfit, fun hnames => ⟨hfit, ?_⟩⟩
  intro h hload sect key digits hsets
  obtain ⟨ds, hds⟩ := loadSucceeds_iff_loads.mp hload
  have hstored := hds.valueOf_integer hsets
  rw [(atoi_eq_numeral_iff digits).mpr (h hload sect key digits hsets)] at hstored
  refine ⟨hstored, a6oConfGetUint_of_valueOf hstored, ?_⟩
  rw [hds.survives hnames (h hload)]
  exact hstored

/-- The first number that does not fit. -/
def wideFile : List Char := "[a]\nk = 2147483648\n".toList

/-- It is stored with the opposite sign, and is not in what is reloaded. -/
theorem not_integersKept_wideFile :
    LoadSucceeds a6oConfNew (some wideFile) ∧
      SetsInteger wideFile ['a'] ['k'] "2147483648".toList ∧
      a6oConfGetUint (loadedConf wideFile) ['a'] ['k'] = -2147483648 ∧
      valueOf (loadedConf (savedText (loadedConf wideFile))) ['a'] ['k'] = none ∧
      ¬ IntegersKept wideFile := by
  have hload : LoadSucceeds a6oConfNew (some wideFile) := by
    rw [loadSucceeds_iff_parse]
    decide +kernel
  have hsets : SetsInteger wideFile ['a'] ['k'] "2147483648".toList := by
    refine ⟨headTokens ['a'] ++ [⟨.string, ['k']⟩, ⟨.equalSign, ['=']⟩,
      ⟨.integer, "2147483648".toList⟩] ++ [], ⟨.eof, []⟩, by decide +kernel, rfl, ?_⟩
    exact .here rfl rfl rfl (.here rfl rfl rfl .empty) .empty
  have hget : a6oConfGetUint (loadedConf wideFile) ['a'] ['k'] = -2147483648 := by
    decide +kernel
  refine ⟨hload, hsets, hget, by decide +kernel, ?_⟩
  intro hkept
  have hreturned := (hkept hload _ _ _ hsets).returned
  rw [hget] at hreturned
  exact absurd hreturned (by decide)

/-- The last number that does. -/
def narrowFile : List Char := "[a]\nk = 2147483647\n".toList

theorem integersKept_narrowFile : IntegersKept narrowFile := by
  have htokens : tokens .none narrowFile = (headTokens ['a'] ++ ([⟨.string, ['k']⟩,
      ⟨.equalSign, ['=']⟩, ⟨.integer, "2147483647".toList⟩] ++ [])) ++ [⟨.eof, []⟩] := by
    decide +kernel
  have hderivable : Derivable (tokens .none narrowFile) [⟨['a'], ['k'], .int 2147483647⟩] :=
    ⟨_, _, htokens, rfl, .cons (.mk rfl rfl rfl (.cons (.mk rfl rfl (.int rfl)) .empty)) .empty⟩
  have hnames : NamesBare narrowFile := by
    intro ds hds d hd
    rw [← hderivable.unique hds, List.mem_singleton] at hd
    rw [hd]
    exact ⟨rfl, rfl⟩
  refine ((integersKept_iff narrowFile).2 hnames).mpr ?_
  rintro - sect key digits ⟨conf, last, hts, -, hsets⟩
  obtain ⟨t, ht, htype, rfl⟩ := hsets.definition.1
  have hmem : t ∈ tokens .none narrowFile := by
    rw [hts]
    exact List.mem_append_left _ ht
  -- the file has one integer
  have hall : ∀ t ∈ tokens .none narrowFile, t.type = .integer →
      numeral t.text < 2 ^ 31 := by
    rw [htokens]
    decide +kernel
  exact hall t hmem htype

end Armadito.Conf
