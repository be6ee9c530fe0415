import Armadito.Conf.Parse
import Armadito.Conf.Store

/-!
# Conf.Load

`a6o_conf_load_file`: every definition of the file is added to the
configuration. The status of the parser is dropped.
-/

namespace Armadito.Conf

/-- `conf_load_parser_cb`. -/
def confLoadParserCb : ConfParserCallback A6oConf :=
  fun sect key value conf => a6oConfAddValue conf sect key value

/-- `a6o_conf_load_file`: the result of the parser is not looked at. -/
def a6oConfLoadFile (conf : A6oConf) (file : Option (List Char)) : Int × A6oConf :=
  (0, (a6oConfParserParse confLoadParserCb file conf).2)

/-! ## Which definitions are added -/

/-- The keys are new to the configuration, and to each other. -/
structure NewKeys (conf : A6oConf) (ds : List ConfDefinition) : Prop where
  absent : ∀ d ∈ ds, keyEntryGet conf.sections d.sectionName d.key = none
  distinct : (ds.map fun d => (d.sectionName, d.key)).Nodup

theorem callOn_load (d : ConfDefinition) (conf : A6oConf) :
    callOn confLoadParserCb d conf =
      addEntry conf d.sectionName ⟨d.key, a6oConfValueSet d.value⟩ := rfl

/-- What is absent after an addition was absent, and is not the new key. -/
theorem keyEntryGet_addEntry_eq_none {conf : A6oConf} {sect : CString} {k : KeyEntry}
    (h : keyEntryGet conf.sections sect k.key = none) {sect' key' : CString} :
    keyEntryGet (addEntry conf sect k).2.sections sect' key' = none ↔
      (sect', key') ≠ (sect, k.key) ∧ keyEntryGet conf.sections sect' key' = none := by
  have hget := keyEntryGet_keyEntryAdd h sect' key'
  show keyEntryGet (keyEntryAdd conf.sections sect k).2 sect' key' = none ↔ _
  rw [hget]
  by_cases heq : sect' = sect ∧ key' = k.key <;> simp [heq]

theorem newKeys_cons {conf : A6oConf} {d : ConfDefinition} {ds : List ConfDefinition}
    (h : keyEntryGet conf.sections d.sectionName d.key = none) :
    NewKeys conf (d :: ds) ↔ NewKeys (callOn confLoadParserCb d conf).2 ds := by
  have habsent : ∀ e : ConfDefinition,
      keyEntryGet (callOn confLoadParserCb d conf).2.sections e.sectionName e.key = none ↔
        (e.sectionName, e.key) ≠ (d.sectionName, d.key) ∧
          keyEntryGet conf.sections e.sectionName e.key = none := by
    intro e
    rw [callOn_load]
    exact keyEntryGet_addEntry_eq_none h
  constructor
  · rintro ⟨hall, hnodup⟩
    rw [List.map_cons, List.nodup_cons] at hnodup
    refine ⟨?_, hnodup.2⟩
    intro e he
    rw [habsent]
    refine ⟨?_, hall e (List.mem_cons_of_mem d he)⟩
    intro heq
    exact hnodup.1 (List.mem_map.mpr ⟨e, he, heq⟩)
  · rintro ⟨hall, hnodup⟩
    constructor
    · intro e he
      rcases List.mem_cons.mp he with rfl | he
      · exact h
      · exact ((habsent e).mp (hall e he)).2
    · rw [List.map_cons, List.nodup_cons]
      refine ⟨?_, hnodup⟩
      intro hmem
      obtain ⟨e, he, heq⟩ := List.mem_map.mp hmem
      exact ((habsent e).mp (hall e he)).1 heq

/-- Every definition is added just when the keys are new. -/
theorem feed_load_iff (conf : A6oConf) (ds : List ConfDefinition) :
    (feed confLoadParserCb ds conf).2 = true ↔ NewKeys conf ds := by
  induction ds generalizing conf with
  | nil =>
    refine iff_of_true rfl ⟨?_, List.nodup_nil⟩
    intro d hd
    cases hd
  | cons d ds ih =>
    by_cases h : (callOn confLoadParserCb d conf).1 = 0
    · rw [feed_cons_of_zero _ h, ih, newKeys_cons]
      exact addEntry_status.mp h
    · rw [feed_cons_of_ne _ h]
      refine iff_of_false Bool.false_ne_true ?_
      intro hnew
      exact h (addEntry_status.mpr (hnew.absent d List.mem_cons_self))

/-! ## Errors -/

/-- The file was opened, its whole text is a configuration, and every
definition was added. -/
def LoadSucceeds (conf : A6oConf) (file : Option (List Char)) : Prop :=
  ∃ text ds, file = some text ∧ Derivable (tokens .none text) ds ∧
    (feed confLoadParserCb ds conf).2 = true

/-- That is when the parser returns 0. -/
theorem loadSucceeds_iff_parse (conf : A6oConf) (file : Option (List Char)) :
    LoadSucceeds conf file ↔ (a6oConfParserParse confLoadParserCb file conf).1 = 0 := by
  cases file with
  | none =>
    refine iff_of_false ?_ ?_
    · rintro ⟨text, ds, hfile, _⟩
      cases hfile
    · show ¬ (-1 : Int) = 0
      omega
  | some text =>
    rw [parse_eq_zero_iff]
    constructor
    · rintro ⟨text', ds, hfile, h⟩
      cases hfile
      exact ⟨ds, h⟩
    · rintro ⟨ds, h⟩
      exact ⟨text, ds, rfl, h⟩

/-- Errors are reported and leave no trace. -/
def LoadErrorsReported (conf : A6oConf) (file : Option (List Char)) : Prop :=
  ((a6oConfLoadFile conf file).1 = 0 ↔ LoadSucceeds conf file) ∧
    ((a6oConfLoadFile conf file).1 ≠ 0 → (a6oConfLoadFile conf file).2 = conf)

/-- **Errors are handled only where there are none**: the file opens, its
text is a configuration, and its keys are new. -/
theorem loadErrorsReported_iff (conf : A6oConf) (file : Option (List Char)) :
    LoadErrorsReported conf file ↔
      ∃ text ds, file = some text ∧ Derivable (tokens .none text) ds ∧ NewKeys conf ds := by
  simp only [← feed_load_iff]
  constructor
  · intro h
    exact h.1.mp rfl
  · intro h
    exact ⟨iff_of_true rfl h, fun hne => absurd rfl hne⟩

/-- A definition, and a section that is not finished. -/
def truncatedFile : List Char := "[a]\nk = 1\n[".toList

/-- The parser fails, the status is 0 and the definition has been added. -/
theorem load_truncatedFile :
    (a6oConfParserParse confLoadParserCb (some truncatedFile) a6oConfNew).1 = -2 ∧
      (a6oConfLoadFile a6oConfNew (some truncatedFile)).1 = 0 ∧
      (a6oConfLoadFile a6oConfNew (some truncatedFile)).2.sections =
        [⟨"a".toList, [⟨"k".toList, .int 1⟩]⟩] ∧
      ¬ LoadErrorsReported a6oConfNew (some truncatedFile) := by
  have hparse : (a6oConfParserParse confLoadParserCb (some truncatedFile) a6oConfNew).1 = -2 := by
    decide +kernel
  refine ⟨hparse, rfl, by decide +kernel, ?_⟩
  intro h
  have hsucceeds := h.1.mp rfl
  rw [loadSucceeds_iff_parse, hparse] at hsucceeds
  cases hsucceeds

end Armadito.Conf
