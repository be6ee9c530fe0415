import Armadito.Conf.Load

/-!
# Conf.Order

Several configuration files loaded one after the other, as the daemon does
with a directory, in the order `readdir` gives.

A load makes the calls for a list of definitions that depends on the text
alone, up to the first that is refused. When the store it starts from has
none of the keys it would add to an empty one, it is refused the same
definition there, so it adds the same values.
-/

namespace Armadito.Conf

/-! ## The definitions of a text -/

/-- The calls of the parser are those for one list of definitions, whatever
the callback does, up to the first that fails. -/
theorem parse_eq_feed (text : List Char) :
    ∃ ds, ∀ {σ : Type} (callback : ConfParserCallback σ) (u : σ),
      (a6oConfParserParse callback (some text) u).2 = (feed callback ds u).1 := by
  obtain ⟨ds, hds, hmax, -⟩ := parse_record text
  refine ⟨ds, ?_⟩
  intro σ callback u
  by_cases hfeed : (feed callback ds u).2 = true
  -- no call fails: there is nothing completed behind the longest list
  · obtain ⟨more, hmore, huser⟩ := parse_completed callback hds hfeed
    have hnil : more = [] := by
      have hlen := (hmax _ hmore).length_le
      rw [List.length_append] at hlen
      exact List.length_eq_zero_iff.mp (by omega)
    rw [huser, hnil, List.append_nil]
  -- a call fails: the parser leaves there
  · rw [parse_failed callback hds hfeed]

/-- A file that cannot be opened has no definitions. -/
theorem load_eq_feed (file : Option (List Char)) :
    ∃ ds, ∀ conf, (a6oConfLoadFile conf file).2 = (feed confLoadParserCb ds conf).1 := by
  cases file with
  | none => exact ⟨[], fun _ => rfl⟩
  | some text =>
    obtain ⟨ds, hds⟩ := parse_eq_feed text
    exact ⟨ds, fun conf => hds confLoadParserCb conf⟩

/-! ## What a load adds -/

/-- The value stored for a key, as `key_entry_get` finds it. -/
def valueOf (conf : A6oConf) (sect key : CString) : Option A6oConfValue :=
  (keyEntryGet conf.sections sect key).map KeyEntryOf.value

theorem valueOf_eq_none {conf : A6oConf} {sect key : CString} :
    valueOf conf sect key = none ↔ keyEntryGet conf.sections sect key = none := by
  rw [valueOf, Option.map_eq_none_iff]

theorem a6oConfHasKey_iff {conf : A6oConf} {sect key : CString} :
    a6oConfHasKey conf sect key = true ↔ valueOf conf sect key ≠ none := by
  rw [a6oConfHasKey, Option.isSome_iff_ne_none, ne_eq, ne_eq, valueOf_eq_none]

/-- An addition is refused for a key that is there. -/
theorem callOn_load_status {d : ConfDefinition} {conf : A6oConf} :
    (callOn confLoadParserCb d conf).1 = 0 ↔ valueOf conf d.sectionName d.key = none := by
  rw [callOn_load, addEntry_status, valueOf_eq_none]

theorem valueOf_callOn_load {d : ConfDefinition} {conf : A6oConf}
    (h : valueOf conf d.sectionName d.key = none) (sect key : CString) :
    valueOf (callOn confLoadParserCb d conf).2 sect key =
      if sect = d.sectionName ∧ key = d.key then some (a6oConfValueSet d.value)
      else valueOf conf sect key := by
  rw [valueOf_eq_none] at h
  have hget := keyEntryGet_keyEntryAdd (k := ⟨d.key, a6oConfValueSet d.value⟩) h sect key
  show ((keyEntryGet (keyEntryAdd conf.sections d.sectionName
    ⟨d.key, a6oConfValueSet d.value⟩).2 sect key).map KeyEntryOf.value) = _
  rw [hget]
  split <;> rfl

/-- What is stored stays, until the end of the load. -/
theorem valueOf_feed_of_some {ds : List ConfDefinition} {conf : A6oConf}
    {sect key : CString} {v : A6oConfValue} (h : valueOf conf sect key = some v) :
    valueOf (feed confLoadParserCb ds conf).1 sect key = some v := by
  induction ds generalizing conf with
  | nil => exact h
  | cons d ds ih =>
    by_cases hret : (callOn confLoadParserCb d conf).1 = 0
    · have hnew := callOn_load_status.mp hret
      rw [feed_cons_of_zero _ hret]
      refine ih ?_
      rw [valueOf_callOn_load hnew, if_neg ?_, h]
      rintro ⟨rfl, rfl⟩
      rw [h] at hnew
      cases hnew
    · rw [feed_cons_of_ne _ hret, callOn_load]
      rw [callOn_load] at hret
      rwa [addEntry_failed hret]

/-- The store is `base` with `added` beside it. -/
def IsUnion (conf base added : A6oConf) : Prop :=
  ∀ sect key, valueOf conf sect key = (valueOf base sect key).or (valueOf added sect key)

/-- No key is in both. -/
def KeysDisjoint (conf conf' : A6oConf) : Prop :=
  ∀ sect key, ¬ (a6oConfHasKey conf sect key = true ∧ a6oConfHasKey conf' sect key = true)

theorem keysDisjoint_iff {conf conf' : A6oConf} :
    KeysDisjoint conf conf' ↔
      ∀ sect key, valueOf conf sect key = none ∨ valueOf conf' sect key = none := by
  simp only [KeysDisjoint, a6oConfHasKey_iff, ne_eq, not_and_or, not_not]

/-- One definition, added to the store and to what was added so far: both
are refused it, or neither. -/
theorem callOn_load_union {d : ConfDefinition} {conf base added : A6oConf}
    (h : IsUnion conf base added) (hbase : (callOn confLoadParserCb d added).1 = 0 →
      valueOf base d.sectionName d.key = none) :
    ((callOn confLoadParserCb d conf).1 = 0 ↔ (callOn confLoadParserCb d added).1 = 0) ∧
      IsUnion (callOn confLoadParserCb d conf).2 base (callOn confLoadParserCb d added).2 := by
  have hconf := h d.sectionName d.key
  by_cases hret : (callOn confLoadParserCb d added).1 = 0
  · have hadded := callOn_load_status.mp hret
    have hnone : valueOf conf d.sectionName d.key = none := by
      rw [hconf, hbase hret, hadded]
      rfl
    refine ⟨iff_of_true (callOn_load_status.mpr hnone) hret, ?_⟩
    intro sect key
    rw [valueOf_callOn_load hnone, valueOf_callOn_load hadded]
    by_cases heq : sect = d.sectionName ∧ key = d.key
    · rw [if_pos heq, if_pos heq, heq.1, heq.2, hbase hret, Option.none_or]
    · rw [if_neg heq, if_neg heq, h sect key]
  · have hsome : valueOf conf d.sectionName d.key ≠ none := by
      intro hnone
      rw [hnone] at hconf
      exact hret (callOn_load_status.mpr (Option.or_eq_none_iff.mp hconf.symm).2)
    have hne : (callOn confLoadParserCb d conf).1 ≠ 0 :=
      fun hzero => hsome (callOn_load_status.mp hzero)
    refine ⟨iff_of_false hne hret, ?_⟩
    rw [callOn_load] at hne hret ⊢
    rw [callOn_load, addEntry_failed hne, addEntry_failed hret]
    exact h

/-- The calls of a load add the same values to the two stores, when the
keys that are finally added are new to `base`. -/
theorem feed_load_union {base : A6oConf} (ds : List ConfDefinition) :
    ∀ {conf added : A6oConf}, IsUnion conf base added →
      KeysDisjoint base (feed confLoadParserCb ds added).1 →
      IsUnion (feed confLoadParserCb ds conf).1 base (feed confLoadParserCb ds added).1 := by
  induction ds with
  | nil =>
    intro conf added h _
    exact h
  | cons d ds ih =>
    intro conf added h hdisj
    have hbase : (callOn confLoadParserCb d added).1 = 0 →
        valueOf base d.sectionName d.key = none := by
      intro hret
      have hstored := valueOf_callOn_load (callOn_load_status.mp hret) d.sectionName d.key
      rw [if_pos ⟨rfl, rfl⟩] at hstored
      rw [feed_cons_of_zero _ hret, keysDisjoint_iff] at hdisj
      rcases hdisj d.sectionName d.key with hnone | hnone
      · exact hnone
      · rw [valueOf_feed_of_some hstored] at hnone
        cases hnone
    obtain ⟨hiff, hunion⟩ := callOn_load_union h hbase
    by_cases hret : (callOn confLoadParserCb d added).1 = 0
    · rw [feed_cons_of_zero _ hret] at hdisj ⊢
      rw [feed_cons_of_zero _ (hiff.mpr hret)]
      exact ih hunion hdisj
    · rw [feed_cons_of_ne _ hret, feed_cons_of_ne _ (fun hzero => hret (hiff.mp hzero))]
      exact hunion

/-- Loading a file into a store that has none of its keys. -/
theorem load_union {conf : A6oConf} {file : Option (List Char)}
    (h : KeysDisjoint conf (a6oConfLoadFile a6oConfNew file).2) :
    IsUnion (a6oConfLoadFile conf file).2 conf (a6oConfLoadFile a6oConfNew file).2 := by
  obtain ⟨ds, hds⟩ := load_eq_feed file
  rw [hds] at h ⊢
  rw [hds]
  refine feed_load_union ds ?_ h
  intro sect key
  exact (Option.or_none).symm

theorem IsUnion.comm {conf conf' a b : A6oConf} (h : IsUnion conf a b)
    (h' : IsUnion conf' b a) (hdisj : KeysDisjoint a b) (sect key : CString) :
    valueOf conf sect key = valueOf conf' sect key := by
  rw [h, h']
  rcases keysDisjoint_iff.mp hdisj sect key with hnone | hnone
  · rw [hnone, Option.none_or, Option.or_none]
  · rw [hnone, Option.none_or, Option.or_none]

/-- **Independent files can be loaded in any order.** When no key is added
to an empty store by both files, the two orders of loading them give every
key the same value. Neither text needs to be well formed. -/
theorem load_comm (a b : Option (List Char))
    (h : KeysDisjoint (a6oConfLoadFile a6oConfNew a).2 (a6oConfLoadFile a6oConfNew b).2)
    (sect key : CString) :
    valueOf (a6oConfLoadFile (a6oConfLoadFile a6oConfNew a).2 b).2 sect key =
      valueOf (a6oConfLoadFile (a6oConfLoadFile a6oConfNew b).2 a).2 sect key := by
  have h' : KeysDisjoint (a6oConfLoadFile a6oConfNew b).2 (a6oConfLoadFile a6oConfNew a).2 :=
    fun s k hboth => h s k hboth.symm
  exact (load_union h).comm (load_union h') h sect key

theorem a6oConfHasKey_singleton {conf : A6oConf} {sect : CString} {k : KeyEntry}
    (hconf : conf.sections = [⟨sect, [k]⟩]) {sect' key : CString}
    (h : a6oConfHasKey conf sect' key = true) : key = k.key := by
  rw [a6oConfHasKey, hconf, keyEntryGet] at h
  obtain ⟨found, hfound⟩ := Option.isSome_iff_exists.mp h
  obtain ⟨s, hs, hk⟩ := Option.bind_eq_some_iff.mp hfound
  have hmem := List.mem_of_find?_eq_some hs
  rw [List.mem_singleton] at hmem
  subst hmem
  have hkey := List.find?_some hk
  have hmem := List.mem_of_find?_eq_some hk
  rw [List.mem_singleton] at hmem
  subst hmem
  exact (of_decide_eq_true hkey).symm

/-- The file that ends in a syntax error, and one that goes on in the same
section and then repeats its key. -/
theorem load_comm_truncated :
    valueOf (a6oConfLoadFile (a6oConfLoadFile a6oConfNew (some truncatedFile)).2
        (some "[a]\nj = 2\nj = 3".toList)).2 "a".toList "k".toList =
      valueOf (a6oConfLoadFile (a6oConfLoadFile a6oConfNew
        (some "[a]\nj = 2\nj = 3".toList)).2 (some truncatedFile)).2
        "a".toList "k".toList := by
  refine load_comm (some truncatedFile) (some "[a]\nj = 2\nj = 3".toList) ?_ _ _
  have ha : (a6oConfLoadFile a6oConfNew (some truncatedFile)).2.sections =
      [⟨"a".toList, [⟨"k".toList, .int 1⟩]⟩] := by decide +kernel
  have hb : (a6oConfLoadFile a6oConfNew (some "[a]\nj = 2\nj = 3".toList)).2.sections =
      [⟨"a".toList, [⟨"j".toList, .int 2⟩]⟩] := by decide +kernel
  rintro sect key ⟨hka, hkb⟩
  have hk := a6oConfHasKey_singleton ha hka
  rw [a6oConfHasKey_singleton hb hkb] at hk
  exact absurd hk (by decide)

end Armadito.Conf
