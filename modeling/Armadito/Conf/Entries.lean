import Armadito.Lib.NamedArray

/-!
# Conf.Entries

`conf.c`: sections of keys with their values. Both are arrays that are
searched from the front, added to at the end and changed in place, so names
stay distinct.

The arrays are the same whatever the names and the values are: `Conf.Store`
has those of the loader, `Conf.Api` those of the whole interface.
-/

namespace Armadito.Conf

open NamedArray

/-- `struct key_entry`. -/
structure KeyEntryOf (ν τ : Type) where
  key : ν
  value : τ
  deriving DecidableEq, Repr

/-- `struct section_entry`. -/
structure SectionEntryOf (ν τ : Type) where
  sect : ν
  keys : List (KeyEntryOf ν τ)
  deriving DecidableEq, Repr

variable {ν τ : Type}

/-- No section name twice, and no key twice in a section. -/
structure Distinct (sections : List (SectionEntryOf ν τ)) : Prop where
  sects : (sections.map SectionEntryOf.sect).Nodup
  keys : ∀ s ∈ sections, (s.keys.map KeyEntryOf.key).Nodup

/-- `struct a6o_conf`. -/
@[ext] structure A6oConfOf (ν τ : Type) where
  sections : List (SectionEntryOf ν τ)
  distinct : Distinct sections

variable [DecidableEq ν]

/-! ## Search -/

/-- `section_entry_get`. -/
def sectionEntryGet (sections : List (SectionEntryOf ν τ)) (sect : ν) :
    Option (SectionEntryOf ν τ) :=
  search SectionEntryOf.sect sections sect

/-- `key_entry_get_sect`. -/
def keyEntryGetSect (s : SectionEntryOf ν τ) (key : ν) : Option (KeyEntryOf ν τ) :=
  search KeyEntryOf.key s.keys key

/-- `key_entry_get`. -/
def keyEntryGet (sections : List (SectionEntryOf ν τ)) (sect key : ν) :
    Option (KeyEntryOf ν τ) :=
  (sectionEntryGet sections sect).bind fun s => keyEntryGetSect s key

/-- `a6o_conf_has_key`. -/
def a6oConfHasKey (conf : A6oConfOf ν τ) (sect key : ν) : Bool :=
  (keyEntryGet conf.sections sect key).isSome

/-! ## Additions -/

omit [DecidableEq ν] in
/-- `section_entry_add`. -/
def sectionEntryAdd (sections : List (SectionEntryOf ν τ)) (sect : ν) :
    List (SectionEntryOf ν τ) :=
  sections ++ [⟨sect, []⟩]

omit [DecidableEq ν] in
/-- `key_entry_add_sect`. -/
def keyEntryAddSect (k : KeyEntryOf ν τ) (s : SectionEntryOf ν τ) : SectionEntryOf ν τ :=
  { s with keys := s.keys ++ [k] }

/-- The first lines of `key_entry_add`: the section is added when missing. -/
def withSection (sections : List (SectionEntryOf ν τ)) (sect : ν) :
    List (SectionEntryOf ν τ) :=
  if (sectionEntryGet sections sect).isNone then sectionEntryAdd sections sect else sections

/-- `key_entry_add`, with the value that its caller sets on success. A
duplicate key is refused, after the section was made. -/
def keyEntryAdd (sections : List (SectionEntryOf ν τ)) (sect : ν) (k : KeyEntryOf ν τ) :
    Bool × List (SectionEntryOf ν τ) :=
  let sections := withSection sections sect
  if (keyEntryGet sections sect k.key).isSome then (false, sections)
  else (true, modify SectionEntryOf.sect sect (keyEntryAddSect k) sections)

omit [DecidableEq ν] in
@[simp] theorem keyEntryAddSect_sect (k : KeyEntryOf ν τ) (s : SectionEntryOf ν τ) :
    (keyEntryAddSect k s).sect = s.sect := rfl

theorem sectionEntryGet_eq_none {sections : List (SectionEntryOf ν τ)} {sect : ν} :
    sectionEntryGet sections sect = none ↔ sect ∉ sections.map SectionEntryOf.sect :=
  search_eq_none

theorem keyEntryGetSect_eq_none {s : SectionEntryOf ν τ} {key : ν} :
    keyEntryGetSect s key = none ↔ key ∉ s.keys.map KeyEntryOf.key :=
  search_eq_none

/-! ## What an addition does -/

theorem sectionEntryGet_withSection (sections : List (SectionEntryOf ν τ)) (sect : ν) :
    ∃ s, sectionEntryGet (withSection sections sect) sect = some s := by
  rw [← Option.isSome_iff_exists]
  unfold withSection
  split_ifs with hget
  · rw [sectionEntryGet, search_isSome]
    simp [sectionEntryAdd]
  · rwa [Option.isNone_iff_eq_none, ← ne_eq, ← Option.isSome_iff_ne_none] at hget

/-- An added section has no keys. -/
theorem keyEntryGet_withSection (sections : List (SectionEntryOf ν τ)) (sect sect' key : ν) :
    keyEntryGet (withSection sections sect) sect' key = keyEntryGet sections sect' key := by
  unfold withSection
  split_ifs with hget
  · rw [Option.isNone_iff_eq_none] at hget
    have hadd : sectionEntryGet (sectionEntryAdd sections sect) sect' =
        if sect' = sect then some ⟨sect, []⟩ else sectionEntryGet sections sect' :=
      search_concat hget rfl sect'
    rw [keyEntryGet, keyEntryGet, hadd]
    split_ifs with hsect
    · rw [hsect, hget]
      rfl
    · rfl
  · rfl

theorem keyEntryAdd_of_none {sections : List (SectionEntryOf ν τ)} {sect : ν}
    {k : KeyEntryOf ν τ} (h : keyEntryGet sections sect k.key = none) :
    keyEntryAdd sections sect k =
      (true, modify SectionEntryOf.sect sect (keyEntryAddSect k) (withSection sections sect)) := by
  simp [keyEntryAdd, keyEntryGet_withSection, h]

/-- The first key of a section. -/
theorem keyEntryAdd_of_not_mem {sections : List (SectionEntryOf ν τ)} {sect : ν}
    (h : sect ∉ sections.map SectionEntryOf.sect) (k : KeyEntryOf ν τ) :
    keyEntryAdd sections sect k = (true, sections ++ [⟨sect, [k]⟩]) := by
  have hget := sectionEntryGet_eq_none.mpr h
  have hkey : keyEntryGet sections sect k.key = none := by
    rw [keyEntryGet, hget, Option.bind_none]
  rw [keyEntryAdd_of_none hkey, withSection, if_pos (by rw [hget]; rfl), sectionEntryAdd,
    modify_append h]
  simp [NamedArray.modify, keyEntryAddSect]

/-- A further key of the last section. -/
theorem keyEntryAdd_last {before : List (SectionEntryOf ν τ)} {sect : ν}
    (h : sect ∉ before.map SectionEntryOf.sect) {keys : List (KeyEntryOf ν τ)}
    {k : KeyEntryOf ν τ} (hk : k.key ∉ keys.map KeyEntryOf.key) :
    keyEntryAdd (before ++ [⟨sect, keys⟩]) sect k =
      (true, before ++ [⟨sect, keys ++ [k]⟩]) := by
  have hget : sectionEntryGet (before ++ [⟨sect, keys⟩]) sect = some ⟨sect, keys⟩ := by
    rw [sectionEntryGet, search_concat (search_eq_none.mpr h) rfl, if_pos rfl]
  have hkey : keyEntryGet (before ++ [⟨sect, keys⟩]) sect k.key = none := by
    rw [keyEntryGet, hget, Option.bind_some, keyEntryGetSect_eq_none]
    exact hk
  rw [keyEntryAdd_of_none hkey, withSection, if_neg (by rw [hget]; simp), modify_append h]
  simp [NamedArray.modify, keyEntryAddSect]

/-- A duplicate key changes nothing: its section is there. -/
theorem keyEntryAdd_of_ne_none {sections : List (SectionEntryOf ν τ)} {sect : ν}
    {k : KeyEntryOf ν τ} (h : keyEntryGet sections sect k.key ≠ none) :
    keyEntryAdd sections sect k = (false, sections) := by
  have hget : sectionEntryGet sections sect ≠ none := by
    intro hnone
    rw [keyEntryGet, hnone] at h
    exact h rfl
  have hwith : withSection sections sect = sections := by
    rw [withSection, if_neg (by rwa [Option.isNone_iff_eq_none])]
  rw [← Option.isSome_iff_ne_none] at h
  simp [keyEntryAdd, hwith, h]

/-- After a successful addition the new key is found, the others as before. -/
theorem keyEntryGet_keyEntryAdd {sections : List (SectionEntryOf ν τ)} {sect : ν}
    {k : KeyEntryOf ν τ} (h : keyEntryGet sections sect k.key = none) (sect' key' : ν) :
    keyEntryGet (keyEntryAdd sections sect k).2 sect' key' =
      if sect' = sect ∧ key' = k.key then some k else keyEntryGet sections sect' key' := by
  rw [keyEntryAdd_of_none h, ← keyEntryGet_withSection sections sect sect']
  rw [← keyEntryGet_withSection sections sect] at h
  simp only [keyEntryGet, sectionEntryGet] at h ⊢
  rw [search_modify (keyEntryAddSect_sect k)]
  by_cases hsect : sect' = sect
  · subst hsect
    obtain ⟨s, hs⟩ := sectionEntryGet_withSection sections sect'
    rw [sectionEntryGet] at hs
    rw [hs] at h
    have hadd : keyEntryGetSect (keyEntryAddSect k s) key' =
        if key' = k.key then some k else keyEntryGetSect s key' :=
      search_concat h rfl key'
    rw [if_pos rfl, hs]
    simpa using hadd
  · rw [if_neg hsect, if_neg (fun h => hsect h.1)]

/-! ## Changes -/

omit [DecidableEq ν] in
/-- A value written into an entry. -/
def KeyEntryOf.setValue (value : τ) (k : KeyEntryOf ν τ) : KeyEntryOf ν τ :=
  { k with value := value }

/-- A value written into an entry of the section. -/
def keyEntrySetSect (key : ν) (value : τ) (s : SectionEntryOf ν τ) : SectionEntryOf ν τ :=
  { s with keys := modify KeyEntryOf.key key (KeyEntryOf.setValue value) s.keys }

/-- A value written into the entry that `key_entry_get` returns. -/
def keyEntrySet (sections : List (SectionEntryOf ν τ)) (sect key : ν) (value : τ) :
    List (SectionEntryOf ν τ) :=
  modify SectionEntryOf.sect sect (keyEntrySetSect key value) sections

omit [DecidableEq ν] in
@[simp] theorem KeyEntryOf.setValue_key (value : τ) (k : KeyEntryOf ν τ) :
    (k.setValue value).key = k.key := rfl

@[simp] theorem keyEntrySetSect_sect (key : ν) (value : τ) (s : SectionEntryOf ν τ) :
    (keyEntrySetSect key value s).sect = s.sect := rfl

theorem keyEntryGet_keyEntrySet (sections : List (SectionEntryOf ν τ)) (sect key : ν)
    (value : τ) (sect' key' : ν) :
    keyEntryGet (keyEntrySet sections sect key value) sect' key' =
      if sect' = sect ∧ key' = key
      then (keyEntryGet sections sect key).map (KeyEntryOf.setValue value)
      else keyEntryGet sections sect' key' := by
  simp only [keyEntryGet, sectionEntryGet, keyEntrySet]
  rw [search_modify (keyEntrySetSect_sect key value)]
  by_cases hsect : sect' = sect
  · subst hsect
    rw [if_pos rfl]
    cases search SectionEntryOf.sect sections sect' with
    | none => simp
    | some s =>
      rw [Option.map_some, Option.bind_some, Option.bind_some, keyEntryGetSect,
        keyEntrySetSect, search_modify (KeyEntryOf.setValue_key value)]
      simp [keyEntryGetSect]
  · rw [if_neg hsect, if_neg (fun h => hsect h.1)]

/-! ## Names stay distinct -/

theorem withSection_distinct {sections : List (SectionEntryOf ν τ)} (h : Distinct sections)
    (sect : ν) : Distinct (withSection sections sect) := by
  unfold withSection
  split_ifs with hget
  · rw [Option.isNone_iff_eq_none] at hget
    constructor
    · exact nodup_concat h.sects hget rfl
    · intro s hs
      rcases List.mem_append.mp hs with hs | hs
      · exact h.keys s hs
      · rw [List.mem_singleton.mp hs]
        exact List.nodup_nil
  · exact h

theorem keyEntryAdd_distinct {sections : List (SectionEntryOf ν τ)} (h : Distinct sections)
    (sect : ν) (k : KeyEntryOf ν τ) : Distinct (keyEntryAdd sections sect k).2 := by
  have hsect := withSection_distinct h sect
  by_cases hget : keyEntryGet sections sect k.key = none
  · rw [keyEntryAdd_of_none hget]
    rw [← keyEntryGet_withSection sections sect] at hget
    constructor
    · rw [map_name_modify (keyEntryAddSect_sect k)]
      exact hsect.sects
    · intro t ht
      rcases mem_modify ht with ht | ⟨s, hs, rfl⟩
      · exact hsect.keys t ht
      · rw [keyEntryGet, sectionEntryGet, hs, Option.bind_some] at hget
        exact nodup_concat (hsect.keys s (mem_of_search hs)) hget rfl
  · rw [keyEntryAdd_of_ne_none hget]
    exact h

theorem keyEntrySet_distinct {sections : List (SectionEntryOf ν τ)} (h : Distinct sections)
    (sect key : ν) (value : τ) : Distinct (keyEntrySet sections sect key value) := by
  constructor
  · rw [keyEntrySet, map_name_modify (keyEntrySetSect_sect key value)]
    exact h.sects
  · intro s hs
    rcases mem_modify hs with hs | ⟨s', hs', rfl⟩
    · exact h.keys s hs
    · rw [keyEntrySetSect, map_name_modify (KeyEntryOf.setValue_key value)]
      exact h.keys s' (mem_of_search hs')

/-! ## The store -/

omit [DecidableEq ν] in
/-- `a6o_conf_new`. -/
def a6oConfNew : A6oConfOf ν τ := ⟨[], List.nodup_nil, by simp⟩

/-- What the `a6o_conf_add_` functions do once the value is there: the status
and the configuration. -/
def addEntry (conf : A6oConfOf ν τ) (sect : ν) (k : KeyEntryOf ν τ) : Int × A6oConfOf ν τ :=
  (if (keyEntryAdd conf.sections sect k).1 then 0 else 1,
    ⟨(keyEntryAdd conf.sections sect k).2, keyEntryAdd_distinct conf.distinct sect k⟩)

/-- An addition fails just for a key that is there. -/
theorem addEntry_status {conf : A6oConfOf ν τ} {sect : ν} {k : KeyEntryOf ν τ} :
    (addEntry conf sect k).1 = 0 ↔ keyEntryGet conf.sections sect k.key = none := by
  by_cases hget : keyEntryGet conf.sections sect k.key = none
  · simp [addEntry, keyEntryAdd_of_none hget, hget]
  · simp [addEntry, keyEntryAdd_of_ne_none hget, hget]

/-- A failed addition changes nothing. -/
theorem addEntry_failed {conf : A6oConfOf ν τ} {sect : ν} {k : KeyEntryOf ν τ}
    (h : (addEntry conf sect k).1 ≠ 0) : (addEntry conf sect k).2 = conf := by
  rw [ne_eq, addEntry_status] at h
  ext1
  show (keyEntryAdd conf.sections sect k).2 = conf.sections
  rw [keyEntryAdd_of_ne_none h]

/-! ## Other names and values

A store reads as one of other names and values; where the names stay apart,
searches and additions are the same in both. -/

section Map

variable {ν' τ' : Type} [DecidableEq ν'] {f : ν → ν'} (hf : Function.Injective f) (g : τ → τ')

omit [DecidableEq ν] [DecidableEq ν'] in
/-- An entry with its name and its value read. -/
def KeyEntryOf.map (f : ν → ν') (g : τ → τ') (k : KeyEntryOf ν τ) : KeyEntryOf ν' τ' :=
  ⟨f k.key, g k.value⟩

omit [DecidableEq ν] [DecidableEq ν'] in
/-- A section with its name and its entries read. -/
def SectionEntryOf.map (f : ν → ν') (g : τ → τ') (s : SectionEntryOf ν τ) :
    SectionEntryOf ν' τ' :=
  ⟨f s.sect, s.keys.map (KeyEntryOf.map f g)⟩

omit [DecidableEq ν] [DecidableEq ν'] in
theorem KeyEntryOf.map_key (k : KeyEntryOf ν τ) : (k.map f g).key = f k.key := rfl

omit [DecidableEq ν] [DecidableEq ν'] in
theorem SectionEntryOf.map_sect (s : SectionEntryOf ν τ) : (s.map f g).sect = f s.sect := rfl

include hf

theorem sectionEntryGet_map (sections : List (SectionEntryOf ν τ)) (sect : ν) :
    sectionEntryGet (sections.map (SectionEntryOf.map f g)) (f sect) =
      (sectionEntryGet sections sect).map (SectionEntryOf.map f g) :=
  search_map (SectionEntryOf.map_sect g) hf sections sect

theorem keyEntryGet_map (sections : List (SectionEntryOf ν τ)) (sect key : ν) :
    keyEntryGet (sections.map (SectionEntryOf.map f g)) (f sect) (f key) =
      (keyEntryGet sections sect key).map (KeyEntryOf.map f g) := by
  rw [keyEntryGet, sectionEntryGet_map hf g, keyEntryGet]
  cases sectionEntryGet sections sect with
  | none => rfl
  | some s => exact search_map (KeyEntryOf.map_key g) hf s.keys key

theorem withSection_map (sections : List (SectionEntryOf ν τ)) (sect : ν) :
    withSection (sections.map (SectionEntryOf.map f g)) (f sect) =
      (withSection sections sect).map (SectionEntryOf.map f g) := by
  rw [withSection, withSection, sectionEntryGet_map hf g, Option.isNone_map]
  split
  · simp [sectionEntryAdd, SectionEntryOf.map]
  · rfl

theorem keyEntryAdd_map (sections : List (SectionEntryOf ν τ)) (sect : ν)
    (k : KeyEntryOf ν τ) :
    keyEntryAdd (sections.map (SectionEntryOf.map f g)) (f sect) (k.map f g) =
      ((keyEntryAdd sections sect k).1,
        (keyEntryAdd sections sect k).2.map (SectionEntryOf.map f g)) := by
  have hkey : ∀ s, keyEntryAddSect (k.map f g) (SectionEntryOf.map f g s) =
      SectionEntryOf.map f g (keyEntryAddSect k s) := by
    intro s
    simp [keyEntryAddSect, SectionEntryOf.map]
  have hget := keyEntryGet_map hf g (withSection sections sect) sect k.key
  rw [keyEntryAdd, withSection_map hf g, keyEntryAdd]
  show (if (keyEntryGet _ (f sect) (f k.key)).isSome then _ else _) = _
  rw [hget, Option.isSome_map]
  split
  · rfl
  · exact congrArg (Prod.mk true) (modify_map (SectionEntryOf.map_sect g) hf hkey sect _)

omit [DecidableEq ν] [DecidableEq ν'] in
theorem Distinct.map {sections : List (SectionEntryOf ν τ)} (h : Distinct sections) :
    Distinct (sections.map (SectionEntryOf.map f g)) := by
  constructor
  · have hmap := h.sects.map hf
    rwa [List.map_map] at hmap ⊢
  · intro s hs
    obtain ⟨s', hs', rfl⟩ := List.mem_map.mp hs
    have hmap := (h.keys s' hs').map hf
    rw [SectionEntryOf.map, List.map_map]
    rwa [List.map_map] at hmap

omit [DecidableEq ν] [DecidableEq ν'] in
/-- The store with its names and values read. -/
def A6oConfOf.map (conf : A6oConfOf ν τ) : A6oConfOf ν' τ' :=
  ⟨conf.sections.map (SectionEntryOf.map f g), conf.distinct.map hf g⟩

theorem addEntry_map (conf : A6oConfOf ν τ) (sect : ν) (k : KeyEntryOf ν τ) :
    addEntry (conf.map hf g) (f sect) (k.map f g) =
      ((addEntry conf sect k).1, (addEntry conf sect k).2.map hf g) := by
  have hadd := keyEntryAdd_map hf g conf.sections sect k
  refine Prod.ext ?_ (A6oConfOf.ext (congrArg Prod.snd hadd))
  show (if (keyEntryAdd (conf.map hf g).sections (f sect) (k.map f g)).1 then _ else _) = _
  rw [show (keyEntryAdd (conf.map hf g).sections (f sect) (k.map f g)).1 = _ from
    congrArg Prod.fst hadd]
  rfl

end Map

end Armadito.Conf
