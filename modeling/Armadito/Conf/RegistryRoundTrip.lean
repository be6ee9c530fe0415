import Armadito.Conf.Loaded
import Armadito.Conf.RegistryTree
import Mathlib.Data.List.Nodup

/-!
# Conf.RegistryRoundTrip

A configuration that is saved in the registry is restored from it, whatever
the order in which the registry lists what it holds, if and only if its names
stay different and each value is restored.
-/

namespace Armadito.Conf.Windows

open NamedArray Transition Terminated

/-! ## One value -/

/-- What the reader makes of the data of a value. -/
def decodeValue : RegData → Option A6oConfValue
  | .dword data => some (a6oConfValueSetInt (toUInt32 data))
  | .sz data => do
    let block ← dataStr data
    let val ← string nul block
    return .string (osStrdup val)
  | .multiSz data => (listStrings (data ++ [nul])).map fun val => .list (val.map osStrdup)

theorem registryWalkerValue_eq (conf : A6oConf) (sect name : CString) (data : RegData) :
    registryWalkerValue conf (some sect) name data =
      (decodeValue data).map fun v => (addEntry conf sect ⟨name, v⟩).2 := by
  cases data with
  | dword data => rfl
  | sz data =>
    simp only [registryWalkerValue, decodeValue, dataStr_eq, Option.bind_eq_bind, Option.bind_some]
    cases string nul (data ++ [nul]) with
    | none => rfl
    | some val => rfl
  | multiSz data =>
    rw [registryWalkerValue_multiSz, decodeValue, Option.map_map]
    rfl

theorem roundTrips_iff_decoded {v : A6oConfValue} :
    RoundTrips v ↔ ∃ data, writeEntryInRegistry v = some (some data) ∧
      decodeValue data = some v := by
  constructor
  · intro h
    obtain ⟨data, conf', hwrite, hread, hget⟩ := h a6oConfNew [] [] rfl
    rw [registryWalkerValue_eq] at hread
    obtain ⟨w, hdecode, rfl⟩ := Option.map_eq_some_iff.mp hread
    rw [keyEntryGet_addEntry rfl] at hget
    cases hget
    exact ⟨data, hwrite, hdecode⟩
  · rintro ⟨data, hwrite, hdecode⟩ conf sect key hkey
    refine ⟨data, _, hwrite, ?_, keyEntryGet_addEntry hkey v⟩
    rw [registryWalkerValue_eq, hdecode]
    rfl

/-! ## The reader -/

/-- One value of the listing. -/
def walkStep (conf : A6oConf) (e : Option CString × CString × RegData) : Option A6oConf :=
  registryWalkerValue conf e.1 e.2.1 e.2.2

mutual

theorem registryWalker_eq (conf : A6oConf) (sect : Option CString) :
    ∀ key : RegKey, registryWalker conf sect key = run walkStep conf (key.listed sect)
  | .node values subkeys => by
    rw [registryWalker, RegKey.listed, run_append, run_map]
    exact congrArg _ (funext fun conf => registryWalkerSubkeys_eq conf subkeys)

theorem registryWalkerSubkeys_eq (conf : A6oConf) :
    ∀ subkeys, registryWalkerSubkeys conf subkeys = run walkStep conf (listedSubkeys subkeys)
  | [] => rfl
  | (name, key) :: subkeys => by
    rw [registryWalkerSubkeys, listedSubkeys, run_append, registryWalker_eq conf (some name) key]
    exact congrArg _ (funext fun conf => registryWalkerSubkeys_eq conf subkeys)

end

theorem valueOf_addEntry {conf : A6oConf} {sect key : CString} {v : A6oConfValue}
    (h : valueOf conf sect key = none) (sect' key' : CString) :
    valueOf (addEntry conf sect ⟨key, v⟩).2 sect' key' =
      if sect' = sect ∧ key' = key then some v else valueOf conf sect' key' := by
  rw [valueOf_eq_none] at h
  have hget := keyEntryGet_keyEntryAdd (k := ⟨key, v⟩) h sect' key'
  show (keyEntryGet (keyEntryAdd conf.sections sect ⟨key, v⟩).2 sect' key').map KeyEntryOf.value = _
  rw [hget]
  split_ifs
  · rfl
  · rfl

/-- What is restored was listed. -/
theorem listed_of_restored {es : List (Option CString × CString × RegData)} {conf : A6oConf}
    (h : run walkStep a6oConfNew es = some conf) {sect key : CString} {v : A6oConfValue}
    (hv : valueOf conf sect key = some v) :
    ∃ data, (some sect, key, data) ∈ es ∧ decodeValue data = some v := by
  have hstep : ∀ (past : List (Option CString × CString × RegData)) (conf : A6oConf) e conf',
      (∀ sect key v, valueOf conf sect key = some v →
        ∃ data, (some sect, key, data) ∈ past ∧ decodeValue data = some v) →
      walkStep conf e = some conf' → ∀ sect key v, valueOf conf' sect key = some v →
        ∃ data, (some sect, key, data) ∈ past ++ [e] ∧ decodeValue data = some v := by
    intro past conf e conf' hpast hwalk sect key v hv
    have hold : valueOf conf sect key = some v →
        ∃ data, (some sect, key, data) ∈ past ++ [e] ∧ decodeValue data = some v := by
      intro hv
      obtain ⟨data, hmem, hdecode⟩ := hpast sect key v hv
      exact ⟨data, List.mem_append_left _ hmem, hdecode⟩
    obtain ⟨sect', key', data⟩ := e
    cases sect' with
    | none =>
      -- the values of the application's own key are read for nothing
      have hsame : conf' = conf := by
        cases data with
        | dword data => exact (Option.some.inj hwalk).symm
        | sz data =>
          obtain ⟨block, -, hconf⟩ := Option.bind_eq_some_iff.mp hwalk
          exact (Option.some.inj hconf).symm
        | multiSz data =>
          obtain ⟨block, -, hwalk⟩ := Option.bind_eq_some_iff.mp hwalk
          obtain ⟨list, -, hconf⟩ := Option.bind_eq_some_iff.mp hwalk
          exact (Option.some.inj hconf).symm
      rw [hsame] at hv
      exact hold hv
    | some sect' =>
      rw [walkStep, registryWalkerValue_eq] at hwalk
      obtain ⟨w, hdecode, rfl⟩ := Option.map_eq_some_iff.mp hwalk
      by_cases hnew : valueOf conf sect' key' = none
      · rw [valueOf_addEntry hnew] at hv
        split_ifs at hv with hsame
        · obtain ⟨rfl, rfl⟩ := hsame
          cases hv
          exact ⟨data, List.mem_append_right _ List.mem_cons_self, hdecode⟩
        · exact hold hv
      · rw [addEntry_failed (by rwa [ne_eq, addEntry_status, ← valueOf_eq_none])] at hv
        exact hold hv
  exact run_history hstep es [] a6oConfNew conf (fun _ _ _ hv => by cases hv) h sect key v hv

/-- Values with different names are all restored. -/
theorem restored_of_listed {es : List (Option CString × CString × RegData)} :
    ∀ {conf : A6oConf}, (∀ e ∈ es, ∃ sect v, e.1 = some sect ∧ decodeValue e.2.2 = some v) →
      (es.map fun e => (e.1, e.2.1)).Nodup →
      (∀ sect key data, (some sect, key, data) ∈ es → valueOf conf sect key = none) →
      ∃ conf', run walkStep conf es = some conf' ∧
        (∀ sect key v, valueOf conf sect key = some v → valueOf conf' sect key = some v) ∧
        ∀ sect key data, (some sect, key, data) ∈ es →
          valueOf conf' sect key = decodeValue data := by
  induction es with
  | nil =>
    intro conf _ _ _
    exact ⟨conf, rfl, fun _ _ _ hv => hv, fun _ _ _ hmem => absurd hmem List.not_mem_nil⟩
  | cons e es ih =>
    intro conf hdecodes hnodup hnew
    obtain ⟨⟨sect, v, hsect, hdecode⟩, hrest⟩ := List.forall_mem_cons.mp hdecodes
    obtain ⟨_, key, data⟩ := e
    obtain rfl : _ = some sect := hsect
    rw [List.map_cons, List.nodup_cons] at hnodup
    have hfree := hnew sect key data List.mem_cons_self
    have hvalue := @valueOf_addEntry conf sect key v hfree
    have hstillNew : ∀ sect' key' data', (some sect', key', data') ∈ es →
        valueOf (addEntry conf sect ⟨key, v⟩).2 sect' key' = none := by
      intro sect' key' data' hmem
      rw [hvalue, if_neg, hnew sect' key' data' (List.mem_cons_of_mem _ hmem)]
      rintro ⟨rfl, rfl⟩
      exact hnodup.1 (List.mem_map.mpr ⟨_, hmem, rfl⟩)
    obtain ⟨conf', hrun, hkept, hadded⟩ := ih hrest hnodup.2 hstillNew
    refine ⟨conf', ?_, ?_, ?_⟩
    · rw [run_cons_eq_some]
      refine ⟨_, ?_, hrun⟩
      rw [walkStep, registryWalkerValue_eq, hdecode]
      rfl
    · intro sect' key' w hw
      refine hkept sect' key' w ?_
      rw [hvalue, if_neg, hw]
      rintro ⟨rfl, rfl⟩
      rw [hw] at hfree
      cases hfree
    · intro sect' key' data' hmem
      rcases List.mem_cons.mp hmem with heq | hmem
      · cases heq
        rw [hdecode]
        refine hkept _ _ _ ?_
        rw [hvalue, if_pos ⟨rfl, rfl⟩]
      · exact hadded sect' key' data' hmem

/-! ## The writer -/

variable {names : RegNames}

/-- The entries of a configuration, in order. -/
def confEntries (sections : List SectionEntry) : List (CString × CString × A6oConfValue) :=
  sections.flatMap fun s => s.keys.map fun k => (s.sect, k.key, k.value)

theorem confEntries_cons (s : SectionEntry) (sections : List SectionEntry) :
    confEntries (s :: sections) =
      (s.keys.map fun k => (s.sect, k.key, k.value)) ++ confEntries sections :=
  List.flatMap_cons

theorem saveConfInRegistry_eq (conf : A6oConf) (root : RegKey) :
    saveConfInRegistry names conf root =
      (run (writeEntry names) ⟨root, [], none⟩ (confEntries conf.sections)).map
        ConfRegData.hRootKey := by
  have hkeys : ∀ (s : SectionEntry) (o : Option ConfRegData),
      s.keys.foldl (fun data k => data.bind fun data =>
        writeEntry names data (s.sect, k.key, k.value)) o =
      o.bind fun data => run (writeEntry names) data
        (s.keys.map fun k => (s.sect, k.key, k.value)) := by
    intro s o
    rw [foldl_bind_eq_run fun data (k : KeyEntry) => writeEntry names data (s.sect, k.key, k.value)]
    exact congrArg _ (funext fun data => (run_map _ _ _ data).symm)
  have hsections : ∀ (sections : List SectionEntry) (o : Option ConfRegData),
      a6oConfApply sections (fun sect key value data => data.bind fun data =>
        writeEntry names data (sect, key, value)) o =
      o.bind fun data => run (writeEntry names) data (confEntries sections) := by
    intro sections
    induction sections with
    | nil =>
      intro o
      cases o with
      | none => rfl
      | some data => rfl
    | cons s sections ih =>
      intro o
      rw [a6oConfApply, List.foldl_cons, hkeys]
      refine (ih _).trans ?_
      cases o with
      | none => rfl
      | some data =>
        rw [Option.bind_some, Option.bind_some, confEntries_cons, run_append]
  rw [saveConfInRegistry, hsections, Option.bind_some]

/-- No write is out of bounds. -/
theorem written_of_run {es : List (CString × CString × A6oConfValue)} {data data' : ConfRegData}
    (hkey : ∀ e ∈ es, IsKeyName e.1) (h : run (writeEntry names) data es = some data') :
    ∀ e ∈ es, writeEntryInRegistry e.2.2 ≠ none := by
  induction es generalizing data with
  | nil => exact fun _ he => absurd he List.not_mem_nil
  | cons e es ih =>
    obtain ⟨hname, hrest⟩ := List.forall_mem_cons.mp hkey
    obtain ⟨next, hstep, h⟩ := run_cons_eq_some.mp h
    refine List.forall_mem_cons.mpr ⟨fun hnone => ?_, ih hrest h⟩
    unfold writeEntry openSection at hstep
    rw [names.path_name _ hname] at hstep
    split at hstep
    · next hfail =>
      split_ifs at hfail
      cases hfail
    · rw [hnone] at hstep
      cases hstep

/-- What is written of the keys of a section. -/
def writtenValues (keys : List KeyEntry) : List (CString × RegData) :=
  keys.filterMap fun k => (writeEntryInRegistry k.value).join.map fun data => (k.key, data)

/-- The key that a store is written into when it is new. -/
def writtenTree (sections : List SectionEntry) : RegKey :=
  .node [] (sections.map fun s => (s.sect, .node (writtenValues s.keys) []))

/-- The registry tells all names apart. -/
structure ToldApart (names : RegNames) (sections : List SectionEntry) : Prop where
  keyName : ∀ s ∈ sections, IsKeyName s.sect
  sects : (sections.map fun s => names.upcase s.sect).Nodup
  keys : ∀ s ∈ sections, (s.keys.map fun k => names.upcase k.key).Nodup
  short : ∀ s ∈ sections, ∀ k ∈ s.keys, k.key.length ≤ maxValueName

/-- The last section, while its keys are written. -/
def atSection (before : List (CString × RegKey)) (sect : CString)
    (values : List (CString × RegData)) : ConfRegData :=
  { hRootKey := .node [] (before ++ [(sect, .node values [])])
    hSectionKey := [sect]
    prevSection := some sect }

/-- The keys of a section are written one after the other. -/
theorem run_keys {before : List (CString × RegKey)} {sect : CString}
    (hsect : names.upcase sect ∉ before.map fun e => names.upcase e.1)
    {keys : List KeyEntry} :
    ∀ {values : List (CString × RegData)},
      (values.map (fun e => names.upcase e.1) ++ keys.map fun k => names.upcase k.key).Nodup →
      (∀ k ∈ keys, k.key.length ≤ maxValueName ∧ writeEntryInRegistry k.value ≠ none) →
      run (writeEntry names) (atSection before sect values)
        (keys.map fun k => (sect, k.key, k.value)) =
        some (atSection before sect (values ++ writtenValues keys)) := by
  induction keys with
  | nil =>
    intro values _ _
    rw [writtenValues, List.filterMap_nil, List.append_nil]
    rfl
  | cons k keys ih =>
    intro values hnodup hkeys
    obtain ⟨⟨hshort, hwrite⟩, hrest⟩ := List.forall_mem_cons.mp hkeys
    obtain ⟨written, hwritten⟩ := Option.ne_none_iff_exists'.mp hwrite
    have hopen : openSection names sect (atSection before sect values) =
        some (atSection before sect values) := if_pos rfl
    rw [List.map_cons, run_cons_eq_some]
    cases written with
    | none =>
      refine ⟨atSection before sect values, ?_, ?_⟩
      · simp only [writeEntry, hopen, hwritten, Option.map_some]
      · have hskip : writtenValues (k :: keys) = writtenValues keys := by
          simp [writtenValues, hwritten]
        rw [hskip]
        refine ih ?_ hrest
        exact hnodup.sublist (List.Sublist.append_left (List.sublist_cons_self ..) _)
    | some data =>
      have hnew : names.upcase k.key ∉ values.map fun e => names.upcase e.1 := fun hmem =>
        List.disjoint_of_nodup_append hnodup hmem List.mem_cons_self
      refine ⟨atSection before sect (values ++ [(k.key, data)]), ?_, ?_⟩
      · simp only [writeEntry, hopen, hwritten, Option.map_some]
        have hset : regSetKeyValue names k.key data (.node values []) =
            .node (values ++ [(k.key, data)]) [] := by
          rw [regSetKeyValue, if_pos hshort, upsert_new hnew]
        have hlast := @upsert_last _ _ _ (fun e : CString × RegKey => names.upcase e.1)
          (sect, .node [] []) (sect, .node values []) before hsect rfl
          fun e => (e.1, regSetKeyValue names k.key data e.2)
        rw [hset] at hlast
        simp only [atSection, RegKey.at, hlast]
      · have hmore : writtenValues (k :: keys) = (k.key, data) :: writtenValues keys := by
          simp [writtenValues, hwritten]
        rw [hmore, List.append_cons values (k.key, data) (writtenValues keys)]
        refine ih ?_ hrest
        rw [List.map_append, List.append_assoc]
        exact hnodup

/-- Where all names are told apart, the registry holds what is written, section
by section. -/
theorem run_sections {sections : List SectionEntry} (hapart : ToldApart names sections)
    (hnonempty : NoEmptySection sections)
    (hwrite : ∀ e ∈ confEntries sections, writeEntryInRegistry e.2.2 ≠ none) :
    ∀ {before : List (CString × RegKey)} {data : ConfRegData},
      data.hRootKey = .node [] before →
      (∀ s ∈ sections, data.prevSection ≠ some s.sect) →
      (sections.map SectionEntryOf.sect).Nodup →
      (∀ s ∈ sections, names.upcase s.sect ∉ before.map fun e => names.upcase e.1) →
      ∃ data', run (writeEntry names) data (confEntries sections) = some data' ∧
        data'.hRootKey = .node [] (before ++
          sections.map fun s => (s.sect, .node (writtenValues s.keys) [])) := by
  induction sections with
  | nil =>
    intro before data hroot _ _ _
    exact ⟨data, rfl, by rw [hroot, List.map_nil, List.append_nil]⟩
  | cons s sections ih =>
    intro before data hroot hprev hdistinct hfresh
    obtain ⟨hkeyName, hkeyNames⟩ := List.forall_mem_cons.mp hapart.keyName
    obtain ⟨hkeys, hkeysRest⟩ := List.forall_mem_cons.mp hapart.keys
    obtain ⟨hshort, hshortRest⟩ := List.forall_mem_cons.mp hapart.short
    obtain ⟨hsome, hsomeRest⟩ := List.forall_mem_cons.mp hnonempty
    obtain ⟨hprevHead, -⟩ := List.forall_mem_cons.mp hprev
    obtain ⟨hfreshHead, hfreshRest⟩ := List.forall_mem_cons.mp hfresh
    have hsects := hapart.sects
    rw [List.map_cons, List.nodup_cons] at hsects hdistinct
    rw [confEntries_cons, List.forall_mem_append] at hwrite
    have hopen : openSection names s.sect data = some (atSection before s.sect []) := by
      have hmade := @upsert_new _ _ _ (fun e : CString × RegKey => names.upcase e.1)
        (s.sect, .node [] []) before hfreshHead fun e => (e.1, e.2)
      rw [openSection, if_neg hprevHead, names.path_name _ hkeyName, hroot]
      simp only [Option.map_some, RegKey.at, id_eq, hmade, atSection]
    have hsame : ∀ k : KeyEntry, writeEntry names data (s.sect, k.key, k.value) =
        writeEntry names (atSection before s.sect []) (s.sect, k.key, k.value) := by
      intro k
      have hopen' : openSection names s.sect (atSection before s.sect []) =
          some (atSection before s.sect []) := if_pos rfl
      simp only [writeEntry, hopen, hopen']
    have hhead : run (writeEntry names) data (s.keys.map fun k => (s.sect, k.key, k.value)) =
        some (atSection before s.sect (writtenValues s.keys)) := by
      have hrun := @run_keys names before s.sect hfreshHead s.keys [] hkeys fun k hk =>
        ⟨hshort k hk, hwrite.1 _ (List.mem_map.mpr ⟨k, hk, rfl⟩)⟩
      obtain ⟨k, keys, hcons⟩ := List.exists_cons_of_ne_nil hsome
      rw [hcons, List.map_cons, run] at hrun ⊢
      rw [hsame k]
      exact hrun
    have hfreshAfter : ∀ t ∈ sections, names.upcase t.sect ∉
        (before ++ [(s.sect, RegKey.node (writtenValues s.keys) [])]).map
          fun e => names.upcase e.1 := by
      intro t ht hmem
      rw [List.map_append, List.mem_append, List.map_singleton, List.mem_singleton] at hmem
      refine hmem.elim (hfreshRest t ht) fun heq => hsects.1 ?_
      rw [← heq]
      exact List.mem_map.mpr ⟨t, ht, rfl⟩
    have hother : ∀ t ∈ sections,
        (atSection before s.sect (writtenValues s.keys)).prevSection ≠ some t.sect := by
      intro t ht heq
      refine hdistinct.1 ?_
      rw [Option.some.inj heq]
      exact List.mem_map_of_mem ht
    obtain ⟨data', hrun, hdata'⟩ := ih ⟨hkeyNames, hsects.2, hkeysRest, hshortRest⟩ hsomeRest
      hwrite.2 rfl hother hdistinct.2 hfreshAfter
    refine ⟨data', ?_, ?_⟩
    · rw [confEntries_cons, run_append, hhead, Option.bind_some, hrun]
    · rw [hdata', List.append_assoc, List.singleton_append, List.map_cons]

/-! ## What is listed -/

theorem mem_listedSubkeys {subkeys : List (CString × RegKey)}
    {e : Option CString × CString × RegData} :
    e ∈ listedSubkeys subkeys ↔ ∃ p ∈ subkeys, e ∈ p.2.listed (some p.1) := by
  induction subkeys with
  | nil => simp [listedSubkeys]
  | cons p subkeys ih =>
    obtain ⟨name, key⟩ := p
    rw [listedSubkeys, List.mem_append, ih, List.exists_mem_cons_iff]

theorem mem_listed_writtenTree {sections : List SectionEntry} {sect key : CString}
    {data : RegData} :
    (some sect, key, data) ∈ (writtenTree sections).listed none ↔
      ∃ s ∈ sections, s.sect = sect ∧ ∃ k ∈ s.keys, k.key = key ∧
        writeEntryInRegistry k.value = some (some data) := by
  rw [writtenTree, RegKey.listed, List.map_nil, List.nil_append, mem_listedSubkeys]
  constructor
  · rintro ⟨p, hp, hmem⟩
    obtain ⟨s, hs, rfl⟩ := List.mem_map.mp hp
    rw [RegKey.listed, listedSubkeys, List.append_nil] at hmem
    obtain ⟨v, hv, heq⟩ := List.mem_map.mp hmem
    cases heq
    obtain ⟨k, hk, hwritten⟩ := List.mem_filterMap.mp hv
    obtain ⟨data, hjoin, rfl⟩ := Option.map_eq_some_iff.mp hwritten
    exact ⟨s, hs, rfl, k, hk, rfl, Option.join_eq_some_iff.mp hjoin⟩
  · rintro ⟨s, hs, rfl, k, hk, rfl, hwrite⟩
    refine ⟨_, List.mem_map.mpr ⟨s, hs, rfl⟩, ?_⟩
    rw [RegKey.listed, listedSubkeys, List.append_nil]
    refine List.mem_map.mpr ⟨(k.key, data), List.mem_filterMap.mpr ⟨k, hk, ?_⟩, rfl⟩
    rw [hwrite]
    rfl

/-- Everything listed for a section is in its key. -/
theorem sect_of_listed_writtenTree {sections : List SectionEntry}
    {e : Option CString × CString × RegData} (h : e ∈ (writtenTree sections).listed none) :
    ∃ s ∈ sections, e.1 = some s.sect := by
  rw [writtenTree, RegKey.listed, List.map_nil, List.nil_append, mem_listedSubkeys] at h
  obtain ⟨p, hp, hmem⟩ := h
  obtain ⟨s, hs, rfl⟩ := List.mem_map.mp hp
  rw [RegKey.listed, listedSubkeys, List.append_nil] at hmem
  obtain ⟨v, -, rfl⟩ := List.mem_map.mp hmem
  exact ⟨s, hs, rfl⟩

theorem sublist_writtenValues (keys : List KeyEntry) :
    ((writtenValues keys).map Prod.fst).Sublist (keys.map KeyEntryOf.key) := by
  induction keys with
  | nil => exact List.Sublist.refl _
  | cons k keys ih =>
    rw [writtenValues, List.filterMap_cons, List.map_cons]
    split
    · exact ih.cons _
    · next v hv =>
      obtain ⟨data, -, rfl⟩ := Option.map_eq_some_iff.mp hv
      exact ih.cons_cons _

/-- No name is listed twice. -/
theorem nodup_listed_writtenTree {sections : List SectionEntry} (h : Distinct sections) :
    (((writtenTree sections).listed none).map fun e => (e.1, e.2.1)).Nodup := by
  have hlisted : (writtenTree sections).listed none =
      sections.flatMap fun s => (writtenValues s.keys).map fun v => (some s.sect, v.1, v.2) := by
    rw [writtenTree, RegKey.listed, List.map_nil, List.nil_append]
    induction sections with
    | nil => rfl
    | cons s sections ih =>
      have hrest : Distinct sections :=
        ⟨(List.nodup_cons.mp h.sects).2, fun t ht => h.keys t (List.mem_cons_of_mem _ ht)⟩
      rw [List.map_cons, listedSubkeys, ih hrest, RegKey.listed, listedSubkeys, List.append_nil,
        List.flatMap_cons]
  rw [hlisted, List.map_flatMap, List.nodup_flatMap]
  refine ⟨fun s hs => ?_, ?_⟩
  · have hkeys := (h.keys s hs).sublist (sublist_writtenValues s.keys)
    rw [List.map_map]
    refine List.Nodup.of_map Prod.snd ?_
    rwa [List.map_map]
  · refine (List.pairwise_map.mp h.sects).imp fun {s t} hne => ?_
    intro pair hpair hpair'
    obtain ⟨e, he, rfl⟩ := List.mem_map.mp hpair
    obtain ⟨v, -, rfl⟩ := List.mem_map.mp he
    obtain ⟨e', he', heq⟩ := List.mem_map.mp hpair'
    obtain ⟨w, -, rfl⟩ := List.mem_map.mp he'
    exact hne (Option.some.inj (Prod.mk.inj heq).1).symm

/-! ## The keys of any configuration -/

mutual

/-- The names of a registry are different, and not too long. -/
def RegKey.Good (names : RegNames) : RegKey → Prop
  | .node values subkeys =>
    (values.map fun e => names.upcase e.1).Nodup ∧
      (∀ v ∈ values, v.1.length ≤ maxValueName) ∧
      (subkeys.map fun e => names.upcase e.1).Nodup ∧ GoodSubkeys names subkeys

/-- `RegKey.Good` for the keys of a list. -/
def GoodSubkeys (names : RegNames) : List (CString × RegKey) → Prop
  | [] => True
  | (name, key) :: subkeys => IsKeyName name ∧ key.Good names ∧ GoodSubkeys names subkeys

end

theorem goodSubkeys_iff {subkeys : List (CString × RegKey)} :
    GoodSubkeys names subkeys ↔ ∀ p ∈ subkeys, IsKeyName p.1 ∧ p.2.Good names := by
  induction subkeys with
  | nil => simp [GoodSubkeys]
  | cons p subkeys ih =>
    obtain ⟨name, key⟩ := p
    rw [GoodSubkeys, ih, List.forall_mem_cons, and_assoc]

theorem good_empty : (RegKey.node [] []).Good names := by
  simp [RegKey.Good, GoodSubkeys]

theorem RegKey.Good.at {f : RegKey → RegKey} (hf : ∀ key, key.Good names → (f key).Good names)
    {path : List CString} (hpath : ∀ n ∈ path, IsKeyName n) :
    ∀ {key : RegKey}, key.Good names → (key.at names f path).Good names := by
  induction path with
  | nil => exact fun {key} hkey => hf key hkey
  | cons name path ih =>
    intro key hkey
    obtain ⟨hname, hrest⟩ := List.forall_mem_cons.mp hpath
    cases key with
    | node values subkeys =>
      obtain ⟨hvalues, hshort, hsubkeys, hgood⟩ := hkey
      rw [goodSubkeys_iff] at hgood
      refine ⟨hvalues, hshort, ?_, goodSubkeys_iff.mpr fun p hp => ?_⟩
      · refine nodup_upsert ?_ hsubkeys _
        exact fun _ => rfl
      rcases mem_upsert hp with hp | rfl | ⟨p', hp', rfl⟩
      · exact hgood p hp
      · exact ⟨hname, ih hrest good_empty⟩
      · exact ⟨(hgood p' hp').1, ih hrest (hgood p' hp').2⟩

theorem RegKey.Good.regSetKeyValue {key : RegKey} (h : key.Good names) (name : CString)
    (data : RegData) : (regSetKeyValue names name data key).Good names := by
  cases key with
  | node values subkeys =>
    obtain ⟨hvalues, hshort, hsubkeys, hgood⟩ := h
    rw [Windows.regSetKeyValue]
    split_ifs with hname
    · refine ⟨?_, fun v hv => ?_, hsubkeys, hgood⟩
      · refine nodup_upsert ?_ hvalues _
        exact fun _ => rfl
      rcases mem_upsert hv with hv | rfl | ⟨v', hv', rfl⟩
      · exact hshort v hv
      · exact hname
      · exact hshort v' hv'
    · exact ⟨hvalues, hshort, hsubkeys, hgood⟩

@[simp] theorem regSetKeyValue_subkeys (name : CString) (data : RegData) (key : RegKey) :
    (regSetKeyValue names name data key).subkeys = key.subkeys := by
  cases key with
  | node values subkeys =>
    rw [regSetKeyValue]
    split_ifs
    · rfl
    · rfl

mutual

theorem isKeyName_of_listed {sect key : CString} {data : RegData} :
    ∀ (k : RegKey) (above : Option CString), k.Good names →
      (some sect, key, data) ∈ k.listed above → above = some sect ∨ IsKeyName sect
  | .node values subkeys, above, hgood, hmem => by
    rw [RegKey.listed] at hmem
    rcases List.mem_append.mp hmem with hmem | hmem
    · obtain ⟨v, -, heq⟩ := List.mem_map.mp hmem
      cases heq
      exact .inl rfl
    · exact .inr (isKeyName_of_listedSubkeys subkeys hgood.2.2.2 hmem)

theorem isKeyName_of_listedSubkeys {sect key : CString} {data : RegData} :
    ∀ subkeys : List (CString × RegKey), GoodSubkeys names subkeys →
      (some sect, key, data) ∈ listedSubkeys subkeys → IsKeyName sect
  | [], _, hmem => absurd hmem List.not_mem_nil
  | (name, k) :: subkeys, hgood, hmem => by
    rw [listedSubkeys] at hmem
    rcases List.mem_append.mp hmem with hmem | hmem
    · rcases isKeyName_of_listed k (some name) hgood.2.1 hmem with heq | hname
      · cases heq
        exact hgood.1
      · exact hname
    · exact isKeyName_of_listedSubkeys subkeys hgood.2.2 hmem

end

/-- What a write does: nothing, or changes of the keys on the path of its
section. -/
theorem writeEntry_cases {data data' : ConfRegData} {e : CString × CString × A6oConfValue}
    (h : writeEntry names data e = some data') :
    data' = data ∨ ∃ opened, openSection names e.1 data = some opened ∧
      data'.hSectionKey = opened.hSectionKey ∧ data'.prevSection = opened.prevSection ∧
      (data'.hRootKey = opened.hRootKey ∨ ∃ v, data'.hRootKey =
        opened.hRootKey.at names (regSetKeyValue names e.2.1 v) opened.hSectionKey) := by
  unfold writeEntry at h
  cases hopen : openSection names e.1 data with
  | none =>
    rw [hopen] at h
    exact .inl (Option.some.inj h).symm
  | some opened =>
    simp only [hopen] at h
    obtain ⟨written, -, rfl⟩ := Option.map_eq_some_iff.mp h
    refine .inr ⟨opened, rfl, ?_⟩
    cases written with
    | none => exact ⟨rfl, rfl, .inl rfl⟩
    | some v => exact ⟨rfl, rfl, .inr ⟨v, rfl⟩⟩

/-- The invariant of the writer for any names. -/
structure GoodData (names : RegNames) (data : ConfRegData) : Prop where
  root : data.hRootKey.Good names
  path : ∀ n ∈ data.hSectionKey, IsKeyName n

theorem GoodData.writeEntry {data data' : ConfRegData} {e : CString × CString × A6oConfValue}
    (h : GoodData names data) (hstep : writeEntry names data e = some data') :
    GoodData names data' := by
  rcases writeEntry_cases hstep with rfl | ⟨opened, hopen, hpath, -, hroot⟩
  · exact h
  have hopened : GoodData names opened := by
    unfold openSection at hopen
    split_ifs at hopen
    · cases hopen
      exact h
    · obtain ⟨path, hnames, rfl⟩ := Option.map_eq_some_iff.mp hopen
      have hpath := names.path_names _ path hnames
      exact ⟨h.root.at (fun _ hkey => hkey) hpath, hpath⟩
  refine ⟨?_, by rw [hpath]; exact hopened.path⟩
  rcases hroot with hroot | ⟨v, hroot⟩
  · rw [hroot]
    exact hopened.root
  · rw [hroot]
    exact hopened.root.at (fun _ hkey => hkey.regSetKeyValue _ v) hopened.path

/-- No key of a section has keys below it. -/
structure Flat (root : RegKey) : Prop where
  values : root.values = []
  subkeys : ∀ p ∈ root.subkeys, p.2.subkeys = []

/-- The invariant of the writer for sections that are names of keys. -/
structure FlatData (data : ConfRegData) : Prop where
  root : Flat data.hRootKey
  path : ∀ sect, data.prevSection = some sect → data.hSectionKey = [sect]

theorem Flat.at {root : RegKey} (h : Flat root) {f : RegKey → RegKey}
    (hf : ∀ key, (f key).subkeys = key.subkeys) (sect : CString) :
    Flat (root.at names f [sect]) := by
  cases root with
  | node values subkeys =>
    refine ⟨h.values, fun p hp => ?_⟩
    rcases mem_upsert hp with hp | rfl | ⟨p', hp', rfl⟩
    · exact h.subkeys p hp
    · exact hf _
    · exact (hf p'.2).trans (h.subkeys p' hp')

theorem FlatData.writeEntry {data data' : ConfRegData} {e : CString × CString × A6oConfValue}
    (h : FlatData data) (hname : IsKeyName e.1) (hstep : writeEntry names data e = some data') :
    FlatData data' := by
  rcases writeEntry_cases hstep with rfl | ⟨opened, hopen, hpath, hprev, hroot⟩
  · exact h
  have hopened : FlatData opened ∧ opened.hSectionKey = [e.1] := by
    unfold openSection at hopen
    split_ifs at hopen with hsame
    · cases hopen
      exact ⟨h, h.path e.1 hsame⟩
    · rw [names.path_name _ hname] at hopen
      cases hopen
      exact ⟨⟨h.root.at (fun _ => rfl) e.1, fun sect hsect => by cases hsect; rfl⟩, rfl⟩
  refine ⟨?_, by rw [hprev, hpath]; exact hopened.1.path⟩
  rcases hroot with hroot | ⟨v, hroot⟩
  · rw [hroot]
    exact hopened.1.root
  · rw [hroot, hopened.2]
    exact hopened.1.root.at (fun key => regSetKeyValue_subkeys _ v key) e.1

/-- Where no key has keys below it, what is listed for a section is in a key
of its name. -/
theorem Flat.mem_listed {root : RegKey} (h : Flat root) {sect key : CString} {data : RegData}
    (hmem : (some sect, key, data) ∈ root.listed none) :
    ∃ values, (sect, RegKey.node values []) ∈ root.subkeys ∧ (key, data) ∈ values := by
  cases root with
  | node values subkeys =>
    obtain rfl : values = [] := h.values
    rw [RegKey.listed, List.map_nil, List.nil_append, mem_listedSubkeys] at hmem
    obtain ⟨⟨name, k⟩, hp, hmem⟩ := hmem
    have hsub := h.subkeys _ hp
    cases k with
    | node values below =>
      obtain rfl : below = [] := hsub
      rw [RegKey.listed, listedSubkeys, List.append_nil] at hmem
      obtain ⟨v, hv, heq⟩ := List.mem_map.mp hmem
      cases heq
      exact ⟨values, hp, hv⟩

/-! ## There and back -/

/-- The configuration is saved in a registry without any keys and restored
from it, whatever the order in which the registry lists what it holds. The
service deletes no keys: those of an earlier save would come back as well. -/
def Restored (names : RegNames) (conf : A6oConf) : Prop :=
  ∃ root, saveConfInRegistry names conf (.node [] []) = some root ∧
    ∀ root', SameListed root root' → ∃ conf',
      restoreConfFromRegistry a6oConfNew root' = some conf' ∧
      ∀ sect key, valueOf conf' sect key = valueOf conf sect key

theorem of_mem_confEntries {sections : List SectionEntry}
    {e : CString × CString × A6oConfValue} (he : e ∈ confEntries sections) :
    ∃ s ∈ sections, ∃ k ∈ s.keys, e = (s.sect, k.key, k.value) := by
  obtain ⟨s, hs, he⟩ := List.mem_flatMap.mp he
  obtain ⟨k, hk, rfl⟩ := List.mem_map.mp he
  exact ⟨s, hs, k, hk, rfl⟩

theorem saved_of_toldApart {conf : A6oConf} (hnonempty : NoEmptySection conf.sections)
    (h : ToldApart names conf.sections)
    (hwrite : ∀ e ∈ confEntries conf.sections, writeEntryInRegistry e.2.2 ≠ none) :
    saveConfInRegistry names conf (.node [] []) = some (writtenTree conf.sections) := by
  have hstart : ∀ s ∈ conf.sections,
      (⟨.node [] [], [], none⟩ : ConfRegData).prevSection ≠ some s.sect :=
    fun _ _ => (Option.some_ne_none _).symm
  obtain ⟨data, hrun, hroot⟩ := run_sections h hnonempty hwrite rfl hstart conf.distinct.sects
    fun _ _ => List.not_mem_nil
  rw [saveConfInRegistry_eq, hrun, Option.map_some, hroot, List.nil_append]
  rfl

theorem restored_of_toldApart {conf : A6oConf} (hnonempty : NoEmptySection conf.sections)
    (h : ToldApart names conf.sections)
    (hvalues : ∀ s ∈ conf.sections, ∀ k ∈ s.keys, RoundTrips k.value) : Restored names conf := by
  have hwrite : ∀ e ∈ confEntries conf.sections, writeEntryInRegistry e.2.2 ≠ none := by
    intro e he
    obtain ⟨s, hs, k, hk, rfl⟩ := of_mem_confEntries he
    obtain ⟨data, hdata, -⟩ := roundTrips_iff_decoded.mp (hvalues s hs k hk)
    simp [hdata]
  refine ⟨_, saved_of_toldApart hnonempty h hwrite, fun root' hsame => ?_⟩
  have hmem : ∀ e, e ∈ root'.listed none ↔ e ∈ (writtenTree conf.sections).listed none :=
    fun e => hsame.symm.mem_iff
  have hdecodes : ∀ e ∈ root'.listed none, ∃ sect v, e.1 = some sect ∧
      decodeValue e.2.2 = some v := by
    intro e he
    rw [hmem] at he
    obtain ⟨s, hs, hsect⟩ := sect_of_listed_writtenTree he
    obtain ⟨_, key, data⟩ := e
    obtain rfl : _ = some s.sect := hsect
    obtain ⟨s', hs', -, k, hk, -, hwritten⟩ := mem_listed_writtenTree.mp he
    obtain ⟨data', hdata', hdecode⟩ := roundTrips_iff_decoded.mp (hvalues s' hs' k hk)
    rw [hwritten] at hdata'
    cases hdata'
    exact ⟨s.sect, k.value, rfl, hdecode⟩
  have hnodup := (hsame.map fun e => (e.1, e.2.1)).nodup_iff.mp
    (nodup_listed_writtenTree conf.distinct)
  obtain ⟨conf', hrun, -, hlisted⟩ := @restored_of_listed _ a6oConfNew hdecodes hnodup
    fun _ _ _ _ => rfl
  refine ⟨conf', ?_, fun sect key => ?_⟩
  · rw [restoreConfFromRegistry, registryWalker_eq, hrun]
  · refine Option.ext fun v => ⟨fun hv => ?_, fun hv => ?_⟩
    · obtain ⟨data, he, hdecode⟩ := listed_of_restored hrun hv
      rw [hmem] at he
      obtain ⟨s, hs, rfl, k, hk, rfl, hwritten⟩ := mem_listed_writtenTree.mp he
      obtain ⟨data', hdata', hdecode'⟩ := roundTrips_iff_decoded.mp (hvalues s hs k hk)
      rw [hwritten] at hdata'
      cases hdata'
      rw [hdecode] at hdecode'
      cases hdecode'
      exact valueOf_of_mem hs hk
    · obtain ⟨s, hs, rfl, k, hk, rfl, rfl⟩ := mem_of_valueOf hv
      obtain ⟨data, hdata, hdecode⟩ := roundTrips_iff_decoded.mp (hvalues s hs k hk)
      rw [hlisted s.sect k.key data, hdecode]
      rw [hmem, mem_listed_writtenTree]
      exact ⟨s, hs, rfl, k, hk, rfl, hdata⟩

/-- **The round trip** of a configuration, in a registry that was empty.
Names that differ in case only, a section with a backslash, names that are
too long, and a value that is not restored are what breaks it. -/
theorem restored_iff {conf : A6oConf} (hnonempty : NoEmptySection conf.sections) :
    Restored names conf ↔ ToldApart names conf.sections ∧
      ∀ s ∈ conf.sections, ∀ k ∈ s.keys, RoundTrips k.value := by
  refine ⟨?_, fun h => restored_of_toldApart hnonempty h.1 h.2⟩
  rintro ⟨root, hsave, hrestore⟩
  obtain ⟨conf', hrestored, hvalue⟩ := hrestore root (List.Perm.refl _)
  rw [restoreConfFromRegistry, registryWalker_eq] at hrestored
  rw [saveConfInRegistry_eq] at hsave
  obtain ⟨data, hrun, rfl⟩ := Option.map_eq_some_iff.mp hsave
  -- each key is listed under the name of its section
  have hdisplayed : ∀ s ∈ conf.sections, ∀ k ∈ s.keys, ∃ d,
      (some s.sect, k.key, d) ∈ data.hRootKey.listed none ∧ decodeValue d = some k.value :=
    fun s hs k hk => listed_of_restored hrestored ((hvalue _ _).trans (valueOf_of_mem hs hk))
  have hgood : GoodData names data :=
    run_invariant (fun _ _ _ h hstep => h.writeEntry hstep) _ _ _
      ⟨good_empty, fun _ hn => absurd hn List.not_mem_nil⟩ hrun
  have hkeyName : ∀ s ∈ conf.sections, IsKeyName s.sect := by
    intro s hs
    obtain ⟨k, hk⟩ := List.exists_mem_of_ne_nil _ (hnonempty s hs)
    obtain ⟨d, hmem, -⟩ := hdisplayed s hs k hk
    exact (isKeyName_of_listed _ none hgood.root hmem).resolve_left (by simp)
  have hnamed : ∀ e ∈ confEntries conf.sections, IsKeyName e.1 := by
    intro e he
    obtain ⟨s, hs, k, hk, rfl⟩ := of_mem_confEntries he
    exact hkeyName s hs
  have hflat : FlatData data := by
    have hall : AllSteps (writeEntry names) (fun _ e => IsKeyName e.1) ⟨.node [] [], [], none⟩
        (confEntries conf.sections) := AllSteps.of_forall _ _ fun e he _ => hnamed e he
    refine run_invariant_of_allSteps (fun _ _ _ h hname hstep => h.writeEntry hname hstep) _ _ _
      ?_ hall hrun
    exact ⟨⟨rfl, fun _ hp => absurd hp List.not_mem_nil⟩, fun _ h => by cases h⟩
  have hroot : ∀ p ∈ data.hRootKey.subkeys, p.2.Good names ∧
      (data.hRootKey.subkeys.map fun e => names.upcase e.1).Nodup := by
    have hnode := hgood.root
    cases hkey : data.hRootKey with
    | node values subkeys =>
      rw [hkey] at hnode
      exact fun p hp => ⟨(goodSubkeys_iff.mp hnode.2.2.2 p hp).2, hnode.2.2.1⟩
  have hapart : ToldApart names conf.sections := by
    refine ⟨hkeyName, ?_, fun s hs => ?_, fun s hs k hk => ?_⟩
    · refine (List.Nodup.of_map _ conf.distinct.sects).map_on fun s hs s' hs' heq => ?_
      obtain ⟨k, hk⟩ := List.exists_mem_of_ne_nil _ (hnonempty s hs)
      obtain ⟨k', hk'⟩ := List.exists_mem_of_ne_nil _ (hnonempty s' hs')
      obtain ⟨d, hmem, -⟩ := hdisplayed s hs k hk
      obtain ⟨d', hmem', -⟩ := hdisplayed s' hs' k' hk'
      obtain ⟨values, hkey, -⟩ := hflat.root.mem_listed hmem
      obtain ⟨values', hkey', -⟩ := hflat.root.mem_listed hmem'
      have hpair := eq_of_name (hroot _ hkey).2 hkey hkey' heq
      exact eq_of_name conf.distinct.sects hs hs' (Prod.mk.inj hpair).1
    · refine (List.Nodup.of_map _ (conf.distinct.keys s hs)).map_on fun k hk k' hk' heq => ?_
      obtain ⟨d, hmem, -⟩ := hdisplayed s hs k hk
      obtain ⟨d', hmem', -⟩ := hdisplayed s hs k' hk'
      obtain ⟨values, hkey, hv⟩ := hflat.root.mem_listed hmem
      obtain ⟨values', hkey', hv'⟩ := hflat.root.mem_listed hmem'
      have hsame := eq_of_name (hroot _ hkey).2 hkey hkey' rfl
      cases hsame
      have hpair := eq_of_name (hroot _ hkey).1.1 hv hv' heq
      exact eq_of_name (conf.distinct.keys s hs) hk hk' (Prod.mk.inj hpair).1
    · obtain ⟨d, hmem, -⟩ := hdisplayed s hs k hk
      obtain ⟨values, hkey, hv⟩ := hflat.root.mem_listed hmem
      exact (hroot _ hkey).1.2.1 _ hv
  refine ⟨hapart, fun s hs k hk => ?_⟩
  have hsaved := saved_of_toldApart hnonempty hapart (written_of_run hnamed hrun)
  rw [saveConfInRegistry_eq, hrun] at hsaved
  obtain ⟨d, hmem, hdecode⟩ := hdisplayed s hs k hk
  rw [show data.hRootKey = writtenTree conf.sections from Option.some.inj hsaved,
    mem_listed_writtenTree] at hmem
  obtain ⟨s', hs', hsect, k', hk', hkey, hwritten⟩ := hmem
  obtain rfl := eq_of_name conf.distinct.sects hs' hs hsect
  obtain rfl := eq_of_name (conf.distinct.keys s' hs') hk' hk hkey
  exact roundTrips_iff_decoded.mpr ⟨d, hwritten, hdecode⟩

/-! ## Two sections -/

instance (name : CString) : Decidable (IsKeyName name) :=
  decidable_of_iff (name ≠ [] ∧ '\\' ∉ name ∧ name.length ≤ maxKeyName)
    ⟨fun h => ⟨h.1, h.2.1, h.2.2⟩, fun h => ⟨h.ne_nil, h.noBackslash, h.length_le⟩⟩

/-- The registry, for names without letters beyond ASCII. -/
def asciiNames : RegNames where
  upcase := List.map Char.toUpper
  path name :=
    if ∀ n ∈ name.splitOn '\\', IsKeyName n then some (name.splitOn '\\') else none
  path_name := by
    intro name h
    have hsplit : name.splitOn '\\' = [name] := by
      rw [List.splitOn_eq_splitOnP]
      refine List.splitOnP_eq_singleton fun c hc => beq_eq_false_iff_ne.mpr fun heq => ?_
      exact h.noBackslash (heq ▸ hc)
    rw [hsplit, if_pos (by simpa using h)]
  path_names := by
    intro name path h n hn
    obtain ⟨hall, heq⟩ := Option.ite_none_right_eq_some.mp h
    cases heq
    exact hall n hn

/-- Two sections whose names differ in case. -/
def caseConf : A6oConf where
  sections :=
    [⟨"scan".toList, [⟨"enable".toList, .int 1⟩]⟩, ⟨"Scan".toList, [⟨"enable".toList, .int 0⟩]⟩]
  distinct := ⟨by decide, by decide⟩

theorem restored_iff_case :
    NoEmptySection caseConf.sections ∧ ¬ Restored asciiNames caseConf := by
  have hnonempty : NoEmptySection caseConf.sections := by
    unfold NoEmptySection
    decide
  refine ⟨hnonempty, fun hrestored => ?_⟩
  exact absurd ((restored_iff hnonempty).mp hrestored).1.sects (by decide)

end Armadito.Conf.Windows
