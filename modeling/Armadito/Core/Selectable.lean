import Armadito.Conf.Load
import Armadito.Conf.Save
import Armadito.Core.MimeCache
import Armadito.Core.ScanCtx

/-!
# Core.Selectable

From the text of a configuration to the modules that scan a file
(`armadito.c`, `module.c`, `ondemandmod.c`, `onaccessmod.c`, `scanconf.c`).

The `modules` keys name modules of the manager. Those built into the
library are among them, and they have neither a table of MIME types nor a
scan function.
-/

namespace Armadito.Core

open Conf (A6oConf A6oConfValue SectionEntry KeyEntry keyEntryGet keyEntryGetSect
  sectionEntryGet a6oConfApply a6oConfLoadFile a6oConfNew)

/-! ## Configuration functions -/

/-- What `a6o_scan_conf_on_demand` and `a6o_scan_conf_on_access` return. -/
structure ScanConfs where
  onDemand : A6oScanConf
  onAccess : A6oScanConf

/-- `a6o_conf_value_get_type`: a bit of the type masks. -/
def a6oConfValueGetType : A6oConfValue → Nat
  | .void => 0
  | .int _ => 1 <<< 0
  | .string _ => 1 <<< 1
  | .list _ => 1 <<< 2

/-- A configuration function: what its module has pointers to, and what is
set. -/
abbrev ConfFun (ε σ : Type) := ε → A6oConfValue → σ → σ

/-- `struct a6o_conf_entry`. -/
structure A6oConfEntry (ε σ : Type) where
  key : CString
  type : Nat
  confFun : ConfFun ε σ

/-- `CONF_TYPE_STRING | CONF_TYPE_LIST`. -/
def stringOrList : Nat := 1 <<< 1 ||| 1 <<< 2

/-- The string, or the strings of the list. The type mask lets nothing else
through. -/
def confStrings : A6oConfValue → List CString
  | .string v => [v]
  | .list values => values
  | .void | .int _ => []

/-- The loop that adds the directories of a list. -/
def confWhiteListDir (value : A6oConfValue) (c : A6oScanConf) : A6oScanConf :=
  { c with directoriesWhiteList := c.directoriesWhiteList ++ confStrings value }

/-- The loop that adds the modules of a list. -/
def confModules (u : List A6oModule) (value : A6oConfValue) (c : A6oScanConf) : A6oScanConf :=
  (confStrings value).foldl (fun c name => a6oScanConfAddModule c name u) c

/-- The loop that adds the types of a list. -/
def confMimeTypes (value : A6oConfValue) (c : A6oScanConf) : A6oScanConf :=
  (confStrings value).foldl a6oScanConfAddMimeType c

/-- A function that leaves the scan configurations alone, or sets their
maximal file size only. -/
def confOther : ConfFun (List A6oModule) ScanConfs := fun _ _ confs => confs

/-- `mod_on_demand_conf_white_list_dir`. -/
def modOnDemandConfWhiteListDir : ConfFun (List A6oModule) ScanConfs := fun _ value confs =>
  { confs with onDemand := confWhiteListDir value confs.onDemand }

/-- `mod_on_demand_conf_modules`. -/
def modOnDemandConfModules : ConfFun (List A6oModule) ScanConfs := fun u value confs =>
  { confs with onDemand := confModules u value confs.onDemand }

/-- `mod_on_demand_conf_mime_types`. -/
def modOnDemandConfMimeTypes : ConfFun (List A6oModule) ScanConfs := fun _ value confs =>
  { confs with onDemand := confMimeTypes value confs.onDemand }

/-- `mod_oal_conf_white_list_dir`. -/
def modOalConfWhiteListDir : ConfFun (List A6oModule) ScanConfs := fun _ value confs =>
  { confs with onAccess := confWhiteListDir value confs.onAccess }

/-- `mod_oal_conf_modules`. -/
def modOalConfModules : ConfFun (List A6oModule) ScanConfs := fun u value confs =>
  { confs with onAccess := confModules u value confs.onAccess }

/-- `mod_oal_conf_mime_types`. -/
def modOalConfMimeTypes : ConfFun (List A6oModule) ScanConfs := fun _ value confs =>
  { confs with onAccess := confMimeTypes value confs.onAccess }

/-! ## Tables -/

/-- The functions in the tables of the built-in modules: those of the scan
configurations, in terms of what is set, and one for each of the other keys.
`scanConfFuns` sets the scan configurations alone, `Daemon.Settings` has a
value that sets the rest as well. -/
structure ConfFuns (ε σ : Type) where
  onScanConfs : ConfFun (List A6oModule) ScanConfs → ConfFun ε σ
  enable : ConfFun ε σ
  enablePermission : ConfFun ε σ
  enableRemovableMedia : ConfFun ε σ
  autoscanRemovableMedia : ConfFun ε σ
  mount : ConfFun ε σ
  directory : ConfFun ε σ
  quarantineDir : ConfFun ε σ
  quarantineEnable : ConfFun ε σ

section Tables

variable {ε σ : Type}

/-- `on_demand_conf_table`. -/
def onDemandConfTable (f : ConfFuns ε σ) : List (A6oConfEntry ε σ) :=
  [⟨"white-list-dir".toList, stringOrList, f.onScanConfs modOnDemandConfWhiteListDir⟩,
    ⟨"modules".toList, stringOrList, f.onScanConfs modOnDemandConfModules⟩,
    ⟨"mime-types".toList, stringOrList, f.onScanConfs modOnDemandConfMimeTypes⟩,
    ⟨"max-size".toList, 1 <<< 0, f.onScanConfs confOther⟩]

/-- `mod_oal_conf_table`. -/
def modOalConfTable (f : ConfFuns ε σ) : List (A6oConfEntry ε σ) :=
  [⟨"enable".toList, 1 <<< 0, f.enable⟩,
    ⟨"enable-permission".toList, 1 <<< 0, f.enablePermission⟩,
    ⟨"enable-removable-media".toList, 1 <<< 0, f.enableRemovableMedia⟩,
    ⟨"autoscan-removable-media".toList, 1 <<< 0, f.autoscanRemovableMedia⟩,
    ⟨"mount".toList, stringOrList, f.mount⟩,
    ⟨"directory".toList, stringOrList, f.directory⟩,
    ⟨"white-list-dir".toList, stringOrList, f.onScanConfs modOalConfWhiteListDir⟩,
    ⟨"mime-types".toList, stringOrList, f.onScanConfs modOalConfMimeTypes⟩,
    ⟨"modules".toList, stringOrList, f.onScanConfs modOalConfModules⟩,
    ⟨"max-size".toList, 1 <<< 0, f.onScanConfs confOther⟩]

/-- `quarantine_conf_table`. -/
def quarantineConfTable (f : ConfFuns ε σ) : List (A6oConfEntry ε σ) :=
  [⟨"quarantine-dir".toList, 1 <<< 1, f.quarantineDir⟩,
    ⟨"enable".toList, 1 <<< 0, f.quarantineEnable⟩]

/-! ## The modules of the manager -/

/-- A module with its configuration table. The module is taken as it is
when a file is scanned; its name, its table of MIME types and its functions
stay what they were when it was added. -/
structure ManagedModule (ε σ : Type) where
  module : A6oModule
  confTable : List (A6oConfEntry ε σ)

/-- A module of the library, which scans nothing itself. -/
def builtinModule (name : CString) (confTable : List (A6oConfEntry ε σ)) :
    ManagedModule ε σ where
  module := { name, status := .ok, supportedMimeTypes := none, scanFun := none }
  confTable

/-- `on_demand_module`. -/
def onDemandModule (f : ConfFuns ε σ) : ManagedModule ε σ :=
  builtinModule "on-demand".toList (onDemandConfTable f)

/-- `on_access_linux_module`. -/
def onAccessLinuxModule (f : ConfFuns ε σ) : ManagedModule ε σ :=
  builtinModule "on-access-linux".toList (modOalConfTable f)

/-- `quarantine_module`. -/
def quarantineModule (f : ConfFuns ε σ) : ManagedModule ε σ :=
  builtinModule "quarantine".toList (quarantineConfTable f)

/-- The macros of `armadito-config.h`. -/
structure Build where
  haveOnDemandModule : Bool
  haveLinuxOnAccessModule : Bool
  haveQuarantineModule : Bool

/-- `a6o_add_builtin_modules`. -/
def a6oAddBuiltinModules (f : ConfFuns ε σ) (build : Build) : List (ManagedModule ε σ) :=
  (if build.haveOnDemandModule then [onDemandModule f] else [])
    ++ (if build.haveLinuxOnAccessModule then [onAccessLinuxModule f] else [])
    ++ (if build.haveQuarantineModule then [quarantineModule f] else [])

/-- The functions in the table of a loaded module are its own; what the
built-in modules set is not in the interface it is compiled against. -/
def loadedModule (mod : A6oModule) : ManagedModule ε σ := ⟨mod, []⟩

/-- The built-in modules come first. -/
def allModules (f : ConfFuns ε σ) (build : Build) (loaded : List A6oModule) :
    List (ManagedModule ε σ) :=
  a6oAddBuiltinModules f build ++ loaded.map loadedModule

/-- `a6o_get_modules`. -/
def a6oGetModules (mm : List (ManagedModule ε σ)) : List A6oModule := mm.map (·.module)

/-- The rest of `module_conf_fun`, with the table of the module. -/
def confTableApply (table : List (A6oConfEntry ε σ)) (e : ε) (key : CString)
    (value : A6oConfValue) (s : σ) : σ :=
  match table.find? (fun entry => entry.key = key) with
  | none => s
  | some entry =>
    if a6oConfValueGetType value &&& entry.type = 0 then s else entry.confFun e value s

/-- `module_conf_fun`. -/
def moduleConfFun (mm : List (ManagedModule ε σ)) (e : ε) (sect key : CString)
    (value : A6oConfValue) (s : σ) : σ :=
  match mm.find? (fun m => m.module.name = sect) with
  | none => s
  | some mod => confTableApply mod.confTable e key value s

end Tables

/-! ## The scan configurations alone -/

/-- The functions of the tables as far as they change a scan configuration. -/
def scanConfFuns : ConfFuns (List A6oModule) ScanConfs where
  onScanConfs := id
  enable := confOther
  enablePermission := confOther
  enableRemovableMedia := confOther
  autoscanRemovableMedia := confOther
  mount := confOther
  directory := confOther
  quarantineDir := confOther
  quarantineEnable := confOther

/-- An entry of a table, for the scan configurations. -/
abbrev ScanConfEntry := A6oConfEntry (List A6oModule) ScanConfs

/-- A module, for the scan configurations. -/
abbrev ScanModule := ManagedModule (List A6oModule) ScanConfs

/-- The modules of a manager, whose functions set the scan configurations. -/
def managedModules (build : Build) (loaded : List A6oModule) : List ScanModule :=
  allModules scanConfFuns build loaded

/-- `module_manager_configure_all`. The functions are given the modules of
the manager. -/
def moduleManagerConfigureAll (mm : List ScanModule) (conf : A6oConf) : ScanConfs :=
  a6oConfApply conf.sections (moduleConfFun mm (a6oGetModules mm))
    ⟨a6oScanConfNew, a6oScanConfNew⟩

/-- The scan configurations of a process that has read the text. -/
def scanConfs (build : Build) (loaded : List A6oModule) (text : List Char) : ScanConfs :=
  moduleManagerConfigureAll (managedModules build loaded)
    (a6oConfLoadFile a6oConfNew (some text)).2

/-! ## What a table sets -/

/-- What the table of a scan section does to its own scan configuration. -/
def ownEffect (u : List A6oModule) (key : CString) (value : A6oConfValue) (c : A6oScanConf) :
    A6oScanConf :=
  if key = "modules".toList then confModules u value c
  else if key = "mime-types".toList then confMimeTypes value c
  else if key = "white-list-dir".toList then confWhiteListDir value c
  else c

/-- The table belongs to the scan configuration. -/
structure Owns (get : ScanConfs → A6oScanConf) (table : List ScanConfEntry) : Prop where
  keys : ∀ key ∈ ["modules".toList, "mime-types".toList, "white-list-dir".toList],
    ∃ entry ∈ table, entry.key = key
  entries : ∀ entry ∈ table, ∀ u value confs,
    get (entry.confFun u value confs) = ownEffect u entry.key value (get confs)
  masks : ∀ entry ∈ table, entry.type = stringOrList ∨
    ∀ u value c, ownEffect u entry.key value c = c

/-- No function of the table reaches the scan configuration. -/
def Foreign (get : ScanConfs → A6oScanConf) (table : List ScanConfEntry) : Prop :=
  ∀ entry ∈ table, ∀ u value confs, get (entry.confFun u value confs) = get confs

theorem confStrings_of_masked {value : A6oConfValue}
    (h : a6oConfValueGetType value &&& stringOrList = 0) : confStrings value = [] := by
  cases value with
  | void => rfl
  | int v => rfl
  | string v => exact absurd h (show ¬ 1 <<< 1 &&& stringOrList = 0 by decide)
  | list values => exact absurd h (show ¬ 1 <<< 2 &&& stringOrList = 0 by decide)

theorem ownEffect_of_noStrings {value : A6oConfValue} (h : confStrings value = [])
    (u : List A6oModule) (key : CString) (c : A6oScanConf) : ownEffect u key value c = c := by
  rw [ownEffect]
  split
  · rw [confModules, h]
    rfl
  · split
    · rw [confMimeTypes, h]
      rfl
    · split
      · rw [confWhiteListDir, h, List.append_nil]
      · rfl

theorem Owns.apply {get : ScanConfs → A6oScanConf} {table : List ScanConfEntry}
    (h : Owns get table) (u : List A6oModule) (key : CString) (value : A6oConfValue)
    (confs : ScanConfs) :
    get (confTableApply table u key value confs) = ownEffect u key value (get confs) := by
  rw [confTableApply]
  split
  · next hnone =>
    have habsent : ∀ k ∈ ["modules".toList, "mime-types".toList, "white-list-dir".toList],
        key ≠ k := by
      rintro k hk rfl
      obtain ⟨entry, hentry, hkey⟩ := h.keys key hk
      exact absurd hkey (by simpa using List.find?_eq_none.mp hnone entry hentry)
    rw [ownEffect, if_neg (habsent _ (by simp)), if_neg (habsent _ (by simp)),
      if_neg (habsent _ (by simp))]
  · next entry hentry =>
    have hmem := List.mem_of_find?_eq_some hentry
    obtain rfl : entry.key = key := by simpa using List.find?_some hentry
    split
    · next hmask =>
      rcases h.masks entry hmem with hstrings | hother
      · rw [hstrings] at hmask
        rw [ownEffect_of_noStrings (confStrings_of_masked hmask)]
      · rw [hother]
    · exact h.entries entry hmem u value confs

theorem Foreign.apply {get : ScanConfs → A6oScanConf} {table : List ScanConfEntry}
    (h : Foreign get table) (u : List A6oModule) (key : CString) (value : A6oConfValue)
    (confs : ScanConfs) : get (confTableApply table u key value confs) = get confs := by
  rw [confTableApply]
  split
  · rfl
  · next entry hentry =>
    split
    · rfl
    · exact h entry (List.mem_of_find?_eq_some hentry) u value confs

theorem owns_onDemandConfTable : Owns ScanConfs.onDemand (onDemandConfTable scanConfFuns) where
  keys := by simp [onDemandConfTable]
  entries := by
    simp only [onDemandConfTable, List.forall_mem_cons, List.not_mem_nil, false_implies,
      implies_true, and_true]
    exact ⟨fun _ _ _ => rfl, fun _ _ _ => rfl, fun _ _ _ => rfl, fun _ _ _ => rfl⟩
  masks := by
    simp only [onDemandConfTable, List.forall_mem_cons, List.not_mem_nil, false_implies,
      implies_true, and_true]
    exact ⟨.inl trivial, .inl trivial, .inl trivial, .inr fun _ _ _ => rfl⟩

theorem owns_modOalConfTable : Owns ScanConfs.onAccess (modOalConfTable scanConfFuns) where
  keys := by simp [modOalConfTable]
  entries := by
    simp only [modOalConfTable, List.forall_mem_cons, List.not_mem_nil, false_implies,
      implies_true, and_true]
    refine ⟨?_, ?_, ?_, ?_, ?_, ?_, ?_, ?_, ?_, ?_⟩ <;> exact fun _ _ _ => rfl
  masks := by
    simp only [modOalConfTable, List.forall_mem_cons, List.not_mem_nil, false_implies,
      implies_true, and_true]
    exact ⟨.inr fun _ _ _ => rfl, .inr fun _ _ _ => rfl, .inr fun _ _ _ => rfl,
      .inr fun _ _ _ => rfl, .inl trivial, .inl trivial, .inl trivial, .inl trivial,
      .inl trivial, .inr fun _ _ _ => rfl⟩

theorem foreign_modOalConfTable : Foreign ScanConfs.onDemand (modOalConfTable scanConfFuns) := by
  simp [Foreign, modOalConfTable, scanConfFuns, confOther, modOalConfWhiteListDir,
    modOalConfMimeTypes, modOalConfModules]

theorem foreign_onDemandConfTable :
    Foreign ScanConfs.onAccess (onDemandConfTable scanConfFuns) := by
  simp [Foreign, onDemandConfTable, scanConfFuns, confOther, modOnDemandConfWhiteListDir,
    modOnDemandConfMimeTypes, modOnDemandConfModules]

theorem foreign_quarantineConfTable (get : ScanConfs → A6oScanConf) :
    Foreign get (quarantineConfTable scanConfFuns) := by
  simp [Foreign, quarantineConfTable, scanConfFuns, confOther]

/-! ## What a configuration sets -/

/-- The strings under a key of a section. -/
def setting (conf : A6oConf) (sect key : CString) : List CString :=
  ((keyEntryGet conf.sections sect key).map fun k => confStrings k.value).getD []

theorem keys_foldl {δ β : Type} {p : δ → List β}
    {f : CString → CString → A6oConfValue → δ → δ} {sect key : CString}
    {g : A6oConfValue → List β}
    (hf : ∀ s k v d, p (f s k v d) = p d ++ if s = sect ∧ k = key then g v else [])
    (s : SectionEntry) (keys : List KeyEntry) (d : δ) :
    p (keys.foldl (fun d k => f s.sect k.key k.value d) d)
      = p d ++ if s.sect = sect then
          keys.flatMap fun k => if k.key = key then g k.value else []
        else [] := by
  induction keys generalizing d with
  | nil => simp
  | cons k keys ih =>
    rw [List.foldl_cons, ih, hf]
    by_cases hs : s.sect = sect
    · by_cases hk : k.key = key <;> simp [hs, hk]
    · simp [hs]

/-- A list that one key alone adds to gets the value of that key. -/
theorem a6oConfApply_append {δ β : Type} {p : δ → List β}
    {f : CString → CString → A6oConfValue → δ → δ} {sect key : CString}
    {g : A6oConfValue → List β}
    (hf : ∀ s k v d, p (f s k v d) = p d ++ if s = sect ∧ k = key then g v else [])
    (conf : A6oConf) (d : δ) :
    p (a6oConfApply conf.sections f d)
      = p d ++ ((keyEntryGet conf.sections sect key).map fun k => g k.value).getD [] := by
  have hsections : ∀ (sections : List SectionEntry) (d : δ),
      p (a6oConfApply sections f d)
        = p d ++ sections.flatMap fun s => if s.sect = sect then
            s.keys.flatMap fun k => if k.key = key then g k.value else []
          else [] := by
    intro sections
    induction sections with
    | nil =>
      intro d
      simp [a6oConfApply]
    | cons s sections ih =>
      intro d
      have hrest := ih (s.keys.foldl (fun d k => f s.sect k.key k.value d) d)
      rw [a6oConfApply] at hrest ⊢
      rw [List.foldl_cons, hrest, keys_foldl hf, List.flatMap_cons, List.append_assoc]
  rw [hsections, NamedArray.flatMap_of_name conf.distinct.sects]
  congr 1
  rw [keyEntryGet, sectionEntryGet]
  cases hsect : NamedArray.search Conf.SectionEntryOf.sect conf.sections sect with
  | none => rfl
  | some s =>
    rw [Option.map_some, Option.getD_some,
      NamedArray.flatMap_of_name (conf.distinct.keys s (NamedArray.mem_of_search hsect))]
    rfl

/-! ## The scan configurations -/

theorem foldl_addModule (u : List A6oModule) (names : List CString) (c : A6oScanConf) :
    names.foldl (fun c name => a6oScanConfAddModule c name u) c
      = { c with modules := c.modules ++ names.filterMap (a6oGetModuleByName u) } := by
  induction names generalizing c with
  | nil => simp
  | cons name names ih =>
    rw [List.foldl_cons, ih, a6oScanConfAddModule]
    cases h : a6oGetModuleByName u name with
    | none => simp [h]
    | some mod => simp [h]

theorem foldl_addMimeType (mimeTypes : List CString) (c : A6oScanConf) :
    mimeTypes.foldl a6oScanConfAddMimeType c
      = { c with mimeTypes := c.mimeTypes ++ mimeTypes } := by
  induction mimeTypes generalizing c with
  | nil => simp
  | cons mimeType mimeTypes ih =>
    rw [List.foldl_cons, ih, a6oScanConfAddMimeType]
    simp

theorem ownEffect_modules (u : List A6oModule) (key : CString) (value : A6oConfValue)
    (c : A6oScanConf) :
    (ownEffect u key value c).modules = c.modules ++ if key = "modules".toList then
      (confStrings value).filterMap (a6oGetModuleByName u) else [] := by
  rw [ownEffect, confModules, confMimeTypes, foldl_addModule, foldl_addMimeType]
  split
  · rfl
  · split
    · simp
    · split <;> simp [confWhiteListDir]

theorem ownEffect_mimeTypes (u : List A6oModule) (key : CString) (value : A6oConfValue)
    (c : A6oScanConf) :
    (ownEffect u key value c).mimeTypes
      = c.mimeTypes ++ if key = "mime-types".toList then confStrings value else [] := by
  rw [ownEffect, confModules, confMimeTypes, foldl_addModule, foldl_addMimeType]
  split
  · next h => simp [h]
  · split
    · rfl
    · split <;> simp [confWhiteListDir]

theorem ownEffect_mimeTypeCache (u : List A6oModule) (key : CString) (value : A6oConfValue)
    (c : A6oScanConf) : (ownEffect u key value c).mimeTypeCache = c.mimeTypeCache := by
  rw [ownEffect, confModules, confMimeTypes, foldl_addModule, foldl_addMimeType]
  split
  · rfl
  · split
    · rfl
    · split <;> rfl

/-- A section with a scan configuration, and whether its module is built in. -/
structure ScanSection where
  name : CString
  built : Bool
  get : ScanConfs → A6oScanConf

/-- The section of the scans on demand. -/
def onDemandSection (build : Build) : ScanSection :=
  ⟨"on-demand".toList, build.haveOnDemandModule, ScanConfs.onDemand⟩

/-- The section of the scans on access. -/
def onAccessSection (build : Build) : ScanSection :=
  ⟨"on-access-linux".toList, build.haveLinuxOnAccessModule, ScanConfs.onAccess⟩

/-- What the configuration gives under a key of the section. -/
def ScanSection.given (sect : ScanSection) (conf : A6oConf) (key : CString) : List CString :=
  if sect.built then setting conf sect.name key else []

/-- The settings of the section, and no others, reach its configuration. -/
def ScanSection.Reached (sect : ScanSection) (mm : List ScanModule) : Prop :=
  ∀ s key value confs, sect.get (moduleConfFun mm (a6oGetModules mm) s key value confs)
    = if sect.built ∧ s = sect.name then ownEffect (a6oGetModules mm) key value (sect.get confs)
      else sect.get confs

theorem mem_managedModules {build : Build} {loaded : List A6oModule} {m : ScanModule}
    (h : m ∈ managedModules build loaded) :
    (build.haveOnDemandModule ∧ m = onDemandModule scanConfFuns) ∨
      (build.haveLinuxOnAccessModule ∧ m = onAccessLinuxModule scanConfFuns) ∨
        m = quarantineModule scanConfFuns ∨ ∃ mod ∈ loaded, m = loadedModule mod := by
  simp only [managedModules, allModules, a6oAddBuiltinModules, List.mem_append,
    List.mem_ite_nil_right, List.mem_singleton, List.mem_map] at h
  rcases h with ((h | h) | ⟨-, h⟩) | ⟨mod, hmod, h⟩
  · exact .inl h
  · exact .inr (.inl h)
  · exact .inr (.inr (.inl h))
  · exact .inr (.inr (.inr ⟨mod, hmod, h.symm⟩))

theorem reached_of {sect : ScanSection} {mm : List ScanModule} {own : ScanModule}
    (howns : Owns sect.get own.confTable) (hname : own.module.name = sect.name)
    (hfind : sect.built → mm.find? (fun m => m.module.name = sect.name) = some own)
    (hmem : ∀ m ∈ mm, (sect.built ∧ m = own) ∨ Foreign sect.get m.confTable) :
    sect.Reached mm := by
  intro s key value confs
  by_cases hown : sect.built ∧ s = sect.name
  · obtain ⟨hbuilt, rfl⟩ := hown
    rw [if_pos ⟨hbuilt, rfl⟩, moduleConfFun, hfind hbuilt]
    exact howns.apply _ key value confs
  · rw [if_neg hown, moduleConfFun]
    split
    · rfl
    · next m hm =>
      have hs : m.module.name = s := by simpa using List.find?_some hm
      rcases hmem m (List.mem_of_find?_eq_some hm) with ⟨hbuilt, rfl⟩ | hforeign
      · exact absurd ⟨hbuilt, hs.symm.trans hname⟩ hown
      · exact hforeign.apply _ key value confs

theorem foreign_nil (get : ScanConfs → A6oScanConf) : Foreign get [] := by
  intro entry hentry
  cases hentry

theorem reached_onDemand (build : Build) (loaded : List A6oModule) :
    (onDemandSection build).Reached (managedModules build loaded) := by
  refine @reached_of _ _ (onDemandModule scanConfFuns) owns_onDemandConfTable rfl ?_ ?_
  · intro (hbuilt : build.haveOnDemandModule = true)
    rw [managedModules, allModules, a6oAddBuiltinModules, if_pos hbuilt]
    exact List.find?_cons_of_pos (decide_eq_true rfl)
  · intro m hm
    rcases mem_managedModules hm with h | ⟨-, rfl⟩ | rfl | ⟨mod, -, rfl⟩
    · exact .inl h
    · exact .inr foreign_modOalConfTable
    · exact .inr (foreign_quarantineConfTable _)
    · exact .inr (foreign_nil _)

theorem reached_onAccess (build : Build) (loaded : List A6oModule) :
    (onAccessSection build).Reached (managedModules build loaded) := by
  refine @reached_of _ _ (onAccessLinuxModule scanConfFuns) owns_modOalConfTable rfl ?_ ?_
  · intro (hbuilt : build.haveLinuxOnAccessModule = true)
    have hfirst : ∀ rest : List ScanModule, (onAccessLinuxModule scanConfFuns :: rest).find?
        (fun m => m.module.name = "on-access-linux".toList) =
          some (onAccessLinuxModule scanConfFuns) :=
      fun rest => List.find?_cons_of_pos (decide_eq_true rfl)
    rw [managedModules, allModules, a6oAddBuiltinModules, if_pos hbuilt]
    split
    · refine (List.find?_cons_of_neg ?_).trans (hfirst _)
      show ¬ decide ("on-demand".toList = "on-access-linux".toList) = true
      decide
    · exact hfirst _
  · intro m hm
    rcases mem_managedModules hm with ⟨-, rfl⟩ | h | rfl | ⟨mod, -, rfl⟩
    · exact .inr foreign_onDemandConfTable
    · exact .inl h
    · exact .inr (foreign_quarantineConfTable _)
    · exact .inr (foreign_nil _)

/-- A list that one key of the section adds to. -/
theorem get_configureAll {β : Type} {sect : ScanSection} {mm : List ScanModule}
    (h : sect.Reached mm) {p : A6oScanConf → List β} {key : CString}
    {g : List CString → List β} (hg : g [] = [])
    (hp : ∀ k value c, p (ownEffect (a6oGetModules mm) k value c)
      = p c ++ if k = key then g (confStrings value) else [])
    (conf : A6oConf) (confs : ScanConfs) :
    p (sect.get (a6oConfApply conf.sections (moduleConfFun mm (a6oGetModules mm)) confs))
      = p (sect.get confs) ++ g (sect.given conf key) := by
  have happend := @a6oConfApply_append _ _ (fun confs => p (sect.get confs))
    (moduleConfFun mm (a6oGetModules mm))
    sect.name key (fun value => if sect.built then g (confStrings value) else []) ?_ conf confs
  · rw [happend, ScanSection.given, setting]
    by_cases hbuilt : sect.built
    · cases keyEntryGet conf.sections sect.name key <;> simp [hbuilt, hg]
    · cases keyEntryGet conf.sections sect.name key <;> simp [hbuilt, hg]
  · intro s k value confs
    rw [h s k value confs]
    by_cases hbuilt : sect.built
    · by_cases hs : s = sect.name <;> simp [hbuilt, hs, hp]
    · simp [hbuilt]

/-- The configuration of a section has what the section gives, and its
cache is empty. -/
theorem configured_eq {sect : ScanSection} {mm : List ScanModule} (h : sect.Reached mm)
    (hnew : sect.get ⟨a6oScanConfNew, a6oScanConfNew⟩ = a6oScanConfNew) (conf : A6oConf) :
    (sect.get (moduleManagerConfigureAll mm conf)).modules
        = (sect.given conf "modules".toList).filterMap (a6oGetModuleByName (a6oGetModules mm)) ∧
      (sect.get (moduleManagerConfigureAll mm conf)).mimeTypes
        = sect.given conf "mime-types".toList ∧
      (sect.get (moduleManagerConfigureAll mm conf)).mimeTypeCache = [] := by
  have hmodules := get_configureAll (p := A6oScanConf.modules)
    (g := fun names => names.filterMap (a6oGetModuleByName (a6oGetModules mm))) h rfl
    (ownEffect_modules (a6oGetModules mm)) conf ⟨a6oScanConfNew, a6oScanConfNew⟩
  have hmime := get_configureAll (p := A6oScanConf.mimeTypes) (g := id) h rfl
    (ownEffect_mimeTypes (a6oGetModules mm)) conf ⟨a6oScanConfNew, a6oScanConfNew⟩
  have heffect : ∀ k value c, (ownEffect (a6oGetModules mm) k value c).mimeTypeCache
      = c.mimeTypeCache ++ if k = [] then [] else [] := by
    simp [ownEffect_mimeTypeCache]
  have hcache := get_configureAll (p := A6oScanConf.mimeTypeCache) (g := fun _ => []) h rfl
    heffect conf ⟨a6oScanConfNew, a6oScanConfNew⟩
  rw [hnew] at hmodules hmime hcache
  exact ⟨hmodules, hmime, hcache⟩

/-! ## Scanning with what is configured -/

/-- Look-ups read no NULL table, and what they return can be scanned with:
`scan_apply_modules` calls the modules that are OK. -/
structure Scannable (c : A6oScanConf) : Prop where
  lookUps : ∀ mimeTypes, ∃ r, getApplicableModulesAll c mimeTypes = .ok r
  scans : ∀ mimeTypes r, getApplicableModulesAll c mimeTypes = .ok r →
    ∀ modules, some modules ∈ r.1 → ∀ mod ∈ modules, mod.status = .ok → mod.scanFun ≠ none

/-- Some MIME type is configured and in the table. -/
def Meets (mimeTypes table : List CString) : Prop :=
  ∃ mimeType, (mimeType ∈ mimeTypes ∨ "*".toList ∈ mimeTypes) ∧
    (mimeType ∈ table ∨ "*".toList ∈ table)

/-- No MIME type is configured, or each module of one of the names has a
table, and a scan function if it comes to be called. -/
def CanScan (u : List A6oModule) (names mimeTypes : List CString) : Prop :=
  mimeTypes = [] ∨ ∀ name ∈ names, ∀ mod, a6oGetModuleByName u name = some mod →
    ∃ table, mod.supportedMimeTypes = some table ∧
      (mod.status = .ok → Meets mimeTypes table → mod.scanFun ≠ none)

theorem buildModuleArrayLoop_tables {mimeType : CString} {modules r : List A6oModule}
    (h : buildModuleArrayLoop mimeType modules = .ok r) :
    ∀ mod ∈ modules, mod.supportedMimeTypes ≠ none := by
  induction modules generalizing r with
  | nil => simp
  | cons mod mods ih =>
    rw [buildModuleArrayLoop] at h
    cases htable : mod.supportedMimeTypes with
    | none =>
      rw [htable] at h
      cases h
    | some table =>
      rw [htable] at h
      obtain ⟨rest, hrest, -⟩ := bind_eq_ok.mp h
      rw [List.forall_mem_cons, htable]
      exact ⟨Option.some_ne_none table, ih hrest⟩

/-- When the first look-up of a configured MIME type ends, every configured
module has a table. -/
theorem Scannable.tables {c : A6oScanConf} (h : Scannable c) (hcache : c.mimeTypeCache = [])
    (hmime : c.mimeTypes ≠ []) : ∀ mod ∈ c.modules, mod.supportedMimeTypes ≠ none := by
  obtain ⟨mimeType, hmem⟩ := List.exists_mem_of_ne_nil c.mimeTypes hmime
  obtain ⟨r, hr⟩ := h.lookUps [mimeType]
  have hfirst := getApplicableModulesAll_fst hcache [mimeType]
  rw [hr] at hfirst
  obtain ⟨v, hv, -⟩ := bind_eq_ok.mp hfirst.symm
  have hcontains := mimeTypeContains_iff.mpr (.inl hmem)
  rw [uncached, hcontains] at hv
  obtain ⟨modules, hmodules, -⟩ := bind_eq_ok.mp hv
  exact buildModuleArrayLoop_tables hmodules

/-- From an empty cache. -/
theorem scannable_iff_of_new {c : A6oScanConf} (hcache : c.mimeTypeCache = []) :
    Scannable c ↔ c.mimeTypes = [] ∨ ∀ mod ∈ c.modules,
      ∃ table, mod.supportedMimeTypes = some table ∧
        (mod.status = .ok → Meets c.mimeTypes table → mod.scanFun ≠ none) := by
  constructor
  · intro h
    by_cases hmime : c.mimeTypes = []
    · exact .inl hmime
    · have htables := h.tables hcache hmime
      refine .inr fun mod hmod => ?_
      obtain ⟨table, htable⟩ := Option.ne_none_iff_exists'.mp (htables mod hmod)
      refine ⟨table, htable, fun hok ⟨mimeType, hconf, hin⟩ => ?_⟩
      have hfilter : mod ∈ c.modules.filter fun mod => mod.handles mimeType := by
        refine List.mem_filter.mpr ⟨hmod, ?_⟩
        simpa [A6oModule.handles, htable] using hin
      obtain ⟨c', hrun⟩ := getApplicableModulesAll_of_uncached hcache
        (fun mimeType => uncached_eq mimeType htables) [mimeType]
      refine h.scans _ _ hrun _ ?_ mod hfilter hok
      rw [List.map_singleton, if_pos ⟨hconf, List.ne_nil_of_mem hfilter⟩]
      exact List.mem_singleton.mpr rfl
  · rintro (hmime | hmodules)
    · have hnone : ∀ mimeType, uncached c mimeType = .ok none := by
        intro mimeType
        simp [uncached, hmime, mimeTypeContains]
      have hruns := getApplicableModulesAll_of_uncached hcache hnone
      refine ⟨fun mimeTypes => (hruns mimeTypes).imp' _ fun _ h => h, ?_⟩
      intro mimeTypes r hr modules hin
      obtain ⟨c', hrun⟩ := hruns mimeTypes
      obtain rfl := Except.ok.inj (hr.symm.trans hrun)
      simp at hin
    · have htables : ∀ mod ∈ c.modules, mod.supportedMimeTypes ≠ none := by
        intro mod hmod
        obtain ⟨table, htable, -⟩ := hmodules mod hmod
        rw [htable]
        exact Option.some_ne_none table
      have hruns := getApplicableModulesAll_of_uncached hcache
        fun mimeType => uncached_eq mimeType htables
      refine ⟨fun mimeTypes => (hruns mimeTypes).imp' _ fun _ h => h, ?_⟩
      intro mimeTypes r hr modules hin mod hmod hok
      obtain ⟨c', hrun⟩ := hruns mimeTypes
      obtain rfl := Except.ok.inj (hr.symm.trans hrun)
      obtain ⟨mimeType, -, heq⟩ := List.mem_map.mp hin
      simp only [Option.ite_none_right_eq_some, Option.some.injEq] at heq
      obtain ⟨⟨hconf, -⟩, rfl⟩ := heq
      obtain ⟨hmod, hhandles⟩ := List.mem_filter.mp hmod
      obtain ⟨table, htable, hscan⟩ := hmodules mod hmod
      refine hscan hok ⟨mimeType, hconf, ?_⟩
      simpa [A6oModule.handles, htable] using hhandles

theorem ScanSection.Reached.iff_canScan {sect : ScanSection} {mm : List ScanModule}
    (h : sect.Reached mm) (hnew : sect.get ⟨a6oScanConfNew, a6oScanConfNew⟩ = a6oScanConfNew)
    (conf : A6oConf) :
    Scannable (sect.get (moduleManagerConfigureAll mm conf)) ↔
      CanScan (a6oGetModules mm) (sect.given conf "modules".toList)
        (sect.given conf "mime-types".toList) := by
  obtain ⟨hmodules, hmime, hcache⟩ := configured_eq h hnew conf
  rw [scannable_iff_of_new hcache, hmodules, hmime, CanScan]
  simp only [List.mem_filterMap, forall_exists_index, and_imp]
  refine or_congr_right ⟨fun h name hname mod hmod => h mod name hname hmod,
    fun h mod name hname hmod => h name hname mod hmod⟩

/-- **The modules of a configuration can be scanned with if and only if
none of its names is that of a module without a table**, or without a scan
function where it would be called. -/
theorem scannable_iff (build : Build) (loaded : List A6oModule) (text : List Char) :
    Scannable (scanConfs build loaded text).onDemand ∧
        Scannable (scanConfs build loaded text).onAccess ↔
      ∀ sect ∈ [onDemandSection build, onAccessSection build],
        CanScan (a6oGetModules (managedModules build loaded))
          (sect.given (a6oConfLoadFile a6oConfNew (some text)).2 "modules".toList)
          (sect.given (a6oConfLoadFile a6oConfNew (some text)).2 "mime-types".toList) := by
  rw [List.forall_mem_cons, List.forall_mem_singleton]
  exact and_congr ((reached_onDemand build loaded).iff_canScan rfl _)
    ((reached_onAccess build loaded).iff_canScan rfl _)

/-! ## The names of the built-in modules -/

/-- The names of the modules that a build has. -/
def builtinNames (build : Build) : List CString :=
  (a6oAddBuiltinModules scanConfFuns build).map (·.module.name)

theorem a6oGetModules_managedModules (build : Build) (loaded : List A6oModule) :
    a6oGetModules (managedModules build loaded)
      = (a6oAddBuiltinModules scanConfFuns build).map (·.module) ++ loaded := by
  rw [a6oGetModules, managedModules, allModules, List.map_append, List.map_map]
  exact congrArg _ (List.map_id loaded)

theorem builtin_noTable {build : Build} {m : ScanModule}
    (h : m ∈ a6oAddBuiltinModules scanConfFuns build) : m.module.supportedMimeTypes = none := by
  simp only [a6oAddBuiltinModules, List.mem_append, List.mem_ite_nil_right,
    List.mem_singleton] at h
  rcases h with (⟨-, rfl⟩ | ⟨-, rfl⟩) | ⟨-, rfl⟩ <;> rfl

/-- With loaded modules that scan, the names to avoid are those of the
built-in modules. -/
theorem canScan_iff_of_loaded {build : Build} {loaded : List A6oModule}
    (hloaded : ∀ mod ∈ loaded, mod.supportedMimeTypes ≠ none ∧ mod.scanFun ≠ none)
    (names mimeTypes : List CString) :
    CanScan (a6oGetModules (managedModules build loaded)) names mimeTypes ↔
      mimeTypes = [] ∨ ∀ name ∈ names, name ∉ builtinNames build := by
  refine or_congr_right (forall₂_congr fun name _ => ?_)
  rw [a6oGetModules_managedModules, a6oGetModuleByName, List.find?_append]
  constructor
  · intro h hbuiltin
    obtain ⟨m, hm, hname⟩ := List.mem_map.mp hbuiltin
    have hsome : (((a6oAddBuiltinModules scanConfFuns build).map (·.module)).find?
        fun mod => mod.name = name).isSome := by
      simpa using ⟨m, hm, hname⟩
    obtain ⟨mod, hmod⟩ := Option.isSome_iff_exists.mp hsome
    obtain ⟨table, htable, -⟩ := h mod (by rw [hmod]; rfl)
    obtain ⟨m', hm', rfl⟩ := List.mem_map.mp (List.mem_of_find?_eq_some hmod)
    rw [builtin_noTable hm'] at htable
    cases htable
  · intro hname mod hmod
    have hnone : ((a6oAddBuiltinModules scanConfFuns build).map (·.module)).find?
        (fun mod => mod.name = name) = none := by
      simpa [builtinNames] using hname
    rw [hnone, Option.none_or] at hmod
    obtain ⟨htable, hscan⟩ := hloaded mod (List.mem_of_find?_eq_some hmod)
    obtain ⟨table, htable⟩ := Option.ne_none_iff_exists'.mp htable
    exact ⟨table, htable, fun _ _ => hscan⟩

theorem buildModuleArrayLoop_fault {mod : A6oModule} (htable : mod.supportedMimeTypes = none)
    (mimeType : CString) {modules : List A6oModule} (h : mod ∈ modules) :
    buildModuleArrayLoop mimeType modules = .error .nullDeref := by
  induction modules with
  | nil => cases h
  | cons m ms ih =>
    rw [buildModuleArrayLoop]
    rcases List.mem_cons.mp h with rfl | h
    · rw [htable]
    · rw [ih h]
      cases m.supportedMimeTypes <;> rfl

/-- A configured module without a table ends the first look-up of every
configured MIME type. -/
theorem getApplicableModules_fault {c : A6oScanConf} {mimeType : CString} {mod : A6oModule}
    (hcache : c.mimeTypeCache = []) (hmime : mimeType ∈ c.mimeTypes ∨ "*".toList ∈ c.mimeTypes)
    (hmod : mod ∈ c.modules) (htable : mod.supportedMimeTypes = none) :
    a6oScanConfGetApplicableModules c mimeType = .error .nullDeref := by
  rw [getApplicableModules_eq, hcache, Memo.lookUp, uncached, mimeTypeContains_iff.mpr hmime,
    buildModuleArray, buildModuleArrayLoop_fault htable mimeType hmod]
  rfl

/-- The section names its own module. -/
def selfText : List Char := "[on-demand]\nmodules = \"on-demand\"\nmime-types = \"*\"\n".toList

/-- The build with both kinds of scans. -/
def linuxBuild : Build := ⟨true, true, false⟩

/-- A module that finds nothing. -/
def cleanModule : A6oModule :=
  { name := "clamav".toList
    status := .ok
    supportedMimeTypes := some ["*".toList]
    scanFun := some fun _ _ _ => (.clean, none) }

/-- The module is accepted, and the first file dereferences its table. -/
theorem onDemand_selected :
    (scanConfs linuxBuild [cleanModule] selfText).onDemand.modules =
        [(onDemandModule scanConfFuns).module] ∧
      getApplicableModulesAll (scanConfs linuxBuild [cleanModule] selfText).onDemand
        ["text/plain".toList] = .error .nullDeref ∧
      ¬ (Scannable (scanConfs linuxBuild [cleanModule] selfText).onDemand ∧
        Scannable (scanConfs linuxBuild [cleanModule] selfText).onAccess) := by
  have hnames : setting (a6oConfLoadFile a6oConfNew (some selfText)).2 "on-demand".toList
      "modules".toList = ["on-demand".toList] := by decide +kernel
  have hmimes : setting (a6oConfLoadFile a6oConfNew (some selfText)).2 "on-demand".toList
      "mime-types".toList = ["*".toList] := by decide +kernel
  obtain ⟨hmodules, hmime, hcache⟩ := configured_eq (reached_onDemand linuxBuild [cleanModule])
    rfl (a6oConfLoadFile a6oConfNew (some selfText)).2
  have hmodules : (scanConfs linuxBuild [cleanModule] selfText).onDemand.modules
      = [(onDemandModule scanConfFuns).module] := by
    refine hmodules.trans ?_
    show (setting _ "on-demand".toList "modules".toList).filterMap _ = _
    rw [hnames]
    rfl
  have hmime : (scanConfs linuxBuild [cleanModule] selfText).onDemand.mimeTypes
      = ["*".toList] := hmime.trans hmimes
  have hfault : getApplicableModulesAll (scanConfs linuxBuild [cleanModule] selfText).onDemand
      ["text/plain".toList] = .error .nullDeref := by
    have hstar : "*".toList ∈ (scanConfs linuxBuild [cleanModule] selfText).onDemand.mimeTypes := by
      rw [hmime]
      exact List.mem_singleton.mpr rfl
    have hself : (onDemandModule scanConfFuns).module
        ∈ (scanConfs linuxBuild [cleanModule] selfText).onDemand.modules := by
      rw [hmodules]
      exact List.mem_singleton.mpr rfl
    have hfirst : a6oScanConfGetApplicableModules
        (scanConfs linuxBuild [cleanModule] selfText).onDemand "text/plain".toList
          = .error .nullDeref :=
      getApplicableModules_fault hcache (.inr hstar) hself rfl
    rw [getApplicableModulesAll, hfirst]
    rfl
  refine ⟨hmodules, hfault, ?_⟩
  rintro ⟨hscan, -⟩
  obtain ⟨r, hr⟩ := hscan.lookUps ["text/plain".toList]
  rw [hfault] at hr
  cases hr

/-! ## What the scans then do -/

theorem a6oFileStatusCmp_error {s1 s2 : A6oFileStatus} {f : Fault}
    (h : a6oFileStatusCmp s1 s2 = .error f) : f = .assertFailed := by
  cases s1 <;> cases s2 <;> cases h <;> rfl

/-- The loop calls no NULL function. -/
theorem scanApplyModulesFrom_ne_nullCall {seekOk : Nat → Bool} {fd : Int}
    {path : Option CString} {mimeType : CString} {modules : List A6oModule}
    (h : ∀ mod ∈ modules, mod.status = .ok → mod.scanFun ≠ none) :
    ∀ (n : Nat) (current : A6oFileStatus) (report : Option A6oReport),
      scanApplyModulesFrom seekOk fd path mimeType n current report modules
        ≠ .error .nullCall := by
  induction modules with
  | nil =>
    intro n current report hrun
    cases hrun
  | cons mod mods ih =>
    rw [List.forall_mem_cons] at h
    have ih := ih h.2
    intro n current report hrun
    rw [scanApplyModulesFrom] at hrun
    split at hrun
    · exact ih n current report hrun
    · next hok =>
      obtain ⟨scanFun, hfun⟩ := Option.ne_none_iff_exists'.mp (h.1 (not_not.mp hok))
      split at hrun
      · cases hrun
      · rw [hfun] at hrun
        rcases bind_eq_error.mp hrun with hcmp | ⟨order, -, hrun⟩
        · cases a6oFileStatusCmp_error hcmp
        · -- both ways of the comparison go on like this
          have hrest : ∀ (next : A6oFileStatus) (report' : Option A6oReport) (call : ModuleCall),
              (if next = .whiteListed ∨ next = .malware then
                  (pure ⟨next, report', [call]⟩ : Except Fault ScanRun)
                else do
                  let run ← scanApplyModulesFrom seekOk fd path mimeType (n + 1) next report' mods
                  pure (run.afterCall call)) ≠ .error .nullCall := by
            intro next report' call hnext
            split at hnext
            · cases hnext
            · rcases bind_eq_error.mp hnext with hmods | ⟨run, -, hrun⟩
              · exact ih (n + 1) next report' hmods
              · cases hrun
          dsimp only at hrun
          split at hrun
          · exact hrest _ _ _ hrun
          · exact hrest _ _ _ hrun

/-- What a scannable configuration finds is applied without a NULL call. -/
theorem Scannable.scan {c : A6oScanConf} (h : Scannable c) {mimeTypes : List CString}
    {r : List (Option (List A6oModule)) × A6oScanConf}
    (hr : getApplicableModulesAll c mimeTypes = .ok r) {modules : List A6oModule}
    (hin : some modules ∈ r.1) (seekOk : Nat → Bool) (fd : Int) (path : Option CString)
    (mimeType : CString) (report : Option A6oReport) :
    scanApplyModules seekOk fd path mimeType modules report ≠ .error .nullCall :=
  scanApplyModulesFrom_ne_nullCall (h.scans mimeTypes r hr modules hin) 0 .undecided report

end Armadito.Core
