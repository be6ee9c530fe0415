import Armadito.Conf.Order
import Armadito.Daemon.Settings

/-!
# Daemon.Protection

What the daemon protects, as its configuration says it: each setting is the
value of its key, where this has the right type, and the default otherwise.
The modules come to these settings one key at a time, in the order of the
configuration.
-/

namespace Armadito.Daemon

open Armadito.Conf (A6oConf A6oConfValue a6oConfApply valueOf KeysDisjoint)
open Armadito.Core (A6oModule A6oScanConf confStrings a6oConfValueGetType a6oGetModuleByName
  a6oAddBuiltinModules confTableApply onDemandConfTable modOalConfTable quarantineConfTable)
open Armadito.OnAccess.Monitor (MonitorEntry EntryFlag)
open Armadito.Quarantine (QuarantineData)

/-! ## The settings as the files say them -/

/-- The value of each key of a section. -/
abbrev SectionValues := CString → Option A6oConfValue

/-- The integer of a key, as a getter reads it. -/
def intOf : Option A6oConfValue → Int
  | some (.int n) => n
  | _ => 0

/-- The string of a key; `none` is NULL. -/
def stringOf : Option A6oConfValue → Option CString
  | some (.string s) => some s
  | _ => none

/-- The strings of a key. -/
def stringsOf : Option A6oConfValue → List CString
  | some value => confStrings value
  | none => []

/-- What is scanned with, and what is not scanned. -/
structure ScanRules where
  modules : List A6oModule
  mimeTypes : List CString
  whiteList : List CString

/-- What the daemon protects, as its configuration says. -/
@[ext]
structure Protection where
  onDemand : ScanRules
  onAccess : ScanRules
  enable : Int
  enablePermission : Int
  enableRemovableMedia : Int
  autoscanRemovableMedia : Int
  mounts : List CString
  directories : List CString
  quarantineDir : Option CString
  quarantineEnable : Int32

/-- The rules that the values of a section make. -/
def scanRules (env : Env) (value : SectionValues) : ScanRules where
  modules := (stringsOf (value "modules".toList)).filterMap (a6oGetModuleByName env.modules)
  mimeTypes := stringsOf (value "mime-types".toList)
  whiteList := stringsOf (value "white-list-dir".toList)

/-- The values of a section, if its module is there. -/
def sectionOf (built : Bool) (value : CString → SectionValues) (sect : CString) :
    SectionValues :=
  if built then value sect else fun _ => none

/-- What the values ask for. -/
def protectionOf (env : Env) (value : CString → SectionValues) : Protection :=
  let onDemand := sectionOf env.build.haveOnDemandModule value "on-demand".toList
  let onAccess := sectionOf env.build.haveLinuxOnAccessModule value "on-access-linux".toList
  let quarantine := sectionOf env.build.haveQuarantineModule value "quarantine".toList
  { onDemand := scanRules env onDemand
    onAccess := scanRules env onAccess
    enable := intOf (onAccess "enable".toList)
    enablePermission := intOf (onAccess "enable-permission".toList)
    enableRemovableMedia := intOf (onAccess "enable-removable-media".toList)
    autoscanRemovableMedia := intOf (onAccess "autoscan-removable-media".toList)
    mounts := (stringsOf (onAccess "mount".toList)).foldl
      (OnAccess.Mounts.accessMonitorAddMount env.stat) []
    directories := stringsOf (onAccess "directory".toList)
    quarantineDir := stringOf (quarantine "quarantine-dir".toList)
    quarantineEnable := Int32.ofInt (intOf (quarantine "enable".toList)) }

/-- The paths of the entries with the flag, in their order. -/
def AccessMonitor.paths (m : AccessMonitor) (flag : EntryFlag) : List CString :=
  (m.entries.filter fun e => e.flag = flag).map MonitorEntry.path

/-- The rules of a scan configuration. -/
def rulesOf (c : A6oScanConf) : ScanRules := ⟨c.modules, c.mimeTypes, c.directoriesWhiteList⟩

/-- What the settings protect. -/
def observe (s : Settings) : Protection where
  onDemand := rulesOf s.confs.onDemand
  onAccess := rulesOf s.confs.onAccess
  enable := s.monitor.enable
  enablePermission := s.monitor.enablePermission
  enableRemovableMedia := s.monitor.enableRemovableMedia
  autoscanRemovableMedia := s.monitor.autoscanRemovableMedia
  mounts := s.monitor.paths .mount
  directories := s.monitor.paths .dir
  quarantineDir := s.quarantine.quarantineDir
  quarantineEnable := s.quarantine.enable

/-! ## A part of the settings -/

section View

variable {α : Type} {p : Settings → α} {env : Env}

/-- A change by a value whose type is in the mask. -/
def masked (mask : Nat) (g : A6oConfValue → α → α) (value : A6oConfValue) (a : α) : α :=
  if a6oConfValueGetType value &&& mask = 0 then a else g value a

/-- The table sets the part under the key, and under no other. -/
structure Sets (env : Env) (p : Settings → α) (table : List ConfEntry) (key : CString)
    (mask : Nat) (g : A6oConfValue → α → α) : Prop where
  found : ∃ entry ∈ table, entry.key = key
  types : ∀ entry ∈ table, entry.key = key → entry.type = mask
  rows : ∀ entry ∈ table, ∀ value s,
    p (entry.confFun env value s) = if entry.key = key then g value (p s) else p s

/-- The table leaves the part alone. -/
def Keeps (env : Env) (p : Settings → α) (table : List ConfEntry) : Prop :=
  ∀ entry ∈ table, ∀ value s, p (entry.confFun env value s) = p s

theorem Sets.apply {table : List ConfEntry} {key : CString} {mask : Nat}
    {g : A6oConfValue → α → α} (h : Sets env p table key mask g) (k : CString)
    (value : A6oConfValue) (s : Settings) :
    p (confTableApply table env k value s) =
      if k = key then masked mask g value (p s) else p s := by
  rw [confTableApply]
  split
  · next hnone =>
    have hne : k ≠ key := by
      rintro rfl
      obtain ⟨entry, hentry, hkey⟩ := h.found
      exact absurd hkey (by simpa using List.find?_eq_none.mp hnone entry hentry)
    rw [if_neg hne]
  · next entry hentry =>
    have hmem := List.mem_of_find?_eq_some hentry
    obtain rfl : entry.key = k := by simpa using List.find?_some hentry
    by_cases hkey : entry.key = key
    · rw [if_pos hkey, masked, h.types entry hmem hkey]
      split
      · rfl
      · rw [h.rows entry hmem, if_pos hkey]
    · rw [if_neg hkey]
      split
      · rfl
      · rw [h.rows entry hmem, if_neg hkey]

theorem Keeps.apply {table : List ConfEntry} (h : Keeps env p table) (key : CString)
    (value : A6oConfValue) (s : Settings) : p (confTableApply table env key value s) = p s := by
  rw [confTableApply]
  split
  · rfl
  · next entry hentry =>
    split
    · rfl
    · exact h entry (List.mem_of_find?_eq_some hentry) value s

/-- One module of the daemon, if it is built in, sets the part. -/
structure Owner (env : Env) (p : Settings → α) (built : Bool) (own : Module) : Prop where
  found : built = true →
    env.managed.find? (fun m => m.module.name = own.module.name) = some own
  others : ∀ m ∈ env.managed, (built = true ∧ m = own) ∨ Keeps env p m.confTable

theorem Owner.moduleConfFun {built : Bool} {own : Module} (h : Owner env p built own)
    {key : CString} {mask : Nat} {g : A6oConfValue → α → α}
    (hsets : Sets env p own.confTable key mask g) (sect k : CString) (value : A6oConfValue)
    (s : Settings) :
    p (Core.moduleConfFun env.managed env sect k value s) =
      if sect = own.module.name then
        if k = key then if built then masked mask g value (p s) else p s else p s
      else p s := by
  by_cases hown : built = true ∧ sect = own.module.name
  · obtain ⟨hbuilt, rfl⟩ := hown
    rw [Core.moduleConfFun, h.found hbuilt, if_pos rfl, if_pos hbuilt]
    exact hsets.apply k value s
  · -- either no module has the name, or it is one that leaves the part alone
    have hkept : p (Core.moduleConfFun env.managed env sect k value s) = p s := by
      rw [Core.moduleConfFun]
      split
      · rfl
      · next m hm =>
        have hname : m.module.name = sect := by simpa using List.find?_some hm
        rcases h.others m (List.mem_of_find?_eq_some hm) with ⟨hbuilt, rfl⟩ | hkeeps
        · exact absurd ⟨hbuilt, hname.symm⟩ hown
        · exact hkeeps.apply k value s
    rw [hkept]
    split_ifs with hsect hkey hbuilt
    · exact absurd ⟨hbuilt, hsect⟩ hown
    · rfl
    · rfl
    · rfl

/-- A part that one key of one section sets. -/
theorem a6oConfApply_part {δ : Type} {q : δ → α} {sect key : CString}
    {f : CString → CString → A6oConfValue → δ → δ} {g : A6oConfValue → α → α}
    (hf : ∀ s k v d, q (f s k v d) = if s = sect then if k = key then g v (q d) else q d else q d)
    (conf : A6oConf) (d : δ) :
    q (a6oConfApply conf.sections f d) =
      ((valueOf conf sect key).map fun v => g v (q d)).getD (q d) := by
  have hkeys : ∀ s ∈ conf.sections, ∀ d,
      q (s.keys.foldl (fun d k => f s.sect k.key k.value d) d) =
        if s.sect = sect then
          ((NamedArray.search Conf.KeyEntryOf.key s.keys key).map
            fun k => g k.value (q d)).getD (q d)
        else q d := by
    intro s hs d
    have hfold := NamedArray.foldl_of_name (p := q) (n := key)
      (f := fun d k => f s.sect k.key k.value d)
      (g := fun k a => if s.sect = sect then g k.value a else a) (conf.distinct.keys s hs)
      (fun k _ d => by rw [hf]; split_ifs <;> rfl) d
    rw [hfold]
    split_ifs with hsect
    · rfl
    · cases NamedArray.search Conf.KeyEntryOf.key s.keys key <;> rfl
  have hfold := NamedArray.foldl_of_name (g := fun s a =>
    ((NamedArray.search Conf.KeyEntryOf.key s.keys key).map fun k => g k.value a).getD a)
    conf.distinct.sects hkeys d
  rw [a6oConfApply, hfold, valueOf, Conf.keyEntryGet, Conf.sectionEntryGet]
  rw [NamedArray.search]
  cases conf.sections.find? (fun s => s.sect = sect) with
  | none => rfl
  | some s =>
    rw [Option.map_some, Option.getD_some, Option.bind_some, Option.map_map]
    rfl

/-- After a configuration, the part is what the value of its key makes of
the initial one. -/
theorem Owner.configure {built : Bool} {own : Module} (h : Owner env p built own)
    {key : CString} {mask : Nat} {g : A6oConfValue → α → α}
    (hsets : Sets env p own.confTable key mask g) (conf : A6oConf) :
    p (Daemon.configure env conf) =
      ((sectionOf built (valueOf conf) own.module.name key).map
        fun value => masked mask g value (p initial)).getD (p initial) := by
  have hpart := a6oConfApply_part (q := p)
    (g := fun value a => if built then masked mask g value a else a)
    (h.moduleConfFun hsets) conf initial
  rw [Daemon.configure, hpart, sectionOf]
  cases built with
  | true => rfl
  | false => cases valueOf conf own.module.name key <;> rfl

end View

/-! ## The modules that are built in -/

theorem onDemandConfTable_keeps {α : Type} {p : Settings → α} (env : Env)
    (h : ∀ (s : Settings) confs, p { s with confs := confs } = p s) :
    Keeps env p (onDemandConfTable confFuns) := by
  simp only [Keeps, onDemandConfTable, List.forall_mem_cons, List.not_mem_nil, false_implies,
    implies_true, and_true]
  exact ⟨fun _ s => h s _, fun _ s => h s _, fun _ s => h s _, fun _ s => h s _⟩

theorem modOalConfTable_keeps (env : Env) :
    Keeps env Settings.quarantine (modOalConfTable confFuns) := by
  simp only [Keeps, modOalConfTable, List.forall_mem_cons, List.not_mem_nil, false_implies,
    implies_true, and_true]
  refine ⟨?_, ?_, ?_, ?_, ?_, ?_, ?_, ?_, ?_, ?_⟩ <;> exact fun _ _ => rfl

theorem quarantineConfTable_keeps (env : Env) :
    Keeps env Settings.monitor (quarantineConfTable confFuns) := by
  simp only [Keeps, quarantineConfTable, List.forall_mem_cons, List.not_mem_nil, false_implies,
    implies_true, and_true]
  exact ⟨fun _ _ => rfl, fun _ _ => rfl⟩

/-- `on_access_linux_module`, with the settings of the daemon. -/
abbrev onAccessLinuxModule : Module := Core.onAccessLinuxModule confFuns

/-- `quarantine_module`, with the settings of the daemon. -/
abbrev quarantineModule : Module := Core.quarantineModule confFuns

theorem mem_managed {env : Env} {m : Module} (h : m ∈ env.managed) :
    m.confTable = onDemandConfTable confFuns ∨
      (env.build.haveLinuxOnAccessModule = true ∧ m = onAccessLinuxModule) ∨
      (env.build.haveQuarantineModule = true ∧ m = quarantineModule) ∨ m.confTable = [] := by
  simp only [Env.managed, Core.allModules, a6oAddBuiltinModules, List.mem_append,
    List.mem_ite_nil_right, List.mem_singleton, List.mem_map] at h
  rcases h with ((⟨-, rfl⟩ | h) | h) | ⟨mod, -, rfl⟩
  · exact .inl rfl
  · exact .inr (.inl h)
  · exact .inr (.inr (.inl h))
  · exact .inr (.inr (.inr rfl))

/-- The first module of the name among those that are built in. -/
theorem managed_find {env : Env} {name : CString} {own : Module}
    (h : (a6oAddBuiltinModules confFuns env.build).find? (fun m => m.module.name = name) =
      some own) :
    env.managed.find? (fun m => m.module.name = name) = some own := by
  rw [Env.managed, Core.allModules, List.find?_append, h, Option.some_or]

theorem builtin_onAccess {build : Core.Build} (h : build.haveLinuxOnAccessModule = true) :
    (a6oAddBuiltinModules confFuns build).find?
      (fun m => m.module.name = onAccessLinuxModule.module.name) =
        some onAccessLinuxModule := by
  obtain ⟨onDemand, onAccess, quarantine⟩ := build
  obtain rfl : onAccess = true := h
  cases onDemand <;> cases quarantine <;> rfl

theorem builtin_quarantine {build : Core.Build} (h : build.haveQuarantineModule = true) :
    (a6oAddBuiltinModules confFuns build).find?
      (fun m => m.module.name = quarantineModule.module.name) = some quarantineModule := by
  obtain ⟨onDemand, onAccess, quarantine⟩ := build
  obtain rfl : quarantine = true := h
  cases onDemand <;> cases onAccess <;> rfl

theorem monitor_owner (env : Env) : Owner env Settings.monitor env.build.haveLinuxOnAccessModule
    onAccessLinuxModule where
  found h := managed_find (builtin_onAccess h)
  others m hm := by
    rcases mem_managed hm with h | h | ⟨-, rfl⟩ | h
    · exact .inr (h ▸ onDemandConfTable_keeps env fun _ _ => rfl)
    · exact .inl h
    · exact .inr (quarantineConfTable_keeps env)
    · exact .inr (h ▸ fun _ hentry => absurd hentry List.not_mem_nil)

theorem quarantine_owner (env : Env) : Owner env Settings.quarantine
    env.build.haveQuarantineModule quarantineModule where
  found h := managed_find (builtin_quarantine h)
  others m hm := by
    rcases mem_managed hm with h | ⟨-, rfl⟩ | h | h
    · exact .inr (h ▸ onDemandConfTable_keeps env fun _ _ => rfl)
    · exact .inr (modOalConfTable_keeps env)
    · exact .inl h
    · exact .inr (h ▸ fun _ hentry => absurd hentry List.not_mem_nil)

theorem Owner.map {α β : Type} {env : Env} {p : Settings → α} {built : Bool} {own : Module}
    (h : Owner env p built own) (q : α → β) : Owner env (fun s => q (p s)) built own where
  found := h.found
  others m hm := (h.others m hm).imp_right fun hkeeps entry hentry value s =>
    congrArg q (hkeeps entry hentry value s)

/-! ## The keys of the tables -/

section Keys

variable (env : Env)

theorem foldl_of_keeps {α : Type} {q : AccessMonitor → α}
    {f : AccessMonitor → CString → AccessMonitor} (h : ∀ m path, q (f m path) = q m)
    (paths : List CString) (m : AccessMonitor) : q (paths.foldl f m) = q m := by
  induction paths generalizing m with
  | nil => rfl
  | cons path paths ih => rw [List.foldl_cons, ih, h]

theorem paths_addEntry (m : AccessMonitor) (path : CString) (flag flag' : EntryFlag) :
    (addEntry m path flag).paths flag' = m.paths flag' ++ if flag = flag' then [path] else [] := by
  rw [AccessMonitor.paths, addEntry, List.filter_append, List.map_append]
  by_cases h : flag = flag'
  · simp [AccessMonitor.paths, h]
  · simp [AccessMonitor.paths, h]

theorem accessMonitorAddMount_keeps {α : Type} {q : AccessMonitor → α}
    (hq : ∀ m path, q (addEntry m path .mount) = q m) (stat : CString → Option UInt64)
    (m : AccessMonitor) (mountPoint : CString) :
    q (accessMonitorAddMount stat m mountPoint) = q m := by
  rw [accessMonitorAddMount]
  split
  · rfl
  · exact hq m mountPoint

theorem paths_accessMonitorAddMount (stat : CString → Option UInt64) (m : AccessMonitor)
    (mountPoint : CString) :
    (accessMonitorAddMount stat m mountPoint).paths .mount =
      OnAccess.Mounts.accessMonitorAddMount stat (m.paths .mount) mountPoint := by
  rw [accessMonitorAddMount, OnAccess.Mounts.accessMonitorAddMount]
  split
  · rfl
  · rw [paths_addEntry, if_pos rfl]

theorem foldl_addDirectory (paths : List CString) (m : AccessMonitor) :
    (paths.foldl accessMonitorAddDirectory m).paths .dir = m.paths .dir ++ paths := by
  induction paths generalizing m with
  | nil => exact (List.append_nil _).symm
  | cons path paths ih =>
    rw [List.foldl_cons, ih, accessMonitorAddDirectory, paths_addEntry, if_pos rfl,
      List.append_assoc]
    rfl

/-- The integer that a key of the table sets. The first four keys are those
of integers, and those after them leave all but the entries alone. -/
theorem monitor_sets {q : AccessMonitor → Int}
    (hq : ∀ m path flag, q (addEntry m path flag) = q m) {key : CString}
    (hfound : ∃ entry ∈ (modOalConfTable confFuns).take 4, entry.key = key)
    (hkey : ∀ entry ∈ (modOalConfTable confFuns).drop 4, entry.key ≠ key)
    (hrows : ∀ entry ∈ (modOalConfTable confFuns).take 4, ∀ value s,
      q (entry.confFun env value s).monitor =
        if entry.key = key then a6oConfValueGetInt value else q s.monitor) :
    Sets env (fun s => q s.monitor) (modOalConfTable confFuns) key (1 <<< 0)
      fun value _ => a6oConfValueGetInt value := by
  have hmount := accessMonitorAddMount_keeps (fun m path => hq m path .mount) env.stat
  have hrest : Keeps env (fun s => q s.monitor) ((modOalConfTable confFuns).drop 4) :=
    List.forall_iff_forall_mem.mp ⟨fun _ _ => foldl_of_keeps hmount _ _,
      fun _ _ => foldl_of_keeps (fun m path => hq m path .dir) _ _, fun _ _ => rfl, fun _ _ => rfl,
      fun _ _ => rfl, fun _ _ => rfl⟩
  have htypes : ∀ entry ∈ (modOalConfTable confFuns).take 4, entry.type = 1 <<< 0 := by decide
  -- the rows of the integers, and the others
  have hsplit : ∀ entry ∈ modOalConfTable confFuns,
      entry ∈ (modOalConfTable confFuns).take 4 ∨ entry ∈ (modOalConfTable confFuns).drop 4 := by
    intro entry hentry
    rwa [← List.take_append_drop 4 (modOalConfTable confFuns), List.mem_append] at hentry
  refine ⟨?_, fun entry hentry hsame => ?_, fun entry hentry value s => ?_⟩
  · obtain ⟨entry, hentry, hsame⟩ := hfound
    exact ⟨entry, List.mem_of_mem_take hentry, hsame⟩
  · rcases hsplit entry hentry with hmem | hmem
    · exact htypes entry hmem
    · exact absurd hsame (hkey entry hmem)
  · rcases hsplit entry hentry with hmem | hmem
    · exact hrows entry hmem value s
    · exact (hrest entry hmem value s).trans (if_neg (hkey entry hmem)).symm

theorem modOalConfEnable_sets : Sets env (fun s => s.monitor.enable) (modOalConfTable confFuns)
    "enable".toList (1 <<< 0) fun value _ => a6oConfValueGetInt value := by
  refine monitor_sets env (fun _ _ _ => rfl) ⟨_, .head _, rfl⟩ (by decide)
    (List.forall_iff_forall_mem.mp ⟨fun _ _ => (if_pos rfl).symm, ?_, ?_, ?_⟩)
  all_goals exact fun _ _ => (if_neg (by decide)).symm

theorem modOalConfEnablePermission_sets : Sets env (fun s => s.monitor.enablePermission)
    (modOalConfTable confFuns) "enable-permission".toList (1 <<< 0)
      fun value _ => a6oConfValueGetInt value := by
  refine monitor_sets env (fun _ _ _ => rfl) ⟨_, .tail _ (.head _), rfl⟩ (by decide)
    (List.forall_iff_forall_mem.mp ⟨?_, fun _ _ => (if_pos rfl).symm, ?_, ?_⟩)
  all_goals exact fun _ _ => (if_neg (by decide)).symm

theorem modOalConfEnableRemovableMedia_sets : Sets env (fun s => s.monitor.enableRemovableMedia)
    (modOalConfTable confFuns) "enable-removable-media".toList (1 <<< 0)
      fun value _ => a6oConfValueGetInt value := by
  refine monitor_sets env (fun _ _ _ => rfl) ⟨_, .tail _ (.tail _ (.head _)), rfl⟩ (by decide)
    (List.forall_iff_forall_mem.mp ⟨?_, ?_, fun _ _ => (if_pos rfl).symm, ?_⟩)
  all_goals exact fun _ _ => (if_neg (by decide)).symm

theorem modOalConfAutoscanRemovableMedia_sets :
    Sets env (fun s => s.monitor.autoscanRemovableMedia) (modOalConfTable confFuns)
      "autoscan-removable-media".toList (1 <<< 0) fun value _ => a6oConfValueGetInt value := by
  refine monitor_sets env (fun _ _ _ => rfl) ⟨_, .tail _ (.tail _ (.tail _ (.head _))), rfl⟩
    (by decide)
    (List.forall_iff_forall_mem.mp ⟨?_, ?_, ?_, fun _ _ => (if_pos rfl).symm⟩)
  all_goals exact fun _ _ => (if_neg (by decide)).symm

theorem modOalConfMount_sets : Sets env (fun s => s.monitor.paths .mount) (modOalConfTable confFuns)
    "mount".toList Core.stringOrList fun value mounts =>
      (confStrings value).foldl (OnAccess.Mounts.accessMonitorAddMount env.stat) mounts where
  found := ⟨_, .tail _ (.tail _ (.tail _ (.tail _ (.head _)))), rfl⟩
  types := by decide
  rows := by
    refine List.forall_iff_forall_mem.mp ⟨?_, ?_, ?_, ?_, fun value s => ?_, fun value s => ?_,
      ?_, ?_, ?_, ?_⟩
    pick_goal 5
    · rw [if_pos rfl]
      exact (List.foldl_hom (fun m => AccessMonitor.paths m .mount)
        fun m path => (paths_accessMonitorAddMount env.stat m path).symm).symm
    pick_goal 5
    · rw [if_neg (by decide)]
      refine foldl_of_keeps (q := fun m => m.paths .mount) (fun m path => ?_)
        (confStrings value) s.monitor
      rw [accessMonitorAddDirectory, paths_addEntry, if_neg (by decide), List.append_nil]
    all_goals exact fun _ _ => (if_neg (by decide)).symm

theorem modOalConfDirectory_sets : Sets env (fun s => s.monitor.paths .dir)
    (modOalConfTable confFuns) "directory".toList Core.stringOrList fun value directories =>
      directories ++ confStrings value where
  found := ⟨_, .tail _ (.tail _ (.tail _ (.tail _ (.tail _ (.head _))))), rfl⟩
  types := by decide
  rows := by
    refine List.forall_iff_forall_mem.mp ⟨?_, ?_, ?_, ?_, fun value s => ?_, fun value s => ?_,
      ?_, ?_, ?_, ?_⟩
    pick_goal 6
    · exact (foldl_addDirectory (confStrings value) s.monitor).trans (if_pos rfl).symm
    pick_goal 5
    · rw [if_neg (by decide)]
      have hmount := accessMonitorAddMount_keeps (q := fun m => m.paths .dir)
        (fun m path => by rw [paths_addEntry, if_neg (by decide), List.append_nil]) env.stat
      exact foldl_of_keeps (q := fun m => m.paths .dir) hmount (confStrings value) s.monitor
    all_goals exact fun _ _ => (if_neg (by decide)).symm

theorem quarantineConfQuarantineDir_sets : Sets env (fun s => s.quarantine.quarantineDir)
    (quarantineConfTable confFuns) "quarantine-dir".toList (1 <<< 1)
      fun value _ => a6oConfValueGetString value where
  found := ⟨_, .head _, rfl⟩
  types := by decide
  rows := List.forall_iff_forall_mem.mp ⟨fun _ _ => (if_pos rfl).symm,
    fun _ _ => (if_neg (by decide)).symm⟩

theorem quarantineConfEnable_sets : Sets env (fun s => s.quarantine.enable)
    (quarantineConfTable confFuns) "enable".toList (1 <<< 0)
      fun value _ => Int32.ofInt (a6oConfValueGetInt value) where
  found := ⟨_, .tail _ (.head _), rfl⟩
  types := by decide
  rows := List.forall_iff_forall_mem.mp ⟨fun _ _ => (if_neg (by decide)).symm,
    fun _ _ => (if_pos rfl).symm⟩

end Keys

/-! ## The settings -/

theorem masked_int (value : Option A6oConfValue) :
    (value.map fun v => masked (1 <<< 0) (fun v _ => a6oConfValueGetInt v) v 0).getD 0 =
      intOf value := by
  cases value with
  | none => rfl
  | some v => cases v <;> simp [masked, a6oConfValueGetType, a6oConfValueGetInt, intOf]

theorem masked_string (value : Option A6oConfValue) :
    (value.map fun v => masked (1 <<< 1) (fun v _ => a6oConfValueGetString v) v none).getD none =
      stringOf value := by
  cases value with
  | none => rfl
  | some v => cases v <;> simp [masked, a6oConfValueGetType, a6oConfValueGetString, stringOf]

theorem masked_int32 (value : Option A6oConfValue) :
    (value.map fun v =>
      masked (1 <<< 0) (fun v _ => Int32.ofInt (a6oConfValueGetInt v)) v 0).getD 0 =
        Int32.ofInt (intOf value) := by
  cases value with
  | none => rfl
  | some v => cases v <;> simp [masked, a6oConfValueGetType, a6oConfValueGetInt, intOf]

/-- A value of another type has no strings. -/
theorem masked_strings {α : Type} {g : List CString → α → α} {a : α} (hg : g [] a = a)
    (value : Option A6oConfValue) :
    (value.map fun v => masked Core.stringOrList (fun v a => g (confStrings v) a) v a).getD a =
      g (stringsOf value) a := by
  cases value with
  | none => exact hg.symm
  | some v =>
    cases v <;>
      simp [masked, Core.stringOrList, a6oConfValueGetType, stringsOf, confStrings, hg]

theorem ownEffect_directoriesWhiteList (u : List A6oModule) (key : CString)
    (value : A6oConfValue) (c : A6oScanConf) :
    (Core.ownEffect u key value c).directoriesWhiteList = c.directoriesWhiteList ++
      if key = "white-list-dir".toList then id (confStrings value) else [] := by
  rw [Core.ownEffect, Core.confModules, Core.confMimeTypes, Core.foldl_addModule,
    Core.foldl_addMimeType]
  split
  · next h => simp [h]
  · split
    · next h => simp [h]
    · split <;> simp [Core.confWhiteListDir]

section Configured

variable (env : Env) (conf : A6oConf)

theorem scanRules_configure {sect : Core.ScanSection}
    (h : sect.Reached (Core.managedModules env.build env.loaded))
    (hnew : sect.get ⟨Core.a6oScanConfNew, Core.a6oScanConfNew⟩ = Core.a6oScanConfNew) :
    rulesOf (sect.get (configure env conf).confs) =
      scanRules env (sectionOf sect.built (valueOf conf) sect.name) := by
  have hgiven : ∀ key, sect.given conf key =
      stringsOf (sectionOf sect.built (valueOf conf) sect.name key) := by
    intro key
    rw [Core.ScanSection.given, sectionOf, Core.setting]
    split
    · rw [valueOf]
      cases Conf.keyEntryGet conf.sections sect.name key <;> rfl
    · rfl
  obtain ⟨hmodules, hmime, -⟩ := Core.configured_eq h hnew conf
  have hwhite := Core.get_configureAll (g := id) h rfl
    (ownEffect_directoriesWhiteList _) conf
    ⟨Core.a6oScanConfNew, Core.a6oScanConfNew⟩
  rw [configure_confs, rulesOf, scanRules, hmodules, hmime, hgiven, hgiven]
  rw [Core.moduleManagerConfigureAll, hwhite, hnew, hgiven]
  rfl

/-- **The settings are the values of their keys**, wherever the configuration
has them. -/
theorem observe_configure : observe (configure env conf) = protectionOf env (valueOf conf) := by
  have honDemand := scanRules_configure env conf
    (Core.reached_onDemand env.build env.loaded) rfl
  have honAccess := scanRules_configure env conf
    (Core.reached_onAccess env.build env.loaded) rfl
  have hmonitor {α : Type} (q : AccessMonitor → α) := (monitor_owner env).map q
  have hquarantine {α : Type} (q : QuarantineData → α) := (quarantine_owner env).map q
  have henable := (hmonitor AccessMonitor.enable).configure (modOalConfEnable_sets env) conf
  have hpermission := (hmonitor AccessMonitor.enablePermission).configure
    (modOalConfEnablePermission_sets env) conf
  have hmedia := (hmonitor AccessMonitor.enableRemovableMedia).configure
    (modOalConfEnableRemovableMedia_sets env) conf
  have hautoscan := (hmonitor AccessMonitor.autoscanRemovableMedia).configure
    (modOalConfAutoscanRemovableMedia_sets env) conf
  have hmounts := (hmonitor fun m => m.paths .mount).configure (modOalConfMount_sets env) conf
  have hdirectories := (hmonitor fun m => m.paths .dir).configure
    (modOalConfDirectory_sets env) conf
  have hdir := (hquarantine QuarantineData.quarantineDir).configure
    (quarantineConfQuarantineDir_sets env) conf
  have hquEnable := (hquarantine QuarantineData.enable).configure
    (quarantineConfEnable_sets env) conf
  have hadded := masked_strings
    (g := fun l mounts => l.foldl (OnAccess.Mounts.accessMonitorAddMount env.stat) mounts)
    (a := []) rfl
  have hlisted := masked_strings (g := fun l (directories : List CString) => directories ++ l)
    (a := []) rfl
  exact Protection.ext honDemand honAccess (henable.trans (masked_int _))
    (hpermission.trans (masked_int _)) (hmedia.trans (masked_int _))
    (hautoscan.trans (masked_int _)) (hmounts.trans (hadded _))
    (hdirectories.trans (hlisted _)) (hdir.trans (masked_string _))
    (hquEnable.trans (masked_int32 _))

end Configured

end Armadito.Daemon
