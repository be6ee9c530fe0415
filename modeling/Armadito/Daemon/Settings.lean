import Armadito.Core.Selectable
import Armadito.OnAccess.Mounts
import Armadito.Quarantine.Linux

/-!
# Daemon.Settings

All that the configuration sets in the daemon: the scan configurations
(`Core.Selectable` has these alone, and the tables), the access monitor
(`onaccessmod.c`, `monitor.c`, `famonitor.c`) and the quarantine
(`quarantine.c`).

The access monitor is there: when its pipes cannot be made, the error that
is logged ends the process.
-/

namespace Armadito.Daemon

open Armadito.Conf (A6oConf A6oConfValue a6oConfApply)
open Armadito.Core (A6oModule A6oConfEntry ConfFuns ScanConfs Build ManagedModule confStrings
  confTableApply moduleConfFun a6oGetModules allModules managedModules scanConfFuns a6oScanConfNew)
open Armadito.OnAccess.Monitor (MonitorEntry EntryFlag)
open Armadito.OnAccess.Mounts (getDevId)
open Armadito.Quarantine (QuarantineData)

/-! ## The settings -/

/-- The part of `struct access_monitor` that is configured, with the flag of
its `fanotify_monitor`. -/
structure AccessMonitor where
  enable : Int
  enablePermission : Int
  enableRemovableMedia : Int
  autoscanRemovableMedia : Int
  entries : List MonitorEntry
  deriving DecidableEq

/-- `access_monitor_new`. -/
def accessMonitorNew : AccessMonitor where
  enable := 0
  enablePermission := 0
  enableRemovableMedia := 0
  autoscanRemovableMedia := 0
  entries := []

/-- `quarantine_init`. -/
def quarantineInit : QuarantineData := ⟨none, 0⟩

/-- What the built-in modules keep of the configuration. -/
structure Settings where
  confs : ScanConfs
  monitor : AccessMonitor
  quarantine : QuarantineData

/-- The state after `module_manager_init_all`. -/
def initial : Settings := ⟨⟨a6oScanConfNew, a6oScanConfNew⟩, accessMonitorNew, quarantineInit⟩

/-- What the configuration functions rely on: how the daemon was built, the
modules it has loaded, and `stat(2)`. -/
structure Env where
  build : Build
  loaded : List A6oModule
  stat : CString → Option UInt64

/-- `a6o_get_modules`. -/
def Env.modules (env : Env) : List A6oModule := a6oGetModules (managedModules env.build env.loaded)

/-! ## Configuration functions -/

/-- A function of a table, for the settings. -/
abbrev ConfFun := Core.ConfFun Env Settings

/-- `a6o_conf_value_get_int`. The type mask lets nothing else through. -/
def a6oConfValueGetInt : A6oConfValue → Int
  | .int v => v
  | _ => 0

/-- `a6o_conf_value_get_string`, where the mask lets strings through only. -/
def a6oConfValueGetString : A6oConfValue → Option CString
  | .string v => some v
  | _ => none

/-- A function that sets a scan configuration. -/
def onScanConfs (f : Core.ConfFun (List A6oModule) ScanConfs) : ConfFun :=
  fun env value s => { s with confs := f env.modules value s.confs }

/-- `mod_oal_conf_enable`. -/
def modOalConfEnable : ConfFun := fun _ value s =>
  { s with monitor := { s.monitor with enable := a6oConfValueGetInt value } }

/-- `mod_oal_conf_enable_permission`. -/
def modOalConfEnablePermission : ConfFun := fun _ value s =>
  { s with monitor := { s.monitor with enablePermission := a6oConfValueGetInt value } }

/-- `mod_oal_conf_enable_removable_media`. -/
def modOalConfEnableRemovableMedia : ConfFun := fun _ value s =>
  { s with monitor := { s.monitor with enableRemovableMedia := a6oConfValueGetInt value } }

/-- `mod_oal_conf_autoscan_removable_media`. -/
def modOalConfAutoscanRemovableMedia : ConfFun := fun _ value s =>
  { s with monitor := { s.monitor with autoscanRemovableMedia := a6oConfValueGetInt value } }

/-- `add_entry`. -/
def addEntry (m : AccessMonitor) (path : CString) (flag : EntryFlag) : AccessMonitor :=
  { m with entries := m.entries ++ [⟨path, flag⟩] }

/-- `access_monitor_add_mount`. -/
def accessMonitorAddMount (stat : CString → Option UInt64) (m : AccessMonitor)
    (mountPoint : CString) : AccessMonitor :=
  if getDevId stat mountPoint = getDevId stat "/".toList then m else addEntry m mountPoint .mount

/-- `access_monitor_add_directory`. -/
def accessMonitorAddDirectory (m : AccessMonitor) (path : CString) : AccessMonitor :=
  addEntry m path .dir

/-- `mod_oal_conf_mount`. -/
def modOalConfMount : ConfFun := fun env value s =>
  { s with monitor := (confStrings value).foldl (accessMonitorAddMount env.stat) s.monitor }

/-- `mod_oal_conf_directory`. -/
def modOalConfDirectory : ConfFun := fun _ value s =>
  { s with monitor := (confStrings value).foldl accessMonitorAddDirectory s.monitor }

/-- `quarantine_conf_quarantine_dir`. -/
def quarantineConfQuarantineDir : ConfFun := fun _ value s =>
  { s with quarantine := { s.quarantine with quarantineDir := a6oConfValueGetString value } }

/-- `quarantine_conf_enable`. -/
def quarantineConfEnable : ConfFun := fun _ value s =>
  { s with quarantine :=
      { s.quarantine with enable := Int32.ofInt (a6oConfValueGetInt value) } }

/-- The functions in the tables. -/
def confFuns : ConfFuns Env Settings where
  onScanConfs := onScanConfs
  enable := modOalConfEnable
  enablePermission := modOalConfEnablePermission
  enableRemovableMedia := modOalConfEnableRemovableMedia
  autoscanRemovableMedia := modOalConfAutoscanRemovableMedia
  mount := modOalConfMount
  directory := modOalConfDirectory
  quarantineDir := quarantineConfQuarantineDir
  quarantineEnable := quarantineConfEnable

/-- An entry of a table, for the settings. -/
abbrev ConfEntry := A6oConfEntry Env Settings

/-- A module, for the settings. -/
abbrev Module := ManagedModule Env Settings

/-- The modules of the manager, the built-in ones first. -/
def Env.managed (env : Env) : List Module := allModules confFuns env.build env.loaded

/-- `module_manager_configure_all`. -/
def configure (env : Env) (conf : A6oConf) : Settings :=
  a6oConfApply conf.sections (moduleConfFun env.managed env) initial

/-! ## The scan configurations alone -/

theorem find?_forall₂ {ε ε' : Type*} {R : ε → ε' → Prop} {p : ε → Bool} {q : ε' → Bool}
    (hp : ∀ e e', R e e' → p e = q e') {l : List ε} {l' : List ε'} (h : List.Forall₂ R l l') :
    Option.Rel R (l.find? p) (l'.find? q) := by
  induction h with
  | nil => exact .none
  | @cons e e' l l' he _ ih =>
    rw [List.find?_cons, List.find?_cons, hp e e' he]
    cases q e' with
    | true => exact .some he
    | false => exact ih

/-- The entry does to the scan configurations what the other entry does. -/
structure Lifts (entry : ConfEntry) (core : Core.ScanConfEntry) : Prop where
  key : entry.key = core.key
  type : entry.type = core.type
  confs : ∀ env value s, (entry.confFun env value s).confs =
    core.confFun env.modules value s.confs

theorem confTableApply_confs {env : Env} {table : List ConfEntry}
    {core : List Core.ScanConfEntry} (h : List.Forall₂ Lifts table core) (key : CString)
    (value : A6oConfValue) (s : Settings) :
    (confTableApply table env key value s).confs =
      confTableApply core env.modules key value s.confs := by
  have hfind := find?_forall₂ (p := fun entry => decide (entry.key = key))
    (q := fun entry => decide (entry.key = key)) (fun e e' he => by rw [he.key]) h
  rw [confTableApply, confTableApply]
  generalize table.find? (fun entry => entry.key = key) = found at hfind ⊢
  generalize core.find? (fun entry => entry.key = key) = found' at hfind ⊢
  cases hfind with
  | none => rfl
  | @some entry entry' he =>
    simp only [he.type]
    split
    · rfl
    · exact he.confs env value s

/-- The module is the one of `Core.Selectable`, with its table. -/
structure Same (m : Module) (core : Core.ScanModule) : Prop where
  module : m.module = core.module
  confTable : List.Forall₂ Lifts m.confTable core.confTable

theorem onDemandConfTable_lifts :
    List.Forall₂ Lifts (Core.onDemandConfTable confFuns) (Core.onDemandConfTable scanConfFuns) := by
  refine .cons ?_ (.cons ?_ (.cons ?_ (.cons ?_ .nil))) <;> exact ⟨rfl, rfl, fun _ _ _ => rfl⟩

theorem modOalConfTable_lifts :
    List.Forall₂ Lifts (Core.modOalConfTable confFuns) (Core.modOalConfTable scanConfFuns) := by
  refine .cons ?_ (.cons ?_ (.cons ?_ (.cons ?_ (.cons ?_ (.cons ?_ (.cons ?_ (.cons ?_
    (.cons ?_ (.cons ?_ .nil))))))))) <;> exact ⟨rfl, rfl, fun _ _ _ => rfl⟩

theorem quarantineConfTable_lifts :
    List.Forall₂ Lifts (Core.quarantineConfTable confFuns)
      (Core.quarantineConfTable scanConfFuns) := by
  refine .cons ?_ (.cons ?_ .nil) <;> exact ⟨rfl, rfl, fun _ _ _ => rfl⟩

theorem managed_same (env : Env) :
    List.Forall₂ Same env.managed (managedModules env.build env.loaded) := by
  have hone : ∀ (built : Bool) {m : Module} {core : Core.ScanModule}, Same m core →
      List.Forall₂ Same (if built then [m] else []) (if built then [core] else []) := by
    intro built m core h
    cases built with
    | true => exact .cons h .nil
    | false => exact .nil
  refine List.rel_append (List.rel_append (List.rel_append ?_ ?_) ?_) ?_
  · exact hone _ ⟨rfl, onDemandConfTable_lifts⟩
  · exact hone _ ⟨rfl, modOalConfTable_lifts⟩
  · exact hone _ ⟨rfl, quarantineConfTable_lifts⟩
  · induction env.loaded with
    | nil => exact .nil
    | cons mod loaded ih => exact .cons ⟨rfl, .nil⟩ ih

theorem moduleConfFun_confs (env : Env) (sect key : CString) (value : A6oConfValue)
    (s : Settings) :
    (moduleConfFun env.managed env sect key value s).confs =
      moduleConfFun (managedModules env.build env.loaded) env.modules sect key value s.confs := by
  have hfind := find?_forall₂ (p := fun m => decide (m.module.name = sect))
    (q := fun m => decide (m.module.name = sect)) (fun e e' he => by rw [he.module])
    (managed_same env)
  rw [moduleConfFun, moduleConfFun]
  generalize env.managed.find? (fun m => m.module.name = sect) = found at hfind ⊢
  generalize (managedModules env.build env.loaded).find? (fun m => m.module.name = sect) =
    found' at hfind ⊢
  cases hfind with
  | none => rfl
  | some h => exact confTableApply_confs h.confTable key value s

/-- The scan configurations are those of `Core.Selectable`. -/
theorem configure_confs (env : Env) (conf : A6oConf) :
    (configure env conf).confs =
      Core.moduleManagerConfigureAll (managedModules env.build env.loaded) conf := by
  refine (List.foldl_hom Settings.confs fun s sect => ?_).symm
  exact List.foldl_hom Settings.confs fun s k =>
    (moduleConfFun_confs env sect.sect k.key k.value s).symm

end Armadito.Daemon
