import Mathlib.Order.Bounds.Basic
import Armadito.Base

/-!
# Core.Info

`info.c`: the status report. `a6o_info_new` asks every module that has an
`info_fun` for its part; the global status is the worst one of the modules,
and the global time the latest.
-/

namespace Armadito.Core

/-! ## The report -/

/-- `enum a6o_update_status`. -/
inductive A6oUpdateStatus where
  | ok
  | late
  | critical
  | nonAvailable
  deriving DecidableEq

/-- `struct a6o_base_info`. -/
structure A6oBaseInfo where
  name : Option CString
  baseUpdateTs : Int64
  version : Option CString
  signatureCount : UInt64
  fullPath : Option CString
  deriving DecidableEq

/-- `struct a6o_module_info`. -/
structure A6oModuleInfo where
  name : Option CString
  modStatus : A6oUpdateStatus
  modUpdateTs : Int64
  baseInfos : Option (List A6oBaseInfo)
  deriving DecidableEq

/-- `struct a6o_info`. -/
structure A6oInfo where
  antivirusVersion : Option CString
  globalStatus : A6oUpdateStatus
  globalUpdateTs : Int64
  moduleInfos : Option (List A6oModuleInfo)
  deriving DecidableEq

/-- The strings of a base, NULL or not. -/
def A6oBaseInfo.strings (base : A6oBaseInfo) : List (Option CString) :=
  [base.name, base.version, base.fullPath]

/-- The strings of a module and its bases. -/
def A6oModuleInfo.strings (mod : A6oModuleInfo) : List (Option CString) :=
  mod.name :: (mod.baseInfos.getD []).flatMap A6oBaseInfo.strings

/-- All strings of a report. -/
def A6oInfo.strings (info : A6oInfo) : List (Option CString) :=
  info.antivirusVersion :: (info.moduleInfos.getD []).flatMap A6oModuleInfo.strings

/-! ## Asking the modules -/

/-- `update_status_compare`. -/
def updateStatusCompare (s1 s2 : A6oUpdateStatus) : Int :=
  if s1 = s2 then 0
  else
    match s1 with
    | .nonAvailable => -1
    | .ok => if s2 = .nonAvailable then 1 else -1
    | .late => if s2 = .nonAvailable ∨ s2 = .ok then 1 else -1
    | .critical => if s2 = .nonAvailable ∨ s2 = .ok ∨ s2 = .late then 1 else -1

/-- What `info_fun` returns, and what it stores. -/
structure ModuleAnswer where
  modStatus : A6oUpdateStatus
  modUpdateTs : Int64
  baseInfos : Option (List A6oBaseInfo)

/-- What the report gets of a module with the name. A module that is not
available is left out. -/
def ModuleAnswer.moduleInfo (answer : ModuleAnswer) (name : CString) : Option A6oModuleInfo :=
  if answer.modStatus = .nonAvailable then none
  else some
    { name := some name
      modStatus := answer.modStatus
      modUpdateTs := answer.modUpdateTs
      baseInfos := answer.baseInfos }

/-- `VERSION`, as `configure.ac` sets it. -/
def a6oVersion : CString := "0.12.7".toList

/-- `a6o_info_new` before its loop; `g_module_infos` is an array without
elements. -/
def emptyInfo (version : CString) : A6oInfo :=
  { antivirusVersion := some version
    globalStatus := .nonAvailable
    globalUpdateTs := 0
    moduleInfos := some [] }

/-- One turn of its loop, for a module with an `info_fun`. -/
def A6oInfo.add (info : A6oInfo) (name : CString) (answer : ModuleAnswer) : A6oInfo :=
  match answer.moduleInfo name with
  | none => info
  | some modInfo =>
    { info with
      moduleInfos := some (info.moduleInfos.getD [] ++ [modInfo])
      globalStatus :=
        if updateStatusCompare info.globalStatus modInfo.modStatus < 0 then modInfo.modStatus
        else info.globalStatus
      globalUpdateTs :=
        if modInfo.modUpdateTs > info.globalUpdateTs then modInfo.modUpdateTs
        else info.globalUpdateTs }

/-! ## What is in a report -/

/-- How bad a status is. -/
def A6oUpdateStatus.rank : A6oUpdateStatus → Nat
  | .nonAvailable => 0
  | .ok => 1
  | .late => 2
  | .critical => 3

theorem updateStatusCompare_neg {s t : A6oUpdateStatus} :
    updateStatusCompare s t < 0 ↔ s.rank < t.rank := by
  cases s <;> cases t <;> decide

/-- The larger one, as the loop keeps it. -/
theorem max_of_lt {α β : Type} [LinearOrder β] (f : α → β) {p : Prop} [Decidable p] {a b : α}
    (h : p ↔ f a < f b) : f (if p then b else a) = max (f a) (f b) := by
  split
  · next hp => exact (max_eq_right (h.mp hp).le).symm
  · next hp => exact (max_eq_left (not_lt.mp fun hlt => hp (h.mpr hlt))).symm

/-- Of no values the greatest is the one to start from. -/
def GreatestOf {α : Type} [LinearOrder α] (start : α) (values : List α) (a : α) : Prop :=
  IsGreatest {v | v ∈ start :: values} a

theorem GreatestOf.concat {α : Type} [LinearOrder α] {start : α} {values : List α} {a : α}
    (h : GreatestOf start values a) (b : α) : GreatestOf start (values ++ [b]) (max a b) := by
  have hset : {v | v ∈ start :: (values ++ [b])} = insert b {v | v ∈ start :: values} := by
    ext v
    simp only [Set.mem_ofPred_eq, Set.mem_insert_iff, List.mem_cons, List.mem_append,
      List.not_mem_nil, or_false]
    tauto
  rw [GreatestOf, hset, max_comm]
  exact IsGreatest.insert b h

/-- The report of some modules: they are listed in their order, and the
global values are the greatest of theirs. -/
structure Reports (version : CString) (modInfos : List A6oModuleInfo) (info : A6oInfo) :
    Prop where
  version : info.antivirusVersion = some version
  modules : info.moduleInfos = some modInfos
  status : GreatestOf 0 (modInfos.map fun m => m.modStatus.rank) info.globalStatus.rank
  time : GreatestOf 0 (modInfos.map fun m => m.modUpdateTs.toInt) info.globalUpdateTs.toInt

theorem emptyInfo_reports (version : CString) : Reports version [] (emptyInfo version) where
  version := rfl
  modules := rfl
  status := by simp [GreatestOf, emptyInfo, A6oUpdateStatus.rank]
  time := by simp [GreatestOf, emptyInfo]

/-- One more module. -/
theorem Reports.add {version : CString} {modInfos : List A6oModuleInfo} {info : A6oInfo}
    (h : Reports version modInfos info) (name : CString) (answer : ModuleAnswer) :
    Reports version (modInfos ++ (answer.moduleInfo name).toList) (info.add name answer) := by
  rw [A6oInfo.add]
  cases answer.moduleInfo name with
  | none => simpa using h
  | some modInfo =>
    have hstatus := h.status.concat modInfo.modStatus.rank
    have htime := h.time.concat modInfo.modUpdateTs.toInt
    refine ⟨h.version, ?_, ?_, ?_⟩
    · rw [h.modules]
      rfl
    · rw [Option.toList_some, List.map_append]
      rwa [← max_of_lt A6oUpdateStatus.rank updateStatusCompare_neg] at hstatus
    · rw [Option.toList_some, List.map_append]
      rwa [← max_of_lt Int64.toInt (p := modInfo.modUpdateTs > info.globalUpdateTs)
        Int64.lt_iff_toInt_lt] at htime

end Armadito.Core
