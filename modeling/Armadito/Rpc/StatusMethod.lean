import Armadito.Core.ModuleManager
import Armadito.Jrpc.Connection
import Armadito.Jrpc.SchemaDelivery
import Armadito.Rpc.InfoWire

/-!
# Rpc.StatusMethod

The `status` method: `a6o_info_new` asks the modules for their part of the
report, and the report is sent.
-/

namespace Armadito.Rpc

open Armadito.Jrpc Armadito.Jrpc.Schema
open Armadito.Core (A6oModuleInfo A6oInfo ModuleAnswer Reports emptyInfo emptyInfo_reports)

/-! ## The report -/

/-- `struct a6o_module` as the report needs it, with the answer of its
`info_fun` if it has one. -/
structure InfoModule where
  name : CString
  infoFun : Option ModuleAnswer

/-- What the report gets of a module. -/
def InfoModule.moduleInfo (mod : InfoModule) : Option A6oModuleInfo :=
  mod.infoFun.bind fun answer => answer.moduleInfo mod.name

/-- One turn of the loop of `a6o_info_new`. -/
def addModule (info : A6oInfo) (mod : InfoModule) : A6oInfo :=
  match mod.infoFun with
  | none => info
  | some answer => info.add mod.name answer

/-- `a6o_info_new`, of modules whose answers are known. -/
def a6oInfoNew (version : CString) (modules : List InfoModule) : A6oInfo :=
  modules.foldl addModule (emptyInfo version)

/-- The status of the method and its result. -/
def statusMethod (version : CString) (modules : List InfoModule) :
    Except Stop (Int × Option Json) :=
  match jrpcMarshallStruct rpcDefs 3 "a6o_info" (infoValue (a6oInfoNew version modules)) with
  | .ok result => .ok (jrpcOk, some result)
  | .error (.code ret) => .ok (ret, none)
  | .error stop => .error stop

/-! ## The modules of the manager -/

section Manager

open ModuleManager (Manager a6oInfoNewFrom)

/-- The answers of the modules at these places, each given when its turn
comes. -/
def answersFrom : List Nat → Manager → List InfoModule
  | [], _ => []
  | i :: is, mm =>
    match mm.modules[i]? with
    | none => []
    | some mod =>
      match mod.infoFun with
      | none => ⟨mod.name.val, none⟩ :: answersFrom is mm
      | some infoFun =>
        let answer := infoFun mm.log
        ⟨mod.name.val, some answer⟩ :: answersFrom is (mm.record (.info i answer.modStatus))

/-- What the manager reports is what its modules answer. -/
theorem a6oInfoNewFrom_fst (is : List Nat) :
    ∀ (info : A6oInfo) (mm : Manager),
      (a6oInfoNewFrom is info mm).1 = (answersFrom is mm).foldl addModule info := by
  induction is with
  | nil =>
    intro info mm
    rfl
  | cons i is ih =>
    intro info mm
    rw [a6oInfoNewFrom, answersFrom]
    cases mm.modules[i]? with
    | none => rfl
    | some mod =>
      cases hinfo : mod.infoFun with
      | none => simpa [hinfo, addModule] using ih info mm
      | some infoFun => simpa [hinfo, addModule] using ih _ _

/-- The report of the daemon. -/
theorem a6oInfoNew_fst (mm : Manager) :
    (ModuleManager.a6oInfoNew mm).1 =
      a6oInfoNew Core.a6oVersion (answersFrom (List.range mm.modules.length) mm) :=
  a6oInfoNewFrom_fst _ _ mm

end Manager

/-! ## What is in a report -/

/-- One more module. -/
theorem addModule_reports {version : CString} {modInfos : List A6oModuleInfo} {info : A6oInfo}
    (h : Reports version modInfos info) (mod : InfoModule) :
    Reports version (modInfos ++ mod.moduleInfo.toList) (addModule info mod) := by
  rw [addModule, InfoModule.moduleInfo]
  cases mod.infoFun with
  | none => simpa using h
  | some answer => exact h.add mod.name answer

theorem a6oInfoNew_reports (version : CString) (modules : List InfoModule) :
    Reports version (modules.filterMap InfoModule.moduleInfo) (a6oInfoNew version modules) := by
  have hloop : ∀ (modInfos : List A6oModuleInfo) (info : A6oInfo), Reports version modInfos info →
      Reports version (modInfos ++ modules.filterMap InfoModule.moduleInfo)
        (modules.foldl addModule info) := by
    induction modules with
    | nil =>
      intro modInfos info h
      simpa using h
    | cons mod modules ih =>
      intro modInfos info h
      have hrest := ih _ _ (addModule_reports h mod)
      rw [List.append_assoc] at hrest
      cases hmod : mod.moduleInfo with
      | none => simpa [List.filterMap_cons, hmod] using hrest
      | some modInfo => simpa [List.filterMap_cons, hmod] using hrest
  exact hloop [] _ (emptyInfo_reports version)

end Armadito.Rpc
