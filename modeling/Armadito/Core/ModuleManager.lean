import Mathlib.Data.List.Nodup
import Armadito.Lib.Run
import Armadito.Conf.Api
import Armadito.Core.Info
import Armadito.Core.Verdict

/-!
# Core.ModuleManager

The life of the modules: `a6o_open`, scans and status requests, `a6o_close`
(`module.c`, `armadito.c`, `info.c`, `scanctx.c`).

Every call through a function pointer of a module is written to a log, and
what the function returns may depend on all the calls before it. The loops
of `module_manager_all` and `scan_apply_modules` look at the status of a
module before they call it. The configuration and the status report do not.
-/

namespace Armadito.ModuleManager

open Armadito.Core (A6oModStatus A6oFileStatus A6oUpdateStatus A6oInfo ModuleAnswer emptyInfo
  a6oVersion adopt)
open Armadito.ConfApi (Str A6oConf A6oConfValue A6oConfValueType a6oConfValueGetType)

/-! ## Modules and calls -/

/-- One call through a function pointer: of which module, by its place in
the manager, and what it returned. -/
inductive ModuleCall where
  | init (mod : Nat) (ret : A6oModStatus)
  | conf (mod : Nat) (key : Str) (ret : A6oModStatus)
  | postInit (mod : Nat) (ret : A6oModStatus)
  | scan (mod : Nat) (ret : A6oFileStatus)
  | info (mod : Nat) (ret : A6oUpdateStatus)
  | close (mod : Nat) (ret : A6oModStatus)

/-- The module that is called. -/
def ModuleCall.mod : ModuleCall → Nat
  | .init mod _ | .conf mod _ _ | .postInit mod _ | .scan mod _ | .info mod _
  | .close mod _ => mod

/-- An initialisation that did not return `A6O_MOD_OK`. -/
def ModuleCall.Fails : ModuleCall → Prop
  | .init _ ret | .postInit _ ret => ret ≠ .ok
  | .conf _ _ _ | .scan _ _ | .info _ _ | .close _ _ => False

/-- What a function of a module returns, after the calls made so far. -/
abbrev Fun (α : Type) := List ModuleCall → α

/-- `struct a6o_conf_entry`; the type is a mask of value types. -/
structure A6oConfEntry where
  key : Str
  type : Nat
  confFun : Option (Str → A6oConfValue → Fun A6oModStatus)

/-- `struct a6o_module`, with its function pointers. `Core.ScanConf` has the
same structure as a scan sees it (`SeenAs`). -/
structure A6oModule where
  initFun : Option (Fun A6oModStatus)
  confTable : Option (List A6oConfEntry)
  postInitFun : Option (Fun A6oModStatus)
  scanFun : Option (Fun A6oFileStatus)
  closeFun : Option (Fun A6oModStatus)
  infoFun : Option (Fun ModuleAnswer)
  name : Str
  status : A6oModStatus

/-- The manager's copy of a module. -/
def moduleNew (src : A6oModule) : A6oModule := { src with status := .ok }

/-- The modules of the manager, the calls made so far, and whether one of
them has ended the process. -/
structure Manager where
  modules : List A6oModule
  log : List ModuleCall
  fault : Option Fault

/-- One call more. -/
def Manager.record (mm : Manager) (call : ModuleCall) : Manager :=
  { mm with log := mm.log ++ [call] }

/-- `mod->status = ...` for the module at this place. -/
def Manager.setStatus (mm : Manager) (mod : Nat) (status : A6oModStatus) : Manager :=
  { mm with modules := mm.modules.modify mod fun m => { m with status := status } }

/-- `module_manager_add` of every module that was found. -/
def moduleManagerNew (modules : List A6oModule) : Manager :=
  { modules := modules.map moduleNew, log := [], fault := none }

/-! ## The loop over the modules that are OK -/

/-- The integer of a status. -/
def a6oModStatusValue : A6oModStatus → Int
  | .ok => 0
  | .initError => 1
  | .confError => 2
  | .closeError => 3

/-- `module_manager_all` over the places that remain, with the last status
that was not 0. -/
def moduleManagerAllFrom (moduleFun : Nat → A6oModule → Manager → Int × Manager) :
    List Nat → Int → Manager → Int × Manager
  | [], globalRet, mm => (globalRet, mm)
  | i :: is, globalRet, mm =>
    match mm.modules[i]? with
    | none => (globalRet, mm)
    | some mod =>
      if mod.status ≠ .ok then moduleManagerAllFrom moduleFun is globalRet mm
      else
        let r := moduleFun i mod mm
        moduleManagerAllFrom moduleFun is (if r.1 ≠ 0 then r.1 else globalRet) r.2

/-- `module_manager_all`. -/
def moduleManagerAll (moduleFun : Nat → A6oModule → Manager → Int × Manager)
    (mm : Manager) : Int × Manager :=
  moduleManagerAllFrom moduleFun (List.range mm.modules.length) 0 mm

/-- What `module_init`, `module_post_init` and `module_close` have in
common: the function's answer becomes the status of the module. -/
def callForStatus (f : Option (Fun A6oModStatus)) (call : A6oModStatus → ModuleCall)
    (error : A6oModStatus) (i : Nat) (mm : Manager) : Int × Manager :=
  match f with
  | none => (0, mm)
  | some f =>
    let status := f mm.log
    (if status ≠ .ok then a6oModStatusValue error else 0,
      (mm.setStatus i status).record (call status))

/-- `module_init`. -/
def moduleInit (i : Nat) (mod : A6oModule) (mm : Manager) : Int × Manager :=
  callForStatus mod.initFun (.init i) .initError i mm

/-- `module_post_init`. -/
def modulePostInit (i : Nat) (mod : A6oModule) (mm : Manager) : Int × Manager :=
  callForStatus mod.postInitFun (.postInit i) .initError i mm

/-- `module_close`. -/
def moduleClose (i : Nat) (mod : A6oModule) (mm : Manager) : Int × Manager :=
  callForStatus mod.closeFun (.close i) .closeError i mm

/-- `module_manager_init_all`. -/
def moduleManagerInitAll (mm : Manager) : Int × Manager := moduleManagerAll moduleInit mm

/-- `module_manager_post_init_all`. -/
def moduleManagerPostInitAll (mm : Manager) : Int × Manager := moduleManagerAll modulePostInit mm

/-- `module_manager_close_all`. -/
def moduleManagerCloseAll (mm : Manager) : Int × Manager := moduleManagerAll moduleClose mm

/-! ## Configuration -/

/-- The bit of a type. -/
def a6oConfValueTypeValue : A6oConfValueType → Nat
  | .void => 0
  | .int => 1 <<< 0
  | .string => 1 <<< 1
  | .list => 1 <<< 2

/-- The first module of the name, with its place. -/
def moduleManagerGetModuleByName (mm : Manager) (name : Str) : Option (Nat × A6oModule) :=
  (mm.modules.zipIdx.find? fun m => m.1.name = name).map fun m => (m.2, m.1)

/-- The function of the first entry of a table with the key, when the type
of the value is in its mask. -/
def confFunFor (table : List A6oConfEntry) (key : Str) (value : A6oConfValue) :
    Option (Str → A6oConfValue → Fun A6oModStatus) :=
  (table.find? fun entry => entry.key = key).bind fun entry =>
    entry.confFun.bind fun confFun =>
      if a6oConfValueTypeValue (a6oConfValueGetType value) &&& entry.type = 0 then none
      else some confFun

/-- `module_conf_fun`: the module and the function it comes to call. -/
def confCall (mm : Manager) (sect key : Str) (value : A6oConfValue) :
    Option (Nat × A6oModule × (Str → A6oConfValue → Fun A6oModStatus)) :=
  (moduleManagerGetModuleByName mm sect).bind fun m =>
    (m.2.confTable.bind fun table => confFunFor table key value).map fun confFun =>
      (m.1, m.2, confFun)

/-- `module_conf_fun`. -/
def moduleConfFun (mm : Manager) (sect key : Str) (value : A6oConfValue) : Manager :=
  match confCall mm sect key value with
  | none => mm
  | some (i, _, confFun) => mm.record (.conf i key (confFun key value mm.log))

/-- The entries of a configuration, as `a6o_conf_apply` goes through them. -/
def confEntries (conf : A6oConf) : List (Str × Str × A6oConfValue) :=
  conf.sections.flatMap fun s => s.keys.map fun k => (s.sect, k.key, k.value)

/-! ## Scans -/

/-- `scan_apply_modules` on modules of the manager, given by their places,
from a running status on. -/
def scanApplyModulesFrom (seekOk : Nat → Bool) :
    Nat → A6oFileStatus → List Nat → Manager → Manager
  | _, _, [], mm => mm
  | n, current, i :: is, mm =>
    match mm.modules[i]? with
    | none => mm
    | some mod =>
      if mod.status ≠ .ok then scanApplyModulesFrom seekOk n current is mm
      else if !seekOk n then mm
      else
        match mod.scanFun with
        | none => { mm with fault := some .nullCall }
        | some scanFun =>
          let status := scanFun mm.log
          let mm := mm.record (.scan i status)
          match adopt current status with
          | .error fault => { mm with fault := some fault }
          | .ok current =>
            if current.IsAuthoritative then mm
            else scanApplyModulesFrom seekOk (n + 1) current is mm

/-! ## Status report -/

/-- The loop of `a6o_info_new`: every module that has an `info_fun`. -/
def a6oInfoNewFrom : List Nat → A6oInfo → Manager → A6oInfo × Manager
  | [], info, mm => (info, mm)
  | i :: is, info, mm =>
    match mm.modules[i]? with
    | none => (info, mm)
    | some mod =>
      match mod.infoFun with
      | none => a6oInfoNewFrom is info mm
      | some infoFun =>
        let answer := infoFun mm.log
        a6oInfoNewFrom is (info.add mod.name.val answer) (mm.record (.info i answer.modStatus))

/-- `a6o_info_new`. -/
def a6oInfoNew (mm : Manager) : A6oInfo × Manager :=
  a6oInfoNewFrom (List.range mm.modules.length) (emptyInfo a6oVersion) mm

/-! ## A run -/

/-- What happens to the modules: the three phases of `a6o_open`, entry by
entry in the second, and what is asked for afterwards. A scan gives the
places of the applicable modules and the outcome of its seeks. -/
inductive Label where
  | init
  | configure (sect key : Str) (value : A6oConfValue)
  | postInit
  | scan (seekOk : Nat → Bool) (applicable : List Nat)
  | info
  | close

/-- Nothing happens after a fault. -/
def step (mm : Manager) (l : Label) : Manager :=
  if mm.fault.isSome then mm
  else
    match l with
    | .init => (moduleManagerInitAll mm).2
    | .configure sect key value => moduleConfFun mm sect key value
    | .postInit => (moduleManagerPostInitAll mm).2
    | .scan seekOk applicable => scanApplyModulesFrom seekOk 0 .undecided applicable mm
    | .info => (a6oInfoNew mm).2
    | .close => (moduleManagerCloseAll mm).2

/-- A scan or a status request. -/
inductive Request where
  | scan (seekOk : Nat → Bool) (applicable : List Nat)
  | info

/-- The step that serves a request. -/
def Request.label : Request → Label
  | .scan seekOk applicable => .scan seekOk applicable
  | .info => .info

/-- `a6o_open`, after the modules were added. -/
def a6oOpen (conf : A6oConf) : List Label :=
  .init :: (confEntries conf).map (fun e => .configure e.1 e.2.1 e.2.2) ++ [.postInit]

/-- The steps before `a6o_close`. -/
def beforeClose (conf : A6oConf) (requests : List Request) : List Label :=
  a6oOpen conf ++ requests.map Request.label

/-- A run of the daemon. -/
def lifeOf (modules : List A6oModule) (conf : A6oConf) (requests : List Request) : Manager :=
  step ((beforeClose conf requests).foldl step (moduleManagerNew modules)) .close

/-- No call of a module follows a failed initialisation of it. -/
def LifeCycle (log : List ModuleCall) : Prop :=
  log.Pairwise fun call later => call.Fails → later.mod ≠ call.mod

/-! ## The loop of a scan -/

/-- The same module as `Core.ScanCtx` has it, for one file. -/
def SeenAs (fd : Int) (path : Option CString) (mimeType : CString) (mod : A6oModule)
    (view : Core.A6oModule) : Prop :=
  view.status = mod.status ∧
    mod.scanFun = view.scanFun.map fun scanFun _ => (scanFun fd path mimeType).1

/-- The scan of `Core.ScanCtx`, on modules whose answers depend on the file
only: the same calls with the same answers, or the same fault. -/
theorem scanApplyModulesFrom_core {seekOk : Nat → Bool} {fd : Int} {path : Option CString}
    {mimeType : CString} {view : Nat → Core.A6oModule} (is : List Nat) :
    ∀ {n : Nat} {current : A6oFileStatus} {report : Option Core.A6oReport} {mm : Manager},
      (∀ i ∈ is, ∃ mod, mm.modules[i]? = some mod ∧ SeenAs fd path mimeType mod (view i)) →
      match Core.scanApplyModulesFrom seekOk fd path mimeType n current report
        (is.map view) with
      | .error fault => (scanApplyModulesFrom seekOk n current is mm).fault = some fault
      | .ok run => ∃ calls : List (Nat × A6oFileStatus),
        scanApplyModulesFrom seekOk n current is mm =
            { mm with log := mm.log ++ calls.map fun c => .scan c.1 c.2 } ∧
          calls.map (fun c => (view c.1, c.2)) = run.calls.map fun c => (c.module, c.status) := by
  induction is with
  | nil =>
    intro n current report mm _
    exact ⟨[], by simp [scanApplyModulesFrom], rfl⟩
  | cons i is ih =>
    intro n current report mm hview
    obtain ⟨mod, hmod, hstatus, hscan⟩ := hview i List.mem_cons_self
    have hrest := fun j hj => hview j (List.mem_cons_of_mem i hj)
    rw [List.map_cons, Core.scanApplyModulesFrom, scanApplyModulesFrom, hmod, hstatus]
    dsimp only
    by_cases hok : mod.status = .ok
    · rw [if_neg (not_not_intro hok), if_neg (not_not_intro hok)]
      cases hseek : seekOk n with
      | false => exact ⟨[], by simp, rfl⟩
      | true =>
        cases hfun : (view i).scanFun with
        | none =>
          rw [hfun, Option.map_none] at hscan
          simp [hscan]
        | some scanFun =>
          rw [hfun, Option.map_some] at hscan
          simp only [hscan, Bool.not_true, Bool.false_eq_true, if_false]
          generalize (scanFun fd path mimeType).2 = text
          generalize (scanFun fd path mimeType).1 = answer
          rw [adopt]
          cases Core.a6oFileStatusCmp current answer with
          | error fault => rfl
          | ok order =>
            simp only [bind, Except.bind, pure, Except.pure, A6oFileStatus.IsAuthoritative]
            generalize (if order < 0 then answer else current) = next
            generalize (if order < 0 then report.map _ else report) = report'
            by_cases hend : next = .whiteListed ∨ next = .malware
            · simp only [hend, if_true]
              exact ⟨[(i, answer)], rfl, rfl⟩
            · simp only [hend, if_false]
              have hnext := @ih (n + 1) next report' (mm.record (.scan i answer)) hrest
              cases hrun : Core.scanApplyModulesFrom seekOk fd path mimeType (n + 1) next report'
                (is.map view) with
              | error fault =>
                rw [hrun] at hnext
                exact hnext
              | ok run =>
                rw [hrun] at hnext
                obtain ⟨calls, hmm, hcalls⟩ := hnext
                refine ⟨(i, answer) :: calls, ?_, ?_⟩
                · rw [hmm]
                  simp [Manager.record]
                · rw [List.map_cons, hcalls]
                  rfl
    · rw [if_pos hok, if_pos hok]
      exact ih hrest

/-! ## What the calls keep -/

theorem lifeCycle_append {log calls : List ModuleCall} :
    LifeCycle (log ++ calls) ↔ LifeCycle log ∧ LifeCycle calls ∧
      ∀ call ∈ log, ∀ later ∈ calls, call.Fails → later.mod ≠ call.mod :=
  List.pairwise_append

/-- Calls that initialise nothing break no life cycle of their own. -/
theorem lifeCycle_of_not_fails {calls : List ModuleCall} (h : ∀ call ∈ calls, ¬ call.Fails) :
    LifeCycle calls :=
  List.pairwise_of_forall_mem_list fun call hcall _ _ hfails => absurd hfails (h call hcall)

/-- The life cycle was kept so far, and the status of a module whose
initialisation failed says so. -/
structure Tracked (mm : Manager) : Prop where
  lifeCycle : LifeCycle mm.log
  failed : ∀ {i mod}, mm.modules[i]? = some mod →
    ∀ call ∈ mm.log, call.Fails → call.mod = i → mod.status ≠ .ok

/-- Only a failed initialisation takes the status away. -/
def Exact (mm : Manager) : Prop :=
  ∀ i mod, mm.modules[i]? = some mod → mod.status ≠ .ok →
    ∃ call ∈ mm.log, call.Fails ∧ call.mod = i

/-- What holds of a manager and is kept by the calls of a module that is OK. -/
structure KeptByCalls (P : Manager → Prop) : Prop where
  record : ∀ {mm i mod} (call), P mm → mm.modules[i]? = some mod → mod.status = .ok →
    call.mod = i → ¬ call.Fails → P (mm.record call)
  fault : ∀ {mm} fault, P mm → P { mm with fault := some fault }

theorem Tracked.not_mem {mm : Manager} (h : Tracked mm) {i : Nat} {mod : A6oModule}
    (hmod : mm.modules[i]? = some mod) (hok : mod.status = .ok) :
    ∀ call ∈ mm.log, call.Fails → i ≠ call.mod :=
  fun call hcall hfails hi => h.failed hmod call hcall hfails hi.symm hok

theorem Tracked.kept : KeptByCalls Tracked where
  record := by
    intro mm i mod call h hmod hok hcall hnot
    constructor
    · refine lifeCycle_append.mpr ⟨h.lifeCycle, List.pairwise_singleton _ _, ?_⟩
      intro earlier hearlier later hlater hfails
      rw [List.mem_singleton.mp hlater, hcall]
      exact h.not_mem hmod hok earlier hearlier hfails
    · intro j mod' hmod' earlier hearlier hfails hj
      rcases List.mem_append.mp hearlier with hearlier | hearlier
      · exact h.failed hmod' earlier hearlier hfails hj
      · rw [List.mem_singleton.mp hearlier] at hfails
        exact absurd hfails hnot
  fault := fun _ h => ⟨h.lifeCycle, h.failed⟩

theorem exact_kept : KeptByCalls Exact where
  record := by
    intro mm i mod call h _ _ _ _ j mod' hmod' hstatus
    obtain ⟨earlier, hearlier, hrest⟩ := h j mod' hmod' hstatus
    exact ⟨earlier, List.mem_append_left _ hearlier, hrest⟩
  fault := fun _ h => h

theorem getElem?_setStatus {mm : Manager} {i : Nat} {status : A6oModStatus} {j : Nat}
    {mod : A6oModule} (h : (mm.setStatus i status).modules[j]? = some mod) :
    if i = j then mod.status = status else mm.modules[j]? = some mod := by
  rw [Manager.setStatus, List.getElem?_modify] at h
  split
  · next heq =>
    obtain ⟨mod', -, hmod'⟩ := Option.map_eq_some_iff.mp h
    rw [if_pos heq] at hmod'
    rw [← hmod']
  · next hne => simpa [hne] using h

/-- The answer of an initialising or closing function becomes the status. -/
theorem Tracked.callForStatus {mm : Manager} (h : Tracked mm) {i : Nat} {mod : A6oModule}
    (hmod : mm.modules[i]? = some mod) (hok : mod.status = .ok)
    (call : A6oModStatus → ModuleCall) (hcall : ∀ ret, (call ret).mod = i)
    (hfails : ∀ ret, (call ret).Fails → ret ≠ .ok) (f : Option (Fun A6oModStatus))
    (error : A6oModStatus) : Tracked (callForStatus f call error i mm).2 := by
  cases f with
  | none => exact h
  | some f =>
    have hnew := h.not_mem hmod hok
    constructor
    · refine lifeCycle_append.mpr ⟨h.lifeCycle, List.pairwise_singleton _ _, ?_⟩
      intro earlier hearlier later hlater hearlierFails
      rw [List.mem_singleton.mp hlater, hcall]
      exact hnew earlier hearlier hearlierFails
    · intro j mod' hmod' earlier hearlier hearlierFails hj
      have hget := getElem?_setStatus hmod'
      rcases List.mem_append.mp hearlier with hearlier | hearlier
      · have hne : i ≠ j := fun heq =>
          hnew earlier hearlier hearlierFails (heq.trans hj.symm)
        rw [if_neg hne] at hget
        exact h.failed hget earlier hearlier hearlierFails hj
      · rw [List.mem_singleton] at hearlier
        subst hearlier
        rw [hcall] at hj
        rw [if_pos hj] at hget
        rw [hget]
        exact hfails _ hearlierFails

theorem Exact.callForStatus {mm : Manager} (h : Exact mm) {i : Nat}
    (call : A6oModStatus → ModuleCall) (hcall : ∀ ret, (call ret).mod = i)
    (hfails : ∀ ret, ret ≠ .ok → (call ret).Fails) (f : Option (Fun A6oModStatus))
    (error : A6oModStatus) : Exact (callForStatus f call error i mm).2 := by
  cases f with
  | none => exact h
  | some f =>
    intro j mod hmod hstatus
    have hget := getElem?_setStatus hmod
    by_cases hj : i = j
    · rw [if_pos hj] at hget
      refine ⟨call (f mm.log), List.mem_append_right _ (List.mem_singleton_self _), ?_, ?_⟩
      · exact hfails _ (hget ▸ hstatus)
      · rw [hcall, hj]
    · rw [if_neg hj] at hget
      obtain ⟨earlier, hearlier, hrest⟩ := h j mod hget hstatus
      exact ⟨earlier, List.mem_append_left _ hearlier, hrest⟩

/-! ## The loops -/

/-- What the function keeps, called for a module that is OK, the loop keeps. -/
theorem moduleManagerAll_kept {P : Manager → Prop}
    {moduleFun : Nat → A6oModule → Manager → Int × Manager}
    (hfun : ∀ {i mod mm}, P mm → mm.modules[i]? = some mod → mod.status = .ok →
      P (moduleFun i mod mm).2) {mm : Manager} (h : P mm) :
    P (moduleManagerAll moduleFun mm).2 := by
  rw [moduleManagerAll]
  generalize List.range mm.modules.length = is
  generalize (0 : Int) = globalRet
  induction is generalizing globalRet mm with
  | nil => exact h
  | cons i is ih =>
    rw [moduleManagerAllFrom]
    cases hmod : mm.modules[i]? with
    | none => exact h
    | some mod =>
      by_cases hok : mod.status = .ok
      · simp only [hok, ne_eq, not_true_eq_false, if_false]
        exact ih (hfun h hmod hok) _
      · simp only [hok, ne_eq, not_false_eq_true, if_true]
        exact ih h globalRet

theorem scanApplyModulesFrom_kept {P : Manager → Prop} (hP : KeptByCalls P)
    (seekOk : Nat → Bool) (is : List Nat) :
    ∀ {n : Nat} {current : A6oFileStatus} {mm : Manager}, P mm →
      P (scanApplyModulesFrom seekOk n current is mm) := by
  induction is with
  | nil =>
    intro n current mm h
    exact h
  | cons i is ih =>
    intro n current mm h
    rw [scanApplyModulesFrom]
    cases hmod : mm.modules[i]? with
    | none => exact h
    | some mod =>
      by_cases hok : mod.status = .ok
      · simp only [hok, ne_eq, not_true_eq_false, if_false]
        split
        · exact h
        · cases hscan : mod.scanFun with
          | none => exact hP.fault _ h
          | some scanFun =>
            have hrecord := hP.record (.scan i (scanFun mm.log)) h hmod hok rfl id
            dsimp only
            cases adopt current (scanFun mm.log) with
            | error fault => exact hP.fault _ hrecord
            | ok current =>
              dsimp only
              split
              · exact hrecord
              · exact ih hrecord
      · simp only [hok, ne_eq, not_false_eq_true, if_true]
        exact ih h

/-- The calls of a status report: one for each module that has the
function, whatever its status. -/
theorem a6oInfoNewFrom_calls (is : List Nat) :
    ∀ (info : A6oInfo) (mm : Manager), (∀ i ∈ is, i < mm.modules.length) →
      ∃ calls, (a6oInfoNewFrom is info mm).2 = { mm with log := mm.log ++ calls } ∧
        (∀ call ∈ calls, ¬ call.Fails) ∧
        ∀ i, (∃ call ∈ calls, call.mod = i) ↔
          i ∈ is ∧ ∃ mod, mm.modules[i]? = some mod ∧ mod.infoFun.isSome := by
  induction is with
  | nil =>
    intro info mm _
    exact ⟨[], by simp [a6oInfoNewFrom], by simp, by simp⟩
  | cons i is ih =>
    intro info mm his
    have hlt := his i List.mem_cons_self
    have hrest : ∀ j ∈ is, j < mm.modules.length := fun j hj => his j (List.mem_cons_of_mem i hj)
    have hmod : mm.modules[i]? = some mm.modules[i] := List.getElem?_eq_getElem hlt
    rw [a6oInfoNewFrom, hmod]
    cases hinfo : mm.modules[i].infoFun with
    | none =>
      obtain ⟨calls, hlog, hnot, hiff⟩ := ih info mm hrest
      refine ⟨calls, by simpa [hinfo] using hlog, hnot, ?_⟩
      intro j
      rw [hiff j, List.mem_cons]
      refine ⟨fun h => ⟨.inr h.1, h.2⟩, ?_⟩
      rintro ⟨rfl | hj, mod, hget, hsome⟩
      · rw [hmod] at hget
        cases hget
        simp [hinfo] at hsome
      · exact ⟨hj, mod, hget, hsome⟩
    | some infoFun =>
      obtain ⟨calls, hlog, hnot, hiff⟩ := ih
        (info.add mm.modules[i].name.val (infoFun mm.log))
        (mm.record (.info i (infoFun mm.log).modStatus)) hrest
      refine ⟨.info i (infoFun mm.log).modStatus :: calls, ?_, ?_, ?_⟩
      · simpa [hinfo, Manager.record] using hlog
      · intro call hcall
        rcases List.mem_cons.mp hcall with rfl | hcall
        · exact id
        · exact hnot call hcall
      · intro j
        have hj := hiff j
        constructor
        · rintro ⟨call, hcall, hmodOf⟩
          rcases List.mem_cons.mp hcall with rfl | hcall
          · cases hmodOf
            exact ⟨List.mem_cons_self, _, hmod, by simp [hinfo]⟩
          · obtain ⟨hmem, hfun⟩ := hj.mp ⟨call, hcall, hmodOf⟩
            exact ⟨List.mem_cons_of_mem i hmem, hfun⟩
        · rintro ⟨hmem, hfun⟩
          rcases List.mem_cons.mp hmem with rfl | hmem
          · exact ⟨_, List.mem_cons_self, rfl⟩
          · obtain ⟨call, hcall, hmodOf⟩ := hj.mpr ⟨hmem, hfun⟩
            exact ⟨call, List.mem_cons_of_mem _ hcall, hmodOf⟩

/-! ## The steps -/

/-- The entry does not reach a function of a module that is not OK. -/
def ConfigureOk (mm : Manager) (sect key : Str) (value : A6oConfValue) : Prop :=
  ∀ i mod confFun, confCall mm sect key value = some (i, mod, confFun) → mod.status = .ok

/-- No module that is not OK has an `info_fun`. -/
def InfoOk (mm : Manager) : Prop :=
  ∀ mod ∈ mm.modules, mod.infoFun.isSome → mod.status = .ok

/-- The two steps that do not look at the status themselves. -/
def StepOk (mm : Manager) : Label → Prop
  | .configure sect key value => mm.fault = none → ConfigureOk mm sect key value
  | .info => mm.fault = none → InfoOk mm
  | .init | .postInit | .scan _ _ | .close => True

theorem confCall_getElem? {mm : Manager} {sect key : Str} {value : A6oConfValue} {i : Nat}
    {mod : A6oModule} {confFun : Str → A6oConfValue → Fun A6oModStatus}
    (h : confCall mm sect key value = some (i, mod, confFun)) : mm.modules[i]? = some mod := by
  obtain ⟨⟨j, mod'⟩, hmod, h⟩ := Option.bind_eq_some_iff.mp h
  obtain ⟨confFun', -, h⟩ := Option.map_eq_some_iff.mp h
  cases h
  obtain ⟨⟨mod'', j'⟩, hfind, h⟩ := Option.map_eq_some_iff.mp hmod
  cases h
  exact List.mem_zipIdx_iff_getElem?.mp (List.mem_of_find?_eq_some hfind)

theorem a6oInfoNew_calls (mm : Manager) :
    ∃ calls, (a6oInfoNew mm).2 = { mm with log := mm.log ++ calls } ∧
      (∀ call ∈ calls, ¬ call.Fails) ∧
      ∀ i, (∃ call ∈ calls, call.mod = i) ↔
        ∃ mod, mm.modules[i]? = some mod ∧ mod.infoFun.isSome := by
  obtain ⟨calls, hlog, hnot, hiff⟩ := a6oInfoNewFrom_calls (List.range mm.modules.length)
    (emptyInfo a6oVersion) mm (fun i hi => List.mem_range.mp hi)
  refine ⟨calls, hlog, hnot, fun i => (hiff i).trans ?_⟩
  refine ⟨fun h => h.2, fun h => ⟨?_, h⟩⟩
  obtain ⟨mod, hmod, -⟩ := h
  exact List.mem_range.mpr (List.getElem?_eq_some_iff.mp hmod).1

/-- A step that meets the condition keeps the life cycle. -/
theorem step_tracked {mm : Manager} {l : Label} (h : Tracked mm) (hok : StepOk mm l) :
    Tracked (step mm l) := by
  unfold step
  split
  · exact h
  · next hlive =>
    have hlive : mm.fault = none := Option.not_isSome_iff_eq_none.mp hlive
    cases l with
    | init =>
      show Tracked (moduleManagerAll moduleInit mm).2
      refine moduleManagerAll_kept (fun h hmod hstatus => ?_) h
      exact h.callForStatus hmod hstatus _ (fun _ => rfl) (fun _ => id) _ _
    | postInit =>
      show Tracked (moduleManagerAll modulePostInit mm).2
      refine moduleManagerAll_kept (fun h hmod hstatus => ?_) h
      exact h.callForStatus hmod hstatus _ (fun _ => rfl) (fun _ => id) _ _
    | close =>
      show Tracked (moduleManagerAll moduleClose mm).2
      refine moduleManagerAll_kept (fun h hmod hstatus => ?_) h
      exact h.callForStatus hmod hstatus _ (fun _ => rfl) (fun _ => False.elim) _ _
    | scan seekOk applicable => exact scanApplyModulesFrom_kept Tracked.kept seekOk applicable h
    | configure sect key value =>
      show Tracked (moduleConfFun mm sect key value)
      unfold moduleConfFun
      cases hcall : confCall mm sect key value with
      | none => exact h
      | some found =>
        obtain ⟨i, mod, confFun⟩ := found
        exact Tracked.kept.record _ h (confCall_getElem? hcall)
          (hok hlive i mod confFun hcall) rfl id
    | info =>
      obtain ⟨calls, hlog, hnot, hiff⟩ := a6oInfoNew_calls mm
      show Tracked (a6oInfoNew mm).2
      rw [hlog]
      constructor
      · refine lifeCycle_append.mpr ⟨h.lifeCycle, lifeCycle_of_not_fails hnot, ?_⟩
        intro earlier hearlier later hlater hfails heq
        obtain ⟨mod, hmod, hfun⟩ := (hiff later.mod).mp ⟨later, hlater, rfl⟩
        have hstatus := hok hlive mod (List.mem_of_getElem? hmod) hfun
        exact h.failed hmod earlier hearlier hfails heq.symm hstatus
      · intro i mod hmod call hcall hfails hi
        rcases List.mem_append.mp hcall with hcall | hcall
        · exact h.failed hmod call hcall hfails hi
        · exact absurd hfails (hnot call hcall)

/-- Before the modules are closed, a status is lost by a failed
initialisation only. -/
theorem step_exact {mm : Manager} {l : Label} (h : Exact mm) (hl : l ≠ .close) :
    Exact (step mm l) := by
  unfold step
  split
  · exact h
  · cases l with
    | init =>
      show Exact (moduleManagerAll moduleInit mm).2
      refine moduleManagerAll_kept (fun h _ _ => ?_) h
      exact Exact.callForStatus h (.init _) (fun _ => rfl) (fun _ hfails => hfails) _ _
    | postInit =>
      show Exact (moduleManagerAll modulePostInit mm).2
      refine moduleManagerAll_kept (fun h _ _ => ?_) h
      exact Exact.callForStatus h (.postInit _) (fun _ => rfl) (fun _ hfails => hfails) _ _
    | close => exact absurd rfl hl
    | scan seekOk applicable => exact scanApplyModulesFrom_kept exact_kept seekOk applicable h
    | configure sect key value =>
      show Exact (moduleConfFun mm sect key value)
      unfold moduleConfFun
      split
      · exact h
      · intro i mod hmod hstatus
        obtain ⟨call, hcall, hrest⟩ := h i mod hmod hstatus
        exact ⟨call, List.mem_append_left _ hcall, hrest⟩
    | info =>
      obtain ⟨calls, hlog, -, -⟩ := a6oInfoNew_calls mm
      show Exact (a6oInfoNew mm).2
      rw [hlog]
      intro i mod hmod hstatus
      obtain ⟨call, hcall, hrest⟩ := h i mod hmod hstatus
      exact ⟨call, List.mem_append_left _ hcall, hrest⟩

/-- A step that does not meet the condition calls a module whose
initialisation failed. -/
theorem step_breaks {mm : Manager} {l : Label} (h : Exact mm) (hok : ¬ StepOk mm l) :
    ¬ LifeCycle (step mm l).log := by
  -- the call of a module that is not OK, after the one that failed
  have hbreak : ∀ {i mod later calls}, mm.modules[i]? = some mod → mod.status ≠ .ok →
      later ∈ calls → later.mod = i → ¬ LifeCycle (mm.log ++ calls) := by
    intro i mod later calls hmod hstatus hlater hi hlife
    obtain ⟨call, hcall, hfails, hcallMod⟩ := h i mod hmod hstatus
    exact (lifeCycle_append.mp hlife).2.2 call hcall later hlater hfails
      (hi.trans hcallMod.symm)
  cases l with
  | init => exact absurd trivial hok
  | postInit => exact absurd trivial hok
  | scan _ _ => exact absurd trivial hok
  | close => exact absurd trivial hok
  | configure sect key value =>
    simp only [StepOk, ConfigureOk, not_forall] at hok
    obtain ⟨hlive, i, mod, confFun, hcall, hstatus⟩ := hok
    rw [step, hlive, if_neg (by simp)]
    show ¬ LifeCycle (moduleConfFun mm sect key value).log
    rw [moduleConfFun, hcall]
    exact hbreak (confCall_getElem? hcall) hstatus (List.mem_singleton_self _) rfl
  | info =>
    simp only [StepOk, InfoOk, not_forall] at hok
    obtain ⟨hlive, mod, hmem, hfun, hstatus⟩ := hok
    obtain ⟨i, hmod⟩ := List.getElem?_of_mem hmem
    obtain ⟨calls, hlog, -, hiff⟩ := a6oInfoNew_calls mm
    obtain ⟨later, hlater, hi⟩ := (hiff i).mpr ⟨mod, hmod, hfun⟩
    rw [step, hlive, if_neg (by simp)]
    show ¬ LifeCycle (a6oInfoNew mm).2.log
    rw [hlog]
    exact hbreak hmod hstatus hlater hi

/-! ## Runs -/

/-- Calls are only added. -/
def Extends (log : List ModuleCall) (mm : Manager) : Prop := log <+: mm.log

theorem extends_record {log : List ModuleCall} {mm : Manager} (h : Extends log mm)
    (call : ModuleCall) : Extends log (mm.record call) :=
  h.trans (List.prefix_append _ _)

theorem extends_kept (log : List ModuleCall) : KeptByCalls (Extends log) where
  record := fun call h _ _ _ _ => extends_record h call
  fault := fun _ h => h

theorem extends_callForStatus {log : List ModuleCall} {mm : Manager} (h : Extends log mm)
    (f : Option (Fun A6oModStatus)) (call : A6oModStatus → ModuleCall) (error : A6oModStatus)
    (i : Nat) : Extends log (callForStatus f call error i mm).2 := by
  cases f with
  | none => exact h
  | some f => exact h.trans (List.prefix_append _ _)

theorem step_extends (mm : Manager) (l : Label) : Extends mm.log (step mm l) := by
  have hself : Extends mm.log mm := List.prefix_rfl
  unfold step
  split
  · exact hself
  · cases l with
    | init =>
      show Extends mm.log (moduleManagerAll moduleInit mm).2
      exact moduleManagerAll_kept (P := Extends mm.log)
        (fun h _ _ => extends_callForStatus h _ _ _ _) hself
    | postInit =>
      show Extends mm.log (moduleManagerAll modulePostInit mm).2
      exact moduleManagerAll_kept (P := Extends mm.log)
        (fun h _ _ => extends_callForStatus h _ _ _ _) hself
    | close =>
      show Extends mm.log (moduleManagerAll moduleClose mm).2
      exact moduleManagerAll_kept (P := Extends mm.log)
        (fun h _ _ => extends_callForStatus h _ _ _ _) hself
    | scan seekOk applicable =>
      exact scanApplyModulesFrom_kept (extends_kept mm.log) seekOk applicable hself
    | configure sect key value =>
      show Extends mm.log (moduleConfFun mm sect key value)
      unfold moduleConfFun
      split
      · exact hself
      · exact extends_record hself _
    | info =>
      obtain ⟨calls, hlog, -, -⟩ := a6oInfoNew_calls mm
      show Extends mm.log (a6oInfoNew mm).2
      rw [hlog]
      exact List.prefix_append _ _

theorem foldl_step_extends (ls : List Label) (mm : Manager) :
    Extends mm.log (ls.foldl step mm) := by
  induction ls generalizing mm with
  | nil => exact List.prefix_rfl
  | cons l ls ih => exact (step_extends mm l).trans (ih (step mm l))

/-- A life cycle that is broken stays broken. -/
theorem LifeCycle.of_extends {log : List ModuleCall} {mm : Manager} (h : LifeCycle mm.log)
    (hlog : Extends log mm) : LifeCycle log :=
  List.Pairwise.sublist hlog.sublist h

/-- Every step of the run meets the condition, in the state it is taken in. -/
def RunOk (mm : Manager) (ls : List Label) : Prop :=
  Transition.AllSteps (fun mm l => some (step mm l)) StepOk mm ls

theorem runOk_cons {mm : Manager} {l : Label} {ls : List Label} :
    RunOk mm (l :: ls) ↔ StepOk mm l ∧ RunOk (step mm l) ls := by
  simp [RunOk, Transition.AllSteps]

/-- The run before the modules are closed. -/
theorem runOk_iff {ls : List Label} (hclose : .close ∉ ls) :
    ∀ {mm : Manager}, Tracked mm → Exact mm →
      (RunOk mm ls ↔ LifeCycle (ls.foldl step mm).log) ∧
        (RunOk mm ls → Tracked (ls.foldl step mm)) := by
  induction ls with
  | nil =>
    intro mm h _
    exact ⟨iff_of_true trivial h.lifeCycle, fun _ => h⟩
  | cons l ls ih =>
    intro mm h hexact
    rw [List.mem_cons, not_or] at hclose
    rw [runOk_cons]
    by_cases hok : StepOk mm l
    · obtain ⟨hiff, hrun⟩ := ih hclose.2 (step_tracked h hok)
        (step_exact hexact (fun heq => hclose.1 heq.symm))
      exact ⟨(and_iff_right hok).trans hiff, fun hall => hrun hall.2⟩
    · refine ⟨iff_of_false (fun hall => hok hall.1) ?_, fun hall => absurd hall.1 hok⟩
      intro hlife
      exact step_breaks hexact hok (hlife.of_extends (foldl_step_extends ls (step mm l)))

theorem moduleManagerNew_tracked (modules : List A6oModule) :
    Tracked (moduleManagerNew modules) :=
  ⟨List.Pairwise.nil, fun _ _ hcall => by cases hcall⟩

theorem moduleManagerNew_exact (modules : List A6oModule) :
    Exact (moduleManagerNew modules) := by
  intro i mod hmod hstatus
  rw [moduleManagerNew, List.getElem?_map] at hmod
  obtain ⟨src, -, rfl⟩ := Option.map_eq_some_iff.mp hmod
  exact absurd rfl hstatus

theorem close_not_mem_beforeClose (conf : A6oConf) (requests : List Request) :
    .close ∉ beforeClose conf requests := by
  intro hmem
  simp only [beforeClose, a6oOpen, List.cons_append, List.mem_cons, reduceCtorEq,
    List.mem_append, List.mem_map, List.not_mem_nil, or_false, and_false, exists_false,
    false_or] at hmem
  obtain ⟨request, -, hrequest⟩ := hmem
  cases request <;> cases hrequest

/-- **A module whose initialisation failed is left alone if and only if no
configuration entry and no status report meets it.** For every list of
modules, whatever their functions return, every configuration and every
sequence of scans and status requests: no call of a module follows a failed
`init_fun` or `post_init_fun` of it exactly when no entry of the
configuration reaches a function of a module that is not OK, and no module
that is not OK has an `info_fun` when the status is asked for. -/
theorem lifeCycle_iff (modules : List A6oModule) (conf : A6oConf) (requests : List Request) :
    LifeCycle (lifeOf modules conf requests).log ↔
      RunOk (moduleManagerNew modules) (beforeClose conf requests) := by
  obtain ⟨hiff, hrun⟩ := runOk_iff (close_not_mem_beforeClose conf requests)
    (moduleManagerNew_tracked modules) (moduleManagerNew_exact modules)
  constructor
  · intro h
    exact hiff.mpr (h.of_extends (step_extends _ _))
  · intro h
    exact (step_tracked (l := .close) (hrun h) trivial).lifeCycle

/-! ## Where it fails -/

def engineName : Str := ⟨"engine".toList, by decide⟩

def engineKey : Str := ⟨"depth".toList, by decide⟩

/-- A module that cannot be initialised, with a configuration table and a
status function. -/
def engine : A6oModule where
  initFun := some fun _ => .initError
  confTable := some [⟨engineKey, a6oConfValueTypeValue .int, some fun _ _ _ => .ok⟩]
  postInitFun := none
  scanFun := none
  closeFun := none
  infoFun := some fun _ => ⟨.ok, 0, none⟩
  name := engineName
  status := .ok

/-- `[engine] depth = 3`. -/
def engineConf : A6oConf :=
  (ConfApi.a6oConfAddUint Conf.a6oConfNew engineName engineKey 3).2

/-- The failed module is configured, and asked for its status. -/
theorem engine_called :
    (lifeOf [engine] engineConf [.info]).log =
        [.init 0 .initError, .conf 0 engineKey .ok, .info 0 .ok] ∧
      ¬ LifeCycle (lifeOf [engine] engineConf [.info]).log := by
  have hlog : (lifeOf [engine] engineConf [.info]).log =
      [.init 0 .initError, .conf 0 engineKey .ok, .info 0 .ok] := rfl
  refine ⟨hlog, ?_⟩
  rw [hlog]
  intro h
  have hfails : (ModuleCall.init 0 .initError).Fails := by simp [ModuleCall.Fails]
  exact List.rel_of_pairwise_cons h List.mem_cons_self hfails rfl

end Armadito.ModuleManager
