import Armadito.Core.ScanConf
import Armadito.Lib.Memo

/-!
# Core.MimeCache

`scanconf.c`: the configuration of the MIME types and the modules, and the
look-ups that go through the cache.

The cache keeps "no module" as a NULL value. `g_hash_table_lookup_extended`
tells it from a MIME type that has not been looked up.
-/

namespace Armadito.Core

/-! ## The configuration -/

/-- `a6o_scan_conf_new`. -/
def a6oScanConfNew : A6oScanConf :=
  { mimeTypes := [], modules := [], mimeTypeCache := [], directoriesWhiteList := [] }

/-- `a6o_scan_conf_add_mime_type`. -/
def a6oScanConfAddMimeType (c : A6oScanConf) (mimeType : CString) : A6oScanConf :=
  { c with mimeTypes := c.mimeTypes ++ [mimeType] }

/-- `module_manager_get_module_by_name`. -/
def a6oGetModuleByName (u : List A6oModule) (name : CString) : Option A6oModule :=
  u.find? fun mod => mod.name = name

/-- The module goes into the array as it is. An unknown name is a warning
in the log. -/
def a6oScanConfAddModule (c : A6oScanConf) (moduleName : CString) (u : List A6oModule) :
    A6oScanConf :=
  match a6oGetModuleByName u moduleName with
  | none => c
  | some mod => { c with modules := c.modules ++ [mod] }

/-- A call of the configuration phase. -/
inductive ConfCall where
  | addMimeType (mimeType : CString)
  | addModule (moduleName : CString) (u : List A6oModule)

/-- The configuration after a call. -/
def ConfCall.apply (c : A6oScanConf) : ConfCall → A6oScanConf
  | .addMimeType mimeType => a6oScanConfAddMimeType c mimeType
  | .addModule moduleName u => a6oScanConfAddModule c moduleName u

/-- The calls on a new configuration. -/
def configure (calls : List ConfCall) : A6oScanConf := calls.foldl ConfCall.apply a6oScanConfNew

/-- Look-ups one after the other, until one of them ends the process. -/
def getApplicableModulesAll :
    A6oScanConf → List CString → Except Fault (List (Option (List A6oModule)) × A6oScanConf)
  | c, [] => .ok ([], c)
  | c, mimeType :: mimeTypes => do
    let (modules, c) ← a6oScanConfGetApplicableModules c mimeType
    let (rest, c) ← getApplicableModulesAll c mimeTypes
    return (modules :: rest, c)

/-! ## What was configured -/

/-- The type that a call adds. -/
def ConfCall.mimeType : ConfCall → Option CString
  | .addMimeType mimeType => some mimeType
  | .addModule _ _ => none

/-- The module that the call adds. -/
def ConfCall.module : ConfCall → Option A6oModule
  | .addMimeType _ => none
  | .addModule moduleName u => a6oGetModuleByName u moduleName

theorem apply_mimeTypes (c : A6oScanConf) (call : ConfCall) :
    (call.apply c).mimeTypes = c.mimeTypes ++ call.mimeType.toList := by
  cases call with
  | addMimeType mimeType => rfl
  | addModule moduleName u =>
    simp only [ConfCall.apply, a6oScanConfAddModule, ConfCall.mimeType, Option.toList_none,
      List.append_nil]
    split <;> rfl

theorem apply_modules (c : A6oScanConf) (call : ConfCall) :
    (call.apply c).modules = c.modules ++ call.module.toList := by
  cases call with
  | addMimeType mimeType => simp [ConfCall.apply, a6oScanConfAddMimeType, ConfCall.module]
  | addModule moduleName u =>
    simp only [ConfCall.apply, a6oScanConfAddModule, ConfCall.module]
    split
    · next h => simp [h]
    · next mod h => simp [h]

theorem apply_cache (c : A6oScanConf) (call : ConfCall) :
    (call.apply c).mimeTypeCache = c.mimeTypeCache := by
  cases call with
  | addMimeType mimeType => rfl
  | addModule moduleName u =>
    simp only [ConfCall.apply, a6oScanConfAddModule]
    split <;> rfl

/-- The configuration has what the calls add, in their order, and its cache
is empty. -/
theorem configure_eq (calls : List ConfCall) :
    (configure calls).mimeTypes = calls.filterMap ConfCall.mimeType ∧
      (configure calls).modules = calls.filterMap ConfCall.module ∧
      (configure calls).mimeTypeCache = [] := by
  have hrun : ∀ (calls : List ConfCall) (c : A6oScanConf),
      (calls.foldl ConfCall.apply c).mimeTypes
          = c.mimeTypes ++ calls.filterMap ConfCall.mimeType ∧
        (calls.foldl ConfCall.apply c).modules
          = c.modules ++ calls.filterMap ConfCall.module ∧
        (calls.foldl ConfCall.apply c).mimeTypeCache = c.mimeTypeCache := by
    intro calls
    induction calls with
    | nil =>
      intro c
      simp
    | cons call calls ih =>
      intro c
      obtain ⟨hmime, hmodules, hcache⟩ := ih (call.apply c)
      rw [List.foldl_cons, hmime, hmodules, hcache, apply_mimeTypes, apply_modules, apply_cache]
      refine ⟨?_, ?_, rfl⟩
      · cases hc : call.mimeType <;> simp [hc]
      · cases hc : call.module <;> simp [hc]
  exact hrun calls a6oScanConfNew

/-! ## The cache -/

/-- `get_applicable_modules` behind the cache. -/
def uncached (c : A6oScanConf) (mimeType : CString) : Except Fault (Option (List A6oModule)) :=
  if !mimeTypeContains c.mimeTypes mimeType then .ok none else buildModuleArray c mimeType

theorem getApplicableModules_eq (c : A6oScanConf) (mimeType : CString) :
    a6oScanConfGetApplicableModules c mimeType
      = (Memo.lookUp (uncached c) c.mimeTypeCache mimeType).map
          fun r => (r.1, { c with mimeTypeCache := r.2 }) := by
  rw [a6oScanConfGetApplicableModules, Memo.lookUp, uncached]
  cases c.mimeTypeCache.lookup mimeType with
  | some modules => rfl
  | none =>
    dsimp only
    split
    · rfl
    · cases buildModuleArray c mimeType <;> rfl

/-- The look-ups are those of a cache in front of `uncached`. -/
theorem getApplicableModulesAll_eq (mimeTypes : List CString) :
    ∀ c : A6oScanConf, getApplicableModulesAll c mimeTypes
      = (Memo.lookUps (uncached c) c.mimeTypeCache mimeTypes).map
          fun r => (r.1, { c with mimeTypeCache := r.2 }) := by
  induction mimeTypes with
  | nil =>
    intro c
    rfl
  | cons mimeType mimeTypes ih =>
    intro c
    rw [getApplicableModulesAll, Memo.lookUps, getApplicableModules_eq]
    cases Memo.lookUp (uncached c) c.mimeTypeCache mimeType with
    | error e => rfl
    | ok r =>
      show (getApplicableModulesAll { c with mimeTypeCache := r.2 } mimeTypes >>= _) = _
      rw [ih]
      -- the cache is not part of what lies behind it
      show (Except.map _ (Memo.lookUps (uncached c) r.2 mimeTypes) >>= _)
        = Except.map _ (Memo.lookUps (uncached c) r.2 mimeTypes >>= _)
      cases Memo.lookUps (uncached c) r.2 mimeTypes <;> rfl

/-! ## What the look-ups answer -/

/-- The module's table contains the MIME type or `*`. -/
def A6oModule.handles (mod : A6oModule) (mimeType : CString) : Bool :=
  mod.supportedMimeTypes.any fun table => mimeType ∈ table ∨ "*".toList ∈ table

/-- The configured modules that handle the MIME type, when it is a
configured one and there is such a module. -/
def applicable (calls : List ConfCall) (mimeType : CString) : Option (List A6oModule) :=
  let mimeTypes := calls.filterMap ConfCall.mimeType
  let modules := (calls.filterMap ConfCall.module).filter fun mod => mod.handles mimeType
  if (mimeType ∈ mimeTypes ∨ "*".toList ∈ mimeTypes) ∧ modules ≠ [] then some modules else none

theorem mimeTypeContains_iff {mimeTypes : List CString} {mimeType : CString} :
    mimeTypeContains mimeTypes mimeType = true ↔ mimeType ∈ mimeTypes ∨ "*".toList ∈ mimeTypes := by
  simp only [mimeTypeContains, List.any_eq_true, Bool.or_eq_true, decide_eq_true_eq]
  constructor
  · rintro ⟨p, hp, rfl | rfl⟩
    · exact .inl hp
    · exact .inr hp
  · rintro (h | h)
    · exact ⟨_, h, .inl rfl⟩
    · exact ⟨_, h, .inr rfl⟩

theorem buildModuleArrayLoop_eq {modules : List A6oModule} (mimeType : CString)
    (htables : ∀ mod ∈ modules, mod.supportedMimeTypes ≠ none) :
    buildModuleArrayLoop mimeType modules
      = .ok (modules.filter fun mod => mod.handles mimeType) := by
  induction modules with
  | nil => rfl
  | cons mod mods ih =>
    obtain ⟨table, htable⟩ := Option.ne_none_iff_exists'.mp (htables mod List.mem_cons_self)
    have hrest := ih fun m hm => htables m (List.mem_cons_of_mem mod hm)
    have hhandles : mod.handles mimeType = mimeTypeContains table mimeType := by
      rw [Bool.eq_iff_iff, mimeTypeContains_iff, A6oModule.handles, htable]
      simp
    rw [buildModuleArrayLoop, htable, List.filter_cons, hhandles, hrest]
    show Except.ok _ = _
    split <;> rfl

theorem uncached_eq {c : A6oScanConf} (mimeType : CString)
    (htables : ∀ mod ∈ c.modules, mod.supportedMimeTypes ≠ none) :
    uncached c mimeType
      = .ok (if (mimeType ∈ c.mimeTypes ∨ "*".toList ∈ c.mimeTypes) ∧
            c.modules.filter (fun mod => mod.handles mimeType) ≠ [] then
          some (c.modules.filter fun mod => mod.handles mimeType)
        else none) := by
  rw [uncached, buildModuleArray, buildModuleArrayLoop_eq mimeType htables]
  simp only [← mimeTypeContains_iff]
  cases mimeTypeContains c.mimeTypes mimeType with
  | false => simp
  | true =>
    show Except.ok _ = _
    by_cases hnone : c.modules.filter (fun mod => mod.handles mimeType) = [] <;> simp [hnone]

/-- With an empty cache at the start every look-up answers as if it were the
first. -/
theorem getApplicableModulesAll_fst {c : A6oScanConf} (hcache : c.mimeTypeCache = [])
    (mimeTypes : List CString) :
    (getApplicableModulesAll c mimeTypes).map Prod.fst = mimeTypes.mapM (uncached c) := by
  rw [getApplicableModulesAll_eq, hcache, ← Memo.lookUps_eq mimeTypes (Memo.Sound.nil _)]
  cases Memo.lookUps (uncached c) [] mimeTypes <;> rfl

theorem getApplicableModulesAll_of_uncached {c : A6oScanConf}
    {f : CString → Option (List A6oModule)} (hcache : c.mimeTypeCache = [])
    (hanswer : ∀ mimeType, uncached c mimeType = .ok (f mimeType)) (mimeTypes : List CString) :
    ∃ c', getApplicableModulesAll c mimeTypes = .ok (mimeTypes.map f, c') := by
  have hanswers : (getApplicableModulesAll c mimeTypes).map Prod.fst = .ok (mimeTypes.map f) := by
    rw [getApplicableModulesAll_fst hcache]
    induction mimeTypes with
    | nil => rfl
    | cons mimeType mimeTypes ih =>
      rw [List.mapM_cons, hanswer mimeType, ih]
      rfl
  cases hrun : getApplicableModulesAll c mimeTypes with
  | error e =>
    rw [hrun] at hanswers
    cases hanswers
  | ok r =>
    rw [hrun] at hanswers
    obtain hr : r.1 = _ := Except.ok.inj hanswers
    exact ⟨r.2, by rw [← hr]⟩

/-- **The cache is transparent**: whatever was looked up before, each
look-up answers with the configured modules that handle its MIME type. -/
theorem getApplicableModulesAll_configure {calls : List ConfCall}
    (htables : ∀ call ∈ calls, ∀ mod, call.module = some mod → mod.supportedMimeTypes ≠ none)
    (mimeTypes : List CString) :
    ∃ c, getApplicableModulesAll (configure calls) mimeTypes
      = .ok (mimeTypes.map (applicable calls), c) := by
  obtain ⟨hmime, hmodules, hcache⟩ := configure_eq calls
  have hall : ∀ mod ∈ (configure calls).modules, mod.supportedMimeTypes ≠ none := by
    intro mod hmod
    rw [hmodules] at hmod
    obtain ⟨call, hcall, hmod⟩ := List.mem_filterMap.mp hmod
    exact htables call hcall mod hmod
  refine getApplicableModulesAll_of_uncached hcache (fun mimeType => ?_) mimeTypes
  rw [uncached_eq mimeType hall, hmime, hmodules]
  rfl

/-- A module for executables, and one for everything. -/
def exeModule : A6oModule :=
  { name := "exe".toList
    status := .ok
    supportedMimeTypes := some ["application/x-dosexec".toList]
    scanFun := none }

def anyModule : A6oModule :=
  { name := "any".toList
    status := .ok
    supportedMimeTypes := some ["*".toList]
    scanFun := none }

/-- Both modules, for executables and PDF. -/
def exeAndPdf : List ConfCall :=
  [.addModule "any".toList [exeModule, anyModule], .addMimeType "application/x-dosexec".toList,
    .addMimeType "application/pdf".toList, .addModule "exe".toList [exeModule, anyModule],
    .addModule "none".toList [exeModule, anyModule]]

theorem getApplicableModulesAll_exeAndPdf : ∃ c,
    getApplicableModulesAll (configure exeAndPdf)
        ["text/plain".toList, "application/pdf".toList, "application/x-dosexec".toList,
          "text/plain".toList, "application/pdf".toList]
      = .ok ([none, some [anyModule], some [anyModule, exeModule], none, some [anyModule]], c) :=
  @getApplicableModulesAll_configure exeAndPdf
    (by simp [exeAndPdf, ConfCall.module, a6oGetModuleByName, exeModule, anyModule]) _

end Armadito.Core
