import Armadito.Core.Report
import Armadito.Core.ScanConf

/-!
# Core.ScanCtx

`scanctx.c`: deciding whether a file is scanned at all, and applying the
modules to it.

`a6o_scan_context_get` works on memory its caller has allocated and not
initialised, so the model takes the old contents of the context as an
argument; a field the function does not set keeps its arbitrary value.
-/

namespace Armadito.Core

/-- `enum a6o_scan_context_status`. -/
inductive A6oScanContextStatus where
  | mustScan
  | whiteListedDirectory
  | fileTooBig
  | fileCached
  | fileTypeNotScanned
  | fileOpenError
  deriving DecidableEq, Repr

/-- `struct a6o_scan_context`. -/
structure A6oScanContext where
  status : A6oScanContextStatus
  fd : Int
  path : Option CString
  mimeType : Option CString
  applicableModules : Option (List A6oModule)

/-- What the system answers while a context is filled: the descriptor
`open` returns for a path and the MIME type found behind a descriptor. -/
structure FileCalls where
  osOpen : CString → Int
  osMimeTypeGuessFd : Int → Option CString

/-- `if (report != NULL) a6o_report_change(report, status, NULL, NULL)`. -/
def reportStatus (report : Option A6oReport) (status : A6oFileStatus) :
    Option A6oReport :=
  report.map fun r => a6oReportChange r status none none

/-- The file name against the directories white list. -/
def pathIsWhiteListed (conf : A6oScanConf) (path : Option CString) : Bool :=
  match path with
  | some p => a6oScanConfIsWhiteListed conf p
  | none => false

/-- The context as it is first set, before any decision. -/
def contextInit (fd : Int) : A6oScanContext :=
  { status := .mustScan, fd, path := none, mimeType := none, applicableModules := none }

/-- The descriptor that is scanned: the one given, or that of the opened
file. The path is there: a NULL path with a negative descriptor was
refused before. -/
def contextFd (sys : FileCalls) (fd : Int) (path : Option CString) : Int :=
  if fd < 0 then sys.osOpen (path.getD []) else fd

/-- The second half of `a6o_scan_context_get`, from the MIME type on. -/
def contextFindModules (sys : FileCalls) (ctx : A6oScanContext)
    (path : Option CString) (conf : A6oScanConf) (report : Option A6oReport) :
    Except Fault (A6oScanContext × A6oScanConf × Option A6oReport) :=
  match sys.osMimeTypeGuessFd ctx.fd with
  | none =>
    .ok ({ ctx with status := .fileTypeNotScanned }, conf,
      reportStatus report .unknownType)
  | some mimeType => do
    let found ← a6oScanConfGetApplicableModules conf mimeType
    match found.1 with
    | none =>
      return ({ ctx with status := .fileTypeNotScanned }, found.2,
        reportStatus report .unknownType)
    | some modules =>
      return ({ ctx with
          status := .mustScan
          path
          mimeType := some mimeType
          applicableModules := some modules }, found.2, report)

/-- Fills the context; the status the function returns is the one it has
stored there. -/
def a6oScanContextGet (sys : FileCalls) (ctx : A6oScanContext) (fd : Int)
    (path : Option CString) (conf : A6oScanConf) (report : Option A6oReport) :
    Except Fault (A6oScanContext × A6oScanConf × Option A6oReport) :=
  if fd < 0 ∧ path = none then
    .ok ({ ctx with status := .fileOpenError }, conf, reportStatus report .ierror)
  else if pathIsWhiteListed conf path then
    .ok ({ contextInit fd with status := .whiteListedDirectory }, conf,
      reportStatus report .whiteListed)
  else if contextFd sys fd path < 0 then
    .ok ({ contextInit (contextFd sys fd path) with status := .fileOpenError }, conf,
      reportStatus report .ierror)
  else
    contextFindModules sys (contextInit (contextFd sys fd path)) path conf report

/-! ## Applying the modules -/

/-- One call of a module's `scan_fun`: who was called and what it said. -/
structure ModuleCall where
  module : A6oModule
  status : A6oFileStatus
  report : Option CString

/-- The outcome of applying the modules: the combined status, the report
and the calls made, in order. -/
structure ScanRun where
  status : A6oFileStatus
  report : Option A6oReport
  calls : List ModuleCall

/-- A call made before the rest of the run. -/
def ScanRun.afterCall (run : ScanRun) (call : ModuleCall) : ScanRun :=
  { run with calls := call :: run.calls }

/-- The loop of `scan_apply_modules` from a running status on. `seekOk n`
is the outcome of the `n`-th `lseek` of the scan, `n` counts them. -/
def scanApplyModulesFrom (seekOk : Nat → Bool) (fd : Int) (path : Option CString)
    (mimeType : CString) :
    Nat → A6oFileStatus → Option A6oReport → List A6oModule → Except Fault ScanRun
  | _, currentStatus, report, [] => .ok ⟨currentStatus, report, []⟩
  | n, currentStatus, report, mod :: mods =>
    if mod.status ≠ .ok then
      scanApplyModulesFrom seekOk fd path mimeType n currentStatus report mods
    else if !seekOk n then
      .ok ⟨.ierror, report, []⟩
    else
      match mod.scanFun with
      | none => .error .nullCall
      | some scanFun => do
        let (modStatus, moduleReport) := scanFun fd path mimeType
        let order ← a6oFileStatusCmp currentStatus modStatus
        let adopt := order < 0
        let currentStatus := if adopt then modStatus else currentStatus
        let report := if adopt
          then report.map fun r => a6oReportChange r modStatus (some mod.name) moduleReport
          else report
        let call : ModuleCall := ⟨mod, modStatus, moduleReport⟩
        if currentStatus = .whiteListed ∨ currentStatus = .malware then
          return ⟨currentStatus, report, [call]⟩
        else do
          let run ← scanApplyModulesFrom seekOk fd path mimeType (n + 1)
            currentStatus report mods
          return run.afterCall call

/-- `scan_apply_modules`. -/
def scanApplyModules (seekOk : Nat → Bool) (fd : Int) (path : Option CString)
    (mimeType : CString) (modules : List A6oModule) (report : Option A6oReport) :
    Except Fault ScanRun :=
  scanApplyModulesFrom seekOk fd path mimeType 0 .undecided report modules

/-- `a6o_scan_context_scan`. -/
def a6oScanContextScan (seekOk : Nat → Bool) (ctx : A6oScanContext)
    (report : A6oReport) : Except Fault ScanRun :=
  match ctx.applicableModules, ctx.mimeType with
  | some modules, some mimeType =>
    scanApplyModules seekOk ctx.fd ctx.path mimeType modules (some report)
  | _, _ =>
    .ok ⟨.unknownType, some (a6oReportChange report .unknownType none none), []⟩

/-! ## What a filled context looks like -/

/-- From the MIME type on there are three outcomes: no type, no module for
the type, or a context with its modules. -/
theorem contextFindModules_cases {sys : FileCalls} {ctx ctx' : A6oScanContext}
    {path : Option CString} {conf conf' : A6oScanConf}
    {report report' : Option A6oReport}
    (h : contextFindModules sys ctx path conf report = .ok (ctx', conf', report')) :
    (ctx' = { ctx with status := .fileTypeNotScanned } ∧
      report' = reportStatus report .unknownType) ∨
    ∃ mimeType modules, ctx' = { ctx with
        status := .mustScan
        path
        mimeType := some mimeType
        applicableModules := some modules } ∧ report' = report := by
  unfold contextFindModules at h
  split at h
  · cases h
    exact .inl ⟨rfl, rfl⟩
  · next mimeType _ =>
    obtain ⟨⟨modules, conf₁⟩, -, h⟩ := bind_eq_ok.mp h
    cases modules with
    | none => cases h; exact .inl ⟨rfl, rfl⟩
    | some modules => cases h; exact .inr ⟨mimeType, modules, rfl, rfl⟩

/-- A file is exempted as white-listed exactly when its path matches the
white list. -/
theorem a6oScanContextGet_whiteListed_iff {sys : FileCalls} {ctx ctx' : A6oScanContext}
    {fd : Int} {path : Option CString} {conf conf' : A6oScanConf}
    {report report' : Option A6oReport}
    (h : a6oScanContextGet sys ctx fd path conf report = .ok (ctx', conf', report')) :
    ctx'.status = .whiteListedDirectory ↔ pathIsWhiteListed conf path = true := by
  unfold a6oScanContextGet at h
  split at h
  · next hnone =>
    cases h
    simp [hnone.2, pathIsWhiteListed]
  · split at h
    · next hwl => cases h; simp [hwl]
    · next hwl =>
      simp only [hwl]
      split at h
      · cases h; simp
      · rcases contextFindModules_cases h with ⟨rfl, -⟩ | ⟨mimeType, modules, rfl, -⟩
        · simp
        · simp

end Armadito.Core
