import Mathlib.Data.Finset.Basic
import Armadito.Core.Counters

/-!
# Core.ScanFile

`scan_file` of `ondemand.c` as it handles its resources: the context on its
stack, which `a6o_scan_context_get` initialises in part, and the descriptor
that is opened there and closed by `a6o_scan_context_destroy`.

A field of the context is a slot that is set or not, and reading one that
is not set is an error of its own. The calls that open and close a
descriptor are logged.
-/

namespace Armadito.Core.ScanFile

open Pool EventNew Producers

/-! ## The context in memory -/

/-- A field of a structure that nobody has initialised. -/
inductive Slot (α : Type) where
  | unset
  | set (value : α)

/-- Why `scan_file` does not come to its end: it reads or releases a field
that was not set, or a call it makes ends the process. -/
inductive ScanFault where
  | uninitialised
  | stopped (fault : Fault)
  deriving DecidableEq, Repr

/-- Memory that was not set has no value. -/
def Slot.read {α : Type} : Slot α → Except ScanFault α
  | .unset => .error .uninitialised
  | .set value => .ok value

/-- What the memory of the field holds, when it held `old` before. -/
def Slot.inMemory {α : Type} (old : α) : Slot α → α
  | .unset => old
  | .set value => value

/-- The memory of a `struct a6o_scan_context`, field by field. -/
structure ContextMemory where
  status : Slot A6oScanContextStatus
  fd : Slot Int
  path : Slot (Option CString)
  mimeType : Slot (Option CString)
  applicableModules : Slot (Option (List A6oModule))

/-- The context as `scan_file` declares it. -/
def ContextMemory.declared : ContextMemory :=
  { status := .unset, fd := .unset, path := .unset, mimeType := .unset,
    applicableModules := .unset }

/-- The context with every field set. -/
def ContextMemory.filled (ctx : A6oScanContext) : ContextMemory :=
  { status := .set ctx.status
    fd := .set ctx.fd
    path := .set ctx.path
    mimeType := .set ctx.mimeType
    applicableModules := .set ctx.applicableModules }

/-- The memory behind it, when the stack held `stack` there. -/
def ContextMemory.inMemory (ctx : ContextMemory) (stack : A6oScanContext) : A6oScanContext :=
  { status := ctx.status.inMemory stack.status
    fd := ctx.fd.inMemory stack.fd
    path := ctx.path.inMemory stack.path
    mimeType := ctx.mimeType.inMemory stack.mimeType
    applicableModules := ctx.applicableModules.inMemory stack.applicableModules }

/-! ## Descriptors -/

/-- A call that opens or closes a descriptor. -/
inductive FdCall where
  | opened (fd : Int)
  | closed (fd : Int)
  deriving DecidableEq, Repr

/-- The open descriptors after the call. -/
def FdCall.apply (fds : Finset Int) : FdCall → Finset Int
  | .opened fd => insert fd fds
  | .closed fd => fds.erase fd

/-- The descriptor that is opened. -/
def FdCall.openedFd : FdCall → Option Int
  | .opened fd => some fd
  | .closed _ => none

/-- The descriptor that is closed. -/
def FdCall.closedFd : FdCall → Option Int
  | .opened _ => none
  | .closed fd => some fd

/-! ## The functions of `scanctx.c` -/

/-- What `a6o_scan_context_get` leaves behind. -/
structure Got where
  ctx : ContextMemory
  conf : A6oScanConf
  report : Option A6oReport
  calls : List FdCall

/-- `ctx` is set, the file is open: the second half of the function. -/
def contextFindModules (sys : FileCalls) (ctx : ContextMemory) (fd : Int)
    (path : Option CString) (conf : A6oScanConf) (report : Option A6oReport)
    (calls : List FdCall) : Except Fault Got :=
  match sys.osMimeTypeGuessFd fd with
  | none =>
    .ok ⟨{ ctx with status := .set .fileTypeNotScanned }, conf,
      reportStatus report .unknownType, calls⟩
  | some mimeType => do
    let found ← a6oScanConfGetApplicableModules conf mimeType
    match found.1 with
    | none =>
      return ⟨{ ctx with status := .set .fileTypeNotScanned }, found.2,
        reportStatus report .unknownType, calls⟩
    | some modules =>
      return ⟨{ ctx with
          status := .set .mustScan
          path := .set path
          mimeType := .set (some mimeType)
          applicableModules := .set (some modules) }, found.2, report, calls⟩

/-- `a6o_scan_context_get`. -/
def a6oScanContextGet (sys : FileCalls) (fd : Int) (path : Option CString)
    (conf : A6oScanConf) (report : Option A6oReport) : Except Fault Got :=
  if fd < 0 ∧ path = none then
    .ok ⟨{ ContextMemory.declared with status := .set .fileOpenError }, conf,
      reportStatus report .ierror, []⟩
  else
    let ctx := ContextMemory.filled (contextInit fd)
    if pathIsWhiteListed conf path then
      .ok ⟨{ ctx with status := .set .whiteListedDirectory }, conf,
        reportStatus report .whiteListed, []⟩
    else if fd < 0 then
      let opened := sys.osOpen (path.getD [])
      let ctx := { ctx with fd := .set opened }
      if opened < 0 then
        .ok ⟨{ ctx with status := .set .fileOpenError }, conf,
          reportStatus report .ierror, []⟩
      else contextFindModules sys ctx opened path conf report [.opened opened]
    else contextFindModules sys ctx fd path conf report []

/-- A call that may end the process. -/
def stops {α : Type} (x : Except Fault α) : Except ScanFault α :=
  x.mapError .stopped

/-- `a6o_scan_context_scan`. -/
def a6oScanContextScan (seekOk : Nat → Bool) (ctx : ContextMemory) (report : A6oReport) :
    Except ScanFault ScanRun := do
  let applicableModules ← ctx.applicableModules.read
  let mimeType ← ctx.mimeType.read
  let fd ← ctx.fd.read
  let path ← ctx.path.read
  let status ← ctx.status.read
  stops (Core.a6oScanContextScan seekOk ⟨status, fd, path, mimeType, applicableModules⟩ report)

/-- The two strings of the context are freed when they are not NULL. -/
def a6oScanContextDestroy (ctx : ContextMemory) : Except ScanFault (List FdCall) := do
  let fd ← ctx.fd.read
  let _path ← ctx.path.read
  let _mimeType ← ctx.mimeType.read
  return if fd < 0 then [] else [.closed fd]

/-! ## `scan_file` -/

/-- `update_counters`. -/
def updateCounters (o : A6oOnDemand) (report : A6oReport) : A6oOnDemand :=
  countStatus { o with scannedCount := o.scannedCount + 1 } report.status

/-- The progress event goes out before its time and value are stored. -/
def updateProgress (env : Env) (o : A6oOnDemand) (report : A6oReport) :
    Except Fault (A6oOnDemand × List EventNew.A6oEvent) :=
  match Producers.updateProgress o report env.now with
  | none => .ok (o, [])
  | some ev => do
    let fired ← fire env ev
    return ({ o with lastProgressTime := env.now, lastProgressValue := progressValue o }, fired)

/-- What a call of `scan_file` leaves behind. -/
structure Scanned where
  onDemand : A6oOnDemand
  conf : A6oScanConf
  fired : List EventNew.A6oEvent
  calls : List FdCall

/-- `scan_file`. -/
def scanFile (env : Env) (o : A6oOnDemand) (conf : A6oScanConf) (path : Option CString) :
    Except ScanFault Scanned := do
  let init := a6oReportInit path
  let got ← stops (a6oScanContextGet env.sys (-1) path conf (some init))
  let contextStatus ← got.ctx.status.read
  let report := got.report.getD init
  let report ← if contextStatus = .mustScan then do
      let run ← a6oScanContextScan env.seekOk got.ctx report
      pure (run.report.getD report)
    else pure report
  let detected ← stops (fireDetected env o report)
  let (o, progress) ← stops (updateProgress env (updateCounters o report) report)
  let closed ← a6oScanContextDestroy got.ctx
  return ⟨o, got.conf, detected ++ progress, got.calls ++ closed⟩

/-! ## The memory and the context -/

theorem contextFindModules_inMemory (sys : FileCalls) (ctx : A6oScanContext)
    (stack : A6oScanContext) (path : Option CString) (conf : A6oScanConf)
    (report : Option A6oReport) (calls : List FdCall) :
    (contextFindModules sys (.filled ctx) ctx.fd path conf report calls).map
        (fun got => (got.ctx.inMemory stack, got.conf, got.report))
      = Core.contextFindModules sys ctx path conf report := by
  rw [contextFindModules, Core.contextFindModules]
  cases sys.osMimeTypeGuessFd ctx.fd with
  | none => rfl
  | some mimeType =>
    cases hfound : a6oScanConfGetApplicableModules conf mimeType with
    | error f => simp [hfound, bind, Except.bind, Except.map]
    | ok found =>
      obtain ⟨modules, conf'⟩ := found
      cases modules with
      | none => simp only [hfound]; rfl
      | some modules => simp only [hfound]; rfl

/-- The slots are the context that `Core.ScanCtx` fills in the memory of
its caller. -/
theorem a6oScanContextGet_inMemory (sys : FileCalls) (stack : A6oScanContext) (fd : Int)
    (path : Option CString) (conf : A6oScanConf) (report : Option A6oReport) :
    (a6oScanContextGet sys fd path conf report).map
        (fun got => (got.ctx.inMemory stack, got.conf, got.report))
      = Core.a6oScanContextGet sys stack fd path conf report := by
  rw [a6oScanContextGet, Core.a6oScanContextGet]
  split
  · rfl
  · dsimp only
    split
    · rfl
    · rw [contextFd]
      split
      · split
        · rfl
        · exact contextFindModules_inMemory sys (contextInit (sys.osOpen (path.getD []))) stack
            path conf report _
      · exact contextFindModules_inMemory sys (contextInit fd) stack path conf report _

/-! ## What a context owns -/

theorem contextFindModules_filled {sys : FileCalls} {ctx : A6oScanContext}
    {path : Option CString} {conf : A6oScanConf} {report : Option A6oReport}
    {calls : List FdCall} {got : Got}
    (h : contextFindModules sys (.filled ctx) ctx.fd path conf report calls = .ok got) :
    ∃ ctx', got.ctx = .filled ctx' ∧ ctx'.fd = ctx.fd ∧ got.calls = calls := by
  rw [contextFindModules] at h
  split at h
  · cases h
    exact ⟨{ ctx with status := .fileTypeNotScanned }, rfl, rfl, rfl⟩
  · next mimeType _ =>
    obtain ⟨⟨modules, conf'⟩, -, h⟩ := bind_eq_ok.mp h
    cases modules with
    | none =>
      cases h
      exact ⟨{ ctx with status := .fileTypeNotScanned }, rfl, rfl, rfl⟩
    | some modules =>
      cases h
      exact ⟨{ ctx with
        status := .mustScan
        path
        mimeType := some mimeType
        applicableModules := some modules }, rfl, rfl, rfl⟩

/-- For a file with a path every field is set, and the context owns the
descriptor that was opened, if any. -/
theorem a6oScanContextGet_owns {sys : FileCalls} {path : CString} {conf : A6oScanConf}
    {report : Option A6oReport} {got : Got}
    (h : a6oScanContextGet sys (-1) (some path) conf report = .ok got) :
    ∃ ctx, got.ctx = .filled ctx ∧
      ((ctx.fd < 0 ∧ got.calls = []) ∨
        (¬ ctx.fd < 0 ∧ ctx.fd = sys.osOpen path ∧ got.calls = [.opened ctx.fd])) := by
  rw [a6oScanContextGet, if_neg (by simp)] at h
  dsimp only at h
  split at h
  · cases h
    exact ⟨{ contextInit (-1) with status := .whiteListedDirectory }, rfl, .inl ⟨by decide, rfl⟩⟩
  · rw [if_pos (by decide)] at h
    split at h
    · next hopen =>
      cases h
      exact ⟨{ contextInit (sys.osOpen path) with status := .fileOpenError }, rfl,
        .inl ⟨hopen, rfl⟩⟩
    · next hopen =>
      have h : contextFindModules sys (.filled (contextInit (sys.osOpen path)))
          (contextInit (sys.osOpen path)).fd (some path) conf report
          [.opened (sys.osOpen path)] = .ok got := h
      obtain ⟨ctx, hctx, hfd, hcalls⟩ := contextFindModules_filled h
      rw [contextInit] at hfd
      exact ⟨ctx, hctx, .inr ⟨hfd ▸ hopen, hfd, hfd ▸ hcalls⟩⟩

theorem a6oScanContextScan_filled (seekOk : Nat → Bool) (ctx : A6oScanContext)
    (report : A6oReport) :
    a6oScanContextScan seekOk (.filled ctx) report
      = stops (Core.a6oScanContextScan seekOk ctx report) := rfl

theorem a6oScanContextDestroy_filled (ctx : A6oScanContext) :
    a6oScanContextDestroy (.filled ctx) = .ok (if ctx.fd < 0 then [] else [.closed ctx.fd]) :=
  rfl

/-! ## Reading only what is set -/

/-- No field is read or released that was not set, and a result satisfies
`P`. -/
def Ends {α : Type} (P : α → Prop) (x : Except ScanFault α) : Prop :=
  x ≠ .error .uninitialised ∧ ∀ a, x = .ok a → P a

theorem Ends.pure {α : Type} {P : α → Prop} {a : α} (h : P a) : Ends P (.ok a) :=
  ⟨nofun, fun _ ha => Except.ok.inj ha ▸ h⟩

theorem Ends.stops {α : Type} {P : α → Prop} {x : Except Fault α}
    (h : ∀ a, x = .ok a → P a) : Ends P (stops x) := by
  cases x with
  | error f => exact ⟨nofun, nofun⟩
  | ok a => exact .pure (h a rfl)

theorem Ends.bind {α β : Type} {Q : α → Prop} {P : β → Prop} {x : Except ScanFault α}
    {f : α → Except ScanFault β} (hx : Ends Q x) (hf : ∀ a, Q a → Ends P (f a)) :
    Ends P (x >>= f) := by
  obtain ⟨hne, hok⟩ := hx
  cases x with
  | error e => exact ⟨fun h => hne (by simpa [Bind.bind, Except.bind] using h), nofun⟩
  | ok a => exact hf a (hok a rfl)

/-! ## Resources -/

/-- `open` gives a number that no open descriptor has, or fails. -/
def OpensFresh (sys : FileCalls) (fds : Finset Int) : Prop :=
  ∀ path, sys.osOpen path < 0 ∨ sys.osOpen path ∉ fds

/-- The descriptors opened are those closed, each once, and the open
descriptors are those from before. -/
structure FdNeutral (fds : Finset Int) (calls : List FdCall) : Prop where
  closed : calls.filterMap FdCall.closedFd = calls.filterMap FdCall.openedFd
  nodup : (calls.filterMap FdCall.openedFd).Nodup
  fds : calls.foldl FdCall.apply fds = fds

/-- Only fields that were set are read and released, and a call that
returns leaves the descriptors as they were. -/
def ResourceNeutral (fds : Finset Int) (r : Except ScanFault Scanned) : Prop :=
  Ends (fun scanned => FdNeutral fds scanned.calls) r

theorem fdNeutral_nil (fds : Finset Int) : FdNeutral fds [] :=
  ⟨rfl, .nil, rfl⟩

theorem fdNeutral_openClose {fds : Finset Int} {fd : Int} (h : fd ∉ fds) :
    FdNeutral fds [.opened fd, .closed fd] :=
  ⟨rfl, List.nodup_singleton fd, Finset.erase_insert h⟩

/-- Without a path only the status of the context is set. -/
theorem scanFile_none (env : Env) (o : A6oOnDemand) (conf : A6oScanConf) :
    scanFile env o conf none = .error .uninitialised := by
  have hprogress : ∀ o : A6oOnDemand,
      updateProgress env o (a6oReportChange (a6oReportInit none) .ierror none none)
        = .ok (o, []) := by
    intro o
    simp [updateProgress, Producers.updateProgress, mustSendProgressEvent, a6oReportInit]
  change (stops (updateProgress env _
    (a6oReportChange (a6oReportInit none) .ierror none none)) >>= _) = _
  rw [hprogress]
  rfl

/-- With a path everything is set, and the one descriptor is closed. -/
theorem scanFile_some {env : Env} {fds : Finset Int} (hopen : OpensFresh env.sys fds)
    (o : A6oOnDemand) (conf : A6oScanConf) (path : CString) :
    ResourceNeutral fds (scanFile env o conf (some path)) := by
  refine .bind (.stops fun got => a6oScanContextGet_owns) ?_
  rintro got ⟨ctx, hctx, howns⟩
  dsimp only
  rw [hctx]
  refine .bind (@Ends.pure _ (· = ctx.status) _ rfl) ?_
  rintro _ rfl
  have hrest : ∀ report : A6oReport, Ends (fun scanned : Scanned => FdNeutral fds scanned.calls)
      (do
        let detected ← stops (fireDetected env o report)
        let r ← stops (updateProgress env (updateCounters o report) report)
        let closed ← a6oScanContextDestroy (.filled ctx)
        return ⟨r.1, got.conf, detected ++ r.2, got.calls ++ closed⟩) := by
    intro report
    refine .bind (.stops fun _ _ => trivial) fun detected _ => ?_
    refine .bind (.stops fun _ _ => trivial) fun r _ => ?_
    rw [a6oScanContextDestroy_filled]
    refine .pure ?_
    rcases howns with ⟨hfd, hcalls⟩ | ⟨hfd, hopened, hcalls⟩
    · rw [hcalls, if_pos hfd]
      exact fdNeutral_nil fds
    · have hfresh := (hopen path).resolve_left (hopened ▸ hfd)
      rw [hcalls, if_neg hfd, hopened]
      exact fdNeutral_openClose hfresh
  split
  · rw [a6oScanContextScan_filled]
    exact .bind (.stops fun _ _ => trivial) fun run _ => hrest _
  · exact hrest _

/-- **`scan_file` is resource neutral if and only if it has a path.** For
every white list, whatever `open`, the MIME type detection, the seeks and
the modules answer. -/
theorem scanFile_resourceNeutral_iff (env : Env) (fds : Finset Int)
    (hopen : OpensFresh env.sys fds) (o : A6oOnDemand) (conf : A6oScanConf)
    (path : Option CString) :
    ResourceNeutral fds (scanFile env o conf path) ↔ path ≠ none := by
  cases path with
  | none =>
    rw [scanFile_none]
    exact ⟨fun h => absurd rfl h.1, fun h => absurd rfl h⟩
  | some path => exact ⟨fun _ => nofun, fun _ => scanFile_some hopen o conf path⟩

/-- A file whose path could not be resolved: the fields of the context that
are released were never set. -/
theorem scanFile_none_uninitialised :
    scanFile untypedFile recursiveScan poolConf none = .error .uninitialised ∧
      ¬ ResourceNeutral {0, 1, 2} (scanFile untypedFile recursiveScan poolConf none) :=
  ⟨rfl, fun h => h.1 rfl⟩

theorem scanFile_untyped_neutral :
    ResourceNeutral {0, 1, 2}
      (scanFile untypedFile recursiveScan poolConf (some "/a".toList)) := by
  have hopen : OpensFresh untypedFile.sys {0, 1, 2} := by
    intro path
    show (3 : Int) < 0 ∨ (3 : Int) ∉ ({0, 1, 2} : Finset Int)
    decide
  exact (scanFile_resourceNeutral_iff untypedFile {0, 1, 2} hopen recursiveScan
    poolConf (some "/a".toList)).mpr (by simp)

end Armadito.Core.ScanFile
