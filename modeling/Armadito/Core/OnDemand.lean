import Armadito.Os.Dir

/-!
# Core.OnDemand

`ondemand.c`: an on-demand scan, its creation, and the callback it gives
to the directory walk.

`scan_entry` hands a plain file over in one of two ways: it calls
`scan_file`, or it pushes the path on the thread pool. The model logs the
hand-overs; `process_error` has an empty body in the source and does not
appear.
-/

namespace Armadito.Core

open Armadito.Os

/-! ## The scan object -/

/-- `A6O_SCAN_THREADED` and `A6O_SCAN_RECURSE` of `enum a6o_scan_flags`. -/
def a6oScanThreaded : Nat := 1 <<< 0

/-- `A6O_SCAN_RECURSE`. -/
def a6oScanRecurse : Nat := 1 <<< 1

/-- `A6O_ON_DEMAND_PROGRESS_UNKNOWN`. -/
def a6oOnDemandProgressUnknown : Int := -1

/-- Milliseconds. -/
def defaultProgressPeriod : Int := 200

/-- The counters are C `int`s and wrap. -/
structure A6oOnDemand where
  rootPath : CString
  scanId : Int
  flags : Nat
  toScanCount : Int32
  scannedCount : Int32
  malwareCount : Int32
  suspiciousCount : Int32
  wasCancelled : Int
  progressPeriod : Int
  lastProgressTime : Int
  lastProgressValue : Int
  deriving DecidableEq, Repr

/-- `flags & mask`, as a condition. -/
def A6oOnDemand.hasFlag (onDemand : A6oOnDemand) (mask : Nat) : Bool :=
  onDemand.flags &&& mask != 0

/-- The files go to the thread pool. -/
def A6oOnDemand.threaded (onDemand : A6oOnDemand) : Bool :=
  onDemand.hasFlag a6oScanThreaded

/-- The root path as the scan object stores it. `realpath` is NULL when
the build does not define `HAVE_REALPATH`; the path is then copied. -/
def resolveRoot (realpath : Option (CString → Option CString)) (rootPath : CString) :
    Option CString :=
  match realpath with
  | some resolve => resolve rootPath
  | none => some rootPath

/-- NULL when `realpath` fails on the root. -/
def a6oOnDemandNew (realpath : Option (CString → Option CString)) (rootPath : CString)
    (scanId : Int) (flags : Nat) (sendProgress : Int) : Option A6oOnDemand :=
  (resolveRoot realpath rootPath).map fun root =>
    { rootPath := root
      scanId
      flags
      toScanCount := 0
      scannedCount := 0
      malwareCount := 0
      suspiciousCount := 0
      wasCancelled := 0
      progressPeriod := if sendProgress ≠ 0 then defaultProgressPeriod else 0
      lastProgressTime := 0
      lastProgressValue := a6oOnDemandProgressUnknown }

/-- Cancellation is not implemented. -/
def a6oOnDemandIsCancelled (_ : A6oOnDemand) : Int := 0

/-! ## The callback of the walk -/

/-- A file leaves the walk: through a call of `scan_file`, whose path may
be NULL, or through the queue of the thread pool. -/
inductive HandOver where
  | scanFile (path : Option CString)
  | poolPush (path : CString)
  deriving DecidableEq, Repr

/-- The path that is scanned. -/
def HandOver.path : HandOver → Option CString
  | .scanFile path => path
  | .poolPush path => some path

/-- A threaded scan skips a NULL path. -/
def handOver (onDemand : A6oOnDemand) (fullPath : Option CString) : List HandOver :=
  if onDemand.hasFlag a6oScanThreaded then
    match fullPath with
    | some path => [.poolPush path]
    | none => []
  else
    [.scanFile fullPath]

/-- `scan_entry`. -/
def scanEntry (onDemand : A6oOnDemand) : DirentCb (List HandOver) :=
  fun fullPath flags _ log =>
    if a6oOnDemandIsCancelled onDemand ≠ 0 then (2, log)
    else if flags.test .isError then (1, log)
    else if !flags.test .isPlainFile then (1, log)
    else (0, log ++ handOver onDemand fullPath)

/-- The way of handing over that goes with the mode. -/
def A6oOnDemand.fits (onDemand : A6oOnDemand) : HandOver → Bool
  | .poolPush _ => onDemand.threaded
  | .scanFile _ => !onDemand.threaded

theorem handOver_path (onDemand : A6oOnDemand) (path : CString) :
    (handOver onDemand (some path)).map HandOver.path = [some path] := by
  by_cases h : onDemand.hasFlag a6oScanThreaded <;> simp [handOver, h, HandOver.path]

/-- An entry that is not a directory is handed over when it is a plain
file; anything else leaves the log alone. -/
theorem scanEntry_leaf (onDemand : A6oOnDemand) (path : Option CString) (dType : DType)
    (log : List HandOver) :
    (scanEntry onDemand path (direntFlags dType) 0 log).2
      = if dType = .reg then log ++ handOver onDemand path else log := by
  cases dType <;>
    simp [scanEntry, a6oOnDemandIsCancelled, direntFlags]

/-- An error entry makes the callback return 1. -/
@[simp] theorem scanEntry_error (onDemand : A6oOnDemand) (path : Option CString)
    (errno : Int) (log : List HandOver) :
    scanEntry onDemand path .isError errno log = (1, log) := by
  simp [scanEntry, a6oOnDemandIsCancelled]

end Armadito.Core
