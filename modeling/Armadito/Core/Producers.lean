import Armadito.Core.EventNew
import Armadito.Core.OnDemand

/-!
# Core.Producers

The events that `ondemand.c` and `famonitor.c` fire, and when. The two fill
the same structure for a detection, but the on-access monitor has no scan id
to put into it and leaves the field unset.
-/

namespace Armadito.Core.Producers

open EventNew

/-- A detection is fired for a bad status of a file with a path. -/
def mustFireDetection (status : A6oFileStatus) (report : A6oReport) : Bool :=
  (status = .malware || status = .suspicious) && report.path.isSome

/-! ## On-demand scans -/

/-- Everything but the counters and the progress of a scan is set once, by
`a6o_on_demand_new`. -/
def SameScan (a b : A6oOnDemand) : Prop :=
  a.rootPath = b.rootPath ∧ a.scanId = b.scanId ∧ a.flags = b.flags ∧
    a.progressPeriod = b.progressPeriod

instance (a b : A6oOnDemand) : Decidable (SameScan a b) :=
  inferInstanceAs (Decidable (_ ∧ _ ∧ _ ∧ _))

/-- `must_send_progress_event`. -/
def mustSendProgressEvent (onDemand : A6oOnDemand) (report : A6oReport) (progress : Int)
    (now : Int) : Bool :=
  if report.path = none then false
  else if onDemand.lastProgressValue = a6oOnDemandProgressUnknown then true
  else if onDemand.lastProgressValue ≠ progress then true
  else if onDemand.lastProgressTime = 0 then true
  else if now - onDemand.lastProgressTime ≥ onDemand.progressPeriod then true
  else false

/-- The conversion of an `int` to a `size_t`. -/
def countToSize (n : Int32) : UInt64 := .ofInt n.toInt

/-- The event, with the counters that were read for it. -/
def progressEvent (onDemand : A6oOnDemand) (report : A6oReport) (progress : Int)
    (malware suspicious scanned : Int32) : A6oEventUnion :=
  .evOnDemandProgress
    { path := report.path
      scanId := .ofInt onDemand.scanId
      progress := .ofInt progress
      malwareCount := countToSize malware
      suspiciousCount := countToSize suspicious
      scannedCount := countToSize scanned }

/-- `fire_progress_event`. -/
def fireProgressEvent (onDemand : A6oOnDemand) (report : A6oReport) (progress : Int) :
    A6oEventUnion :=
  progressEvent onDemand report progress onDemand.malwareCount onDemand.suspiciousCount
    onDemand.scannedCount

/-- The conversion of a `double` to an `int`, less its fraction already.
C leaves open what a value out of range becomes; the conversion instruction
of x86 makes it `INT_MIN`. -/
def castToInt (n : Int) : Int :=
  if -2 ^ 31 ≤ n ∧ n < 2 ^ 31 then n else -2 ^ 31

/-- `(100.0 * scanned_count) / to_scan_count`, less its fraction. -/
def progressQuotient (onDemand : A6oOnDemand) : Int :=
  (100 * onDemand.scannedCount.toInt).tdiv onDemand.toScanCount.toInt

/-- In percent. The cast comes before the cap. -/
def progressValue (onDemand : A6oOnDemand) : Int :=
  min (castToInt (progressQuotient onDemand)) 100

/-- The event `update_progress` fires, if any. -/
def updateProgress (onDemand : A6oOnDemand) (report : A6oReport) (now : Int) :
    Option A6oEventUnion :=
  if onDemand.progressPeriod = 0 then none
  else if onDemand.toScanCount = 0 then none
  else if mustSendProgressEvent onDemand report (progressValue onDemand) now then
    some (fireProgressEvent onDemand report (progressValue onDemand))
  else none

/-- `fire_detection_event`. -/
def fireDetectionEvent (onDemand : A6oOnDemand) (report : A6oReport) : A6oEventUnion :=
  .evDetection
    { context := .onDemand
      scanId := .ofInt onDemand.scanId
      path := report.path
      scanStatus := report.status
      scanAction := report.action
      moduleName := report.moduleName
      moduleReport := report.moduleReport }

/-- `fire_on_demand_start_event`. -/
def fireOnDemandStartEvent (onDemand : A6oOnDemand) : A6oEventUnion :=
  .evOnDemandStart
    { rootPath := some onDemand.rootPath
      scanId := .ofInt onDemand.scanId }

/-- `fire_on_demand_completed_event`. -/
def fireOnDemandCompletedEvent (onDemand : A6oOnDemand) (duration : Int64) : A6oEventUnion :=
  .evOnDemandCompleted
    { scanId := .ofInt onDemand.scanId
      cancelled := .ofInt onDemand.wasCancelled
      totalMalwareCount := countToSize onDemand.malwareCount
      totalSuspiciousCount := countToSize onDemand.suspiciousCount
      totalScannedCount := countToSize onDemand.scannedCount
      duration }

/-- The places of `a6o_on_demand_run` and `scan_file` that fire an event. -/
inductive OnDemandFire where
  | start
  | detection (report : A6oReport)
  | progress (report : A6oReport) (now : Int)
  | completed (duration : Int64)

/-- The structure that is filled there, if one is. -/
def onDemandEvent (onDemand : A6oOnDemand) : OnDemandFire → Option A6oEventUnion
  | .start => some (fireOnDemandStartEvent onDemand)
  | .detection report =>
    if mustFireDetection report.status report then some (fireDetectionEvent onDemand report)
    else none
  | .progress report now => updateProgress onDemand report now
  | .completed duration => some (fireOnDemandCompletedEvent onDemand duration)

/-- **Every event of a scan carries its id.** -/
theorem onDemandEvent_scanId {onDemand : A6oOnDemand} {fire : OnDemandFire}
    {ev : A6oEventUnion} (h : onDemandEvent onDemand fire = some ev) :
    ev.scanId = some (.ofInt onDemand.scanId) := by
  cases fire with
  | start =>
    cases h
    rfl
  | detection report =>
    rw [onDemandEvent] at h
    split at h
    · cases h
      rfl
    · cases h
  | progress report now =>
    rw [onDemandEvent, updateProgress] at h
    split at h
    · cases h
    · split at h
      · cases h
      · split at h
        · cases h
          rfl
        · cases h
  | completed duration =>
    cases h
    rfl

/-! ## The on-access monitor -/

/-- `fire_detection_event` of `famonitor.c`; `unset` is what the field
`scan_id` of the structure happens to hold. -/
def fireRealTimeDetectionEvent (unset : Int64) (report : A6oReport) : A6oEventUnion :=
  .evDetection
    { context := .realTime
      scanId := unset
      path := report.path
      scanStatus := report.status
      scanAction := report.action
      moduleName := report.moduleName
      moduleReport := report.moduleReport }

/-- The end of `scan_file_thread_fun`. -/
def onAccessEvent (unset : Int64) (status : A6oFileStatus) (report : A6oReport) :
    Option A6oEventUnion :=
  if mustFireDetection status report then some (fireRealTimeDetectionEvent unset report)
  else none

theorem onAccessEvent_eq_some {unset : Int64} {status : A6oFileStatus} {report : A6oReport}
    {ev : A6oEventUnion} (h : onAccessEvent unset status report = some ev) :
    ev = fireRealTimeDetectionEvent unset report := by
  rw [onAccessEvent] at h
  split at h
  · exact (Option.some.inj h).symm
  · cases h

end Armadito.Core.Producers
