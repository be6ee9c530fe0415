import Armadito.Core.Event
import Armadito.Core.Report

/-!
# Core.EventNew

The structures of `event.h` with all their fields, and `a6o_event_new`, which
copies one of them into a new event. `time_t` has 64 bits, `int` 32 and
`size_t` 64.
-/

namespace Armadito.Core.EventNew

/-! ## The structures -/

/-- `enum a6o_detection_context`. -/
inductive A6oDetectionContext where
  | realTime
  | onDemand
  deriving DecidableEq, Repr

/-- Its integer. -/
def A6oDetectionContext.value : A6oDetectionContext → Int
  | .realTime => 0
  | .onDemand => 1

/-- `enum a6o_quarantine_action`. -/
inductive A6oQuarantineAction where
  | enter
  | exit
  deriving DecidableEq, Repr

/-- Its integer. -/
def A6oQuarantineAction.value : A6oQuarantineAction → Int
  | .enter => 0
  | .exit => 1

/-- `struct a6o_detection_event`. -/
structure A6oDetectionEvent where
  context : A6oDetectionContext
  scanId : Int64
  path : Option CString
  scanStatus : A6oFileStatus
  scanAction : A6oAction
  moduleName : Option CString
  moduleReport : Option CString
  deriving DecidableEq

/-- `struct a6o_on_demand_start_event`. -/
structure A6oOnDemandStartEvent where
  scanId : Int64
  rootPath : Option CString
  deriving DecidableEq

/-- `struct a6o_on_demand_completed_event`. -/
structure A6oOnDemandCompletedEvent where
  scanId : Int64
  cancelled : Int32
  totalMalwareCount : UInt64
  totalSuspiciousCount : UInt64
  totalScannedCount : UInt64
  duration : Int64
  deriving DecidableEq

/-- `struct a6o_on_demand_progress_event`. -/
structure A6oOnDemandProgressEvent where
  scanId : Int64
  progress : Int32
  path : Option CString
  malwareCount : UInt64
  suspiciousCount : UInt64
  scannedCount : UInt64
  deriving DecidableEq

/-- `struct a6o_quarantine_event`. -/
structure A6oQuarantineEvent where
  quarantineAction : A6oQuarantineAction
  origPath : Option CString
  quarantinePath : Option CString
  deriving DecidableEq

/-- `struct a6o_real_time_prot_event`. -/
structure A6oRealTimeProtEvent where
  rtProtNewState : Int32
  deriving DecidableEq

/-- `union a6o_event_union`, less the member for updates: `a6o_event_new`
stores nothing in it. -/
inductive A6oEventUnion where
  | evDetection (ev : A6oDetectionEvent)
  | evOnDemandStart (ev : A6oOnDemandStartEvent)
  | evOnDemandCompleted (ev : A6oOnDemandCompletedEvent)
  | evOnDemandProgress (ev : A6oOnDemandProgressEvent)
  | evQuarantine (ev : A6oQuarantineEvent)
  | evRealTimeProt (ev : A6oRealTimeProtEvent)
  deriving DecidableEq

/-- The `type` that goes with the member. -/
def A6oEventUnion.type : A6oEventUnion → A6oEventType
  | .evDetection _ => .detection
  | .evOnDemandStart _ => .onDemandStart
  | .evOnDemandCompleted _ => .onDemandCompleted
  | .evOnDemandProgress _ => .onDemandProgress
  | .evQuarantine _ => .quarantine
  | .evRealTimeProt _ => .realTimeProt

/-- `struct a6o_event`; the type is that of the member. -/
structure A6oEvent where
  timestamp : Int64
  u : A6oEventUnion
  deriving DecidableEq

/-- The type of the member. -/
def A6oEvent.type (e : A6oEvent) : A6oEventType := e.u.type

/-! ## Copies -/

/-- `os_strdup`. -/
def osStrdup : Option CString → Except Fault (Option CString)
  | some s => .ok (some s)
  | none => .error .nullDeref

/-- `detection_event_clone`. -/
def detectionEventClone (src : A6oDetectionEvent) : Except Fault A6oDetectionEvent := do
  return { context := src.context
           scanId := src.scanId
           path := ← osStrdup src.path
           scanStatus := src.scanStatus
           scanAction := src.scanAction
           moduleName := ← osStrdup src.moduleName
           moduleReport := ← osStrdup src.moduleReport }

/-- `on_demand_start_event_clone`. -/
def onDemandStartEventClone (src : A6oOnDemandStartEvent) :
    Except Fault A6oOnDemandStartEvent := do
  return { rootPath := ← osStrdup src.rootPath
           scanId := src.scanId }

/-- `on_demand_completed_event_clone`. -/
def onDemandCompletedEventClone (src : A6oOnDemandCompletedEvent) : A6oOnDemandCompletedEvent :=
  { scanId := src.scanId
    cancelled := src.cancelled
    totalMalwareCount := src.totalMalwareCount
    totalSuspiciousCount := src.totalSuspiciousCount
    totalScannedCount := src.totalScannedCount
    duration := src.duration }

/-- `on_demand_progress_event_clone`. -/
def onDemandProgressEventClone (src : A6oOnDemandProgressEvent) :
    Except Fault A6oOnDemandProgressEvent := do
  return { scanId := src.scanId
           progress := src.progress
           path := ← osStrdup src.path
           malwareCount := src.malwareCount
           suspiciousCount := src.suspiciousCount
           scannedCount := src.scannedCount }

/-- `quarantine_event_clone`. -/
def quarantineEventClone (src : A6oQuarantineEvent) : Except Fault A6oQuarantineEvent := do
  return { quarantineAction := src.quarantineAction
           origPath := ← osStrdup src.origPath
           quarantinePath := ← osStrdup src.quarantinePath }

/-- `real_time_prot_event_clone`. -/
def realTimeProtEventClone (src : A6oRealTimeProtEvent) : A6oRealTimeProtEvent :=
  { rtProtNewState := src.rtProtNewState }

/-- `now` is the answer of `time(NULL)`; the type is the one that goes with
the structure `ev` points to. -/
def a6oEventNew (now : Int64) (ev : A6oEventUnion) : Except Fault A6oEvent := do
  let u ← match ev with
    | .evDetection ev => do pure (A6oEventUnion.evDetection (← detectionEventClone ev))
    | .evOnDemandStart ev => do pure (.evOnDemandStart (← onDemandStartEventClone ev))
    | .evOnDemandCompleted ev => pure (.evOnDemandCompleted (onDemandCompletedEventClone ev))
    | .evOnDemandProgress ev => do pure (.evOnDemandProgress (← onDemandProgressEventClone ev))
    | .evQuarantine ev => do pure (.evQuarantine (← quarantineEventClone ev))
    | .evRealTimeProt ev => pure (.evRealTimeProt (realTimeProtEventClone ev))
  return { timestamp := now, u }

/-! ## The fields by kind -/

/-- The strings of the structure. -/
def A6oEventUnion.strings : A6oEventUnion → List (Option CString)
  | .evDetection ev => [ev.path, ev.moduleName, ev.moduleReport]
  | .evOnDemandStart ev => [ev.rootPath]
  | .evOnDemandCompleted _ => []
  | .evOnDemandProgress ev => [ev.path]
  | .evQuarantine ev => [ev.origPath, ev.quarantinePath]
  | .evRealTimeProt _ => []

/-- The counters of a member. -/
def A6oEventUnion.counters : A6oEventUnion → List UInt64
  | .evOnDemandCompleted ev =>
    [ev.totalMalwareCount, ev.totalSuspiciousCount, ev.totalScannedCount]
  | .evOnDemandProgress ev => [ev.malwareCount, ev.suspiciousCount, ev.scannedCount]
  | _ => []

/-- The `scan_id` of a member, where it has one. -/
def A6oEventUnion.scanId : A6oEventUnion → Option Int64
  | .evDetection ev => some ev.scanId
  | .evOnDemandStart ev => some ev.scanId
  | .evOnDemandCompleted ev => some ev.scanId
  | .evOnDemandProgress ev => some ev.scanId
  | .evQuarantine _ => none
  | .evRealTimeProt _ => none

/-- The `scan_action` of a member, where it has one. -/
def A6oEventUnion.scanAction : A6oEventUnion → Option A6oAction
  | .evDetection ev => some ev.scanAction
  | _ => none

/-! ## What a new event is -/

theorem osStrdup_eq_ok {s copy : Option CString} :
    osStrdup s = .ok copy ↔ s ≠ none ∧ copy = s := by
  cases s with
  | none => simp [osStrdup]
  | some s => simp [osStrdup, eq_comm]

theorem detectionEventClone_eq_ok {src dst : A6oDetectionEvent} :
    detectionEventClone src = .ok dst ↔
      (src.path ≠ none ∧ src.moduleName ≠ none ∧ src.moduleReport ≠ none) ∧ dst = src := by
  simp only [detectionEventClone, bind_eq_ok, pure_eq_ok, osStrdup_eq_ok]
  constructor
  · rintro ⟨_, ⟨hpath, rfl⟩, _, ⟨hname, rfl⟩, _, ⟨hreport, rfl⟩, rfl⟩
    exact ⟨⟨hpath, hname, hreport⟩, rfl⟩
  · rintro ⟨⟨hpath, hname, hreport⟩, rfl⟩
    exact ⟨_, ⟨hpath, rfl⟩, _, ⟨hname, rfl⟩, _, ⟨hreport, rfl⟩, rfl⟩

theorem onDemandStartEventClone_eq_ok {src dst : A6oOnDemandStartEvent} :
    onDemandStartEventClone src = .ok dst ↔ src.rootPath ≠ none ∧ dst = src := by
  simp only [onDemandStartEventClone, bind_eq_ok, pure_eq_ok, osStrdup_eq_ok]
  constructor
  · rintro ⟨_, ⟨hpath, rfl⟩, rfl⟩
    exact ⟨hpath, rfl⟩
  · rintro ⟨hpath, rfl⟩
    exact ⟨_, ⟨hpath, rfl⟩, rfl⟩

theorem onDemandProgressEventClone_eq_ok {src dst : A6oOnDemandProgressEvent} :
    onDemandProgressEventClone src = .ok dst ↔ src.path ≠ none ∧ dst = src := by
  simp only [onDemandProgressEventClone, bind_eq_ok, pure_eq_ok, osStrdup_eq_ok]
  constructor
  · rintro ⟨_, ⟨hpath, rfl⟩, rfl⟩
    exact ⟨hpath, rfl⟩
  · rintro ⟨hpath, rfl⟩
    exact ⟨_, ⟨hpath, rfl⟩, rfl⟩

theorem quarantineEventClone_eq_ok {src dst : A6oQuarantineEvent} :
    quarantineEventClone src = .ok dst ↔
      (src.origPath ≠ none ∧ src.quarantinePath ≠ none) ∧ dst = src := by
  simp only [quarantineEventClone, bind_eq_ok, pure_eq_ok, osStrdup_eq_ok]
  constructor
  · rintro ⟨_, ⟨horig, rfl⟩, _, ⟨hquarantine, rfl⟩, rfl⟩
    exact ⟨⟨horig, hquarantine⟩, rfl⟩
  · rintro ⟨⟨horig, hquarantine⟩, rfl⟩
    exact ⟨_, ⟨horig, rfl⟩, _, ⟨hquarantine, rfl⟩, rfl⟩

/-- **The new event is a copy**; there is none when a string is NULL. -/
theorem a6oEventNew_eq_ok {now : Int64} {ev : A6oEventUnion} {e : A6oEvent} :
    a6oEventNew now ev = .ok e ↔ none ∉ ev.strings ∧ e = { timestamp := now, u := ev } := by
  cases ev with
  | evDetection ev =>
    simp only [a6oEventNew, bind_eq_ok, pure_eq_ok, detectionEventClone_eq_ok]
    simp [A6oEventUnion.strings, eq_comm]
  | evOnDemandStart ev =>
    simp only [a6oEventNew, bind_eq_ok, pure_eq_ok, onDemandStartEventClone_eq_ok]
    simp [A6oEventUnion.strings, eq_comm]
  | evOnDemandCompleted ev =>
    simp only [a6oEventNew, bind_eq_ok, pure_eq_ok, onDemandCompletedEventClone]
    simp [A6oEventUnion.strings, eq_comm]
  | evOnDemandProgress ev =>
    simp only [a6oEventNew, bind_eq_ok, pure_eq_ok, onDemandProgressEventClone_eq_ok]
    simp [A6oEventUnion.strings, eq_comm]
  | evQuarantine ev =>
    simp only [a6oEventNew, bind_eq_ok, pure_eq_ok, quarantineEventClone_eq_ok]
    simp [A6oEventUnion.strings, eq_comm]
  | evRealTimeProt ev =>
    simp only [a6oEventNew, bind_eq_ok, pure_eq_ok, realTimeProtEventClone]
    simp [A6oEventUnion.strings, eq_comm]

end Armadito.Core.EventNew
