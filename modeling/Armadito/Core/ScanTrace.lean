import Armadito.Core.Counters
import Armadito.Core.FileReport

/-!
# Core.ScanTrace

The events of a whole scan: the start event, detections and progress in any
order, and the completed event, whose totals are the numbers of detections
before it.
-/

namespace Armadito.Core.Pool

open EventNew Producers Tally

/-! ## What a scan leaves of its report -/

/-- No scan touches the path and the action of a report. -/
def SameFile (r r' : A6oReport) : Prop := r'.path = r.path ∧ r'.action = r.action

theorem SameFile.trans {a b c : A6oReport} (h : SameFile a b) (h' : SameFile b c) :
    SameFile a c :=
  ⟨h'.1.trans h.1, h'.2.trans h.2⟩

theorem a6oScanContextGet_sameFile {sys : FileCalls} {ctx ctx' : A6oScanContext} {fd : Int}
    {path : Option CString} {conf conf' : A6oScanConf} {report : A6oReport}
    {report' : Option A6oReport}
    (h : a6oScanContextGet sys ctx fd path conf (some report) = .ok (ctx', conf', report')) :
    ∃ r, report' = some r ∧ SameFile report r := by
  have hstatus : ∀ status, ∃ r, reportStatus (some report) status = some r ∧
      SameFile report r := fun _ => ⟨_, rfl, rfl, rfl⟩
  rw [a6oScanContextGet] at h
  split at h
  · cases h
    exact hstatus _
  · split at h
    · cases h
      exact hstatus _
    · split at h
      · cases h
        exact hstatus _
      · rcases contextFindModules_cases h with ⟨-, rfl⟩ | ⟨_, _, -, rfl⟩
        · exact hstatus _
        · exact ⟨report, rfl, rfl, rfl⟩

theorem scanApplyModulesFrom_sameFile {seekOk : Nat → Bool} {fd : Int} {path : Option CString}
    {mimeType : CString} {modules : List A6oModule} :
    ∀ {n : Nat} {currentStatus : A6oFileStatus} {report : A6oReport} {run : ScanRun},
      scanApplyModulesFrom seekOk fd path mimeType n currentStatus (some report) modules
        = .ok run → ∃ r, run.report = some r ∧ SameFile report r := by
  induction modules with
  | nil =>
    intro n currentStatus report run h
    cases h
    exact ⟨report, rfl, rfl, rfl⟩
  | cons mod mods ih =>
    intro n currentStatus report run h
    rw [scanApplyModulesFrom] at h
    split at h
    · exact ih h
    · split at h
      · cases h
        exact ⟨report, rfl, rfl, rfl⟩
      · split at h
        · cases h
        · next scanFun _ =>
          obtain ⟨order, -, h⟩ := bind_eq_ok.mp h
          obtain ⟨r, hr, hsame⟩ : ∃ r, (if order < 0 then
              (some report).map fun r => a6oReportChange r (scanFun fd path mimeType).1
                (some mod.name) (scanFun fd path mimeType).2
              else some report) = some r ∧ SameFile report r := by
            split
            · exact ⟨_, rfl, rfl, rfl⟩
            · exact ⟨_, rfl, rfl, rfl⟩
          simp only [hr] at h
          by_cases hend : (if order < 0 then (scanFun fd path mimeType).1 else currentStatus)
              = .whiteListed ∨ (if order < 0 then (scanFun fd path mimeType).1 else currentStatus)
              = .malware
          · rw [if_pos hend] at h
            cases h
            exact ⟨r, rfl, hsame⟩
          · rw [if_neg hend] at h
            obtain ⟨run', hrun', h⟩ := bind_eq_ok.mp h
            cases h
            obtain ⟨r', hr', hsame'⟩ := ih hrun'
            exact ⟨r', hr', hsame.trans hsame'⟩

theorem a6oScanContextScan_sameFile {seekOk : Nat → Bool} {ctx : A6oScanContext}
    {report : A6oReport} {run : ScanRun}
    (h : a6oScanContextScan seekOk ctx report = .ok run) :
    ∃ r, run.report = some r ∧ SameFile report r := by
  rw [a6oScanContextScan] at h
  split at h
  · exact scanApplyModulesFrom_sameFile h
  · cases h
    exact ⟨_, rfl, rfl, rfl⟩

theorem scanFile_sameFile {env : Env} {conf conf' : A6oScanConf} {path : Option CString}
    {scan : Scan} (h : scanFile env conf path = .ok (scan, conf')) :
    SameFile (a6oReportInit path) scan.report := by
  obtain ⟨⟨ctx, conf₁, report⟩, hget, h⟩ := bind_eq_ok.mp h
  obtain ⟨r, rfl, hsame⟩ := a6oScanContextGet_sameFile hget
  dsimp only [Option.getD_some] at h
  split at h
  · obtain ⟨run, hrun, h⟩ := bind_eq_ok.mp h
    obtain ⟨r', hr', hsame'⟩ := a6oScanContextScan_sameFile hrun
    cases h
    rw [hr']
    exact hsame.trans hsame'
  · cases h
    exact hsame

/-- A bad status is the status of a file with a path. -/
theorem scanFile_mustFire {env : Env} {conf conf' : A6oScanConf} {path : Option CString}
    {scan : Scan} (h : scanFile env conf path = .ok (scan, conf')) {status : A6oFileStatus}
    (hbad : status = .malware ∨ status = .suspicious) (hstatus : scan.report.status = status) :
    mustFireDetection scan.report.status scan.report = true := by
  cases path with
  | none =>
    rw [scanFile_none] at h
    cases h
    subst hstatus
    rcases hbad with hbad | hbad
    · cases hbad
    · cases hbad
  | some p =>
    have hpath : scan.report.path = some p := (scanFile_sameFile h).1
    rw [mustFireDetection, hpath, hstatus]
    rcases hbad with rfl | rfl
    · rfl
    · rfl

/-! ## The detections of one task -/

/-- A detection with this status. -/
def isDetected (status : A6oFileStatus) (e : EventNew.A6oEvent) : Bool :=
  match e.u with
  | .evDetection ev => ev.scanStatus = status
  | _ => false

/-- 1 once the file has been scanned with this status, and so reported. -/
def Task.detected (status : A6oFileStatus) : Task → Nat
  | .queued _ => 0
  | .running scan _ | .done scan => if scan.report.status = status then 1 else 0

/-- A detection without action, or progress. -/
def MidwayKind (id : Int) : A6oEventUnion → Prop
  | .evDetection ev =>
    ev.scanId = .ofInt id ∧ ev.scanAction = a6oActionNone ∧
      (ev.scanStatus = .malware ∨ ev.scanStatus = .suspicious)
  | .evOnDemandProgress ev => ev.scanId = .ofInt id
  | _ => False

/-- An event between the start event and the completed event. -/
structure Midway (id : Int) (e : EventNew.A6oEvent) : Prop where
  kind : MidwayKind id e.u
  strings : none ∉ e.u.strings

theorem fire_strings {env : Env} {ev : A6oEventUnion} {fired : List EventNew.A6oEvent}
    (h : fire env ev = .ok fired) : none ∉ ev.strings := by
  obtain ⟨e, he, -⟩ := bind_eq_ok.mp h
  exact (a6oEventNew_eq_ok.mp he).1

/-- What a step of a thread adds to the events. -/
structure Reports (o : A6oOnDemand) (t : Task) (e : Effect) : Prop where
  scanId : e.onDemand.scanId = o.scanId
  midway : ∀ ev ∈ e.fired, Midway o.scanId ev
  counts : ∀ status, status = .malware ∨ status = .suspicious →
    e.fired.countP (isDetected status) + t.detected status = e.task.detected status

/-- A step behind the scan reports nothing. -/
theorem reports_silent {o o' : A6oOnDemand} {conf : A6oScanConf} {scan : Scan} {phase : Phase}
    {t : Task} (hid : o'.scanId = o.scanId) (ht : ∃ phase', t = .running scan phase') :
    Reports o (.running scan phase) ⟨o', conf, t, []⟩ := by
  obtain ⟨phase', rfl⟩ := ht
  refine ⟨hid, by simp, ?_⟩
  intro status _
  simp [Task.detected]

theorem advance_reports {env : Env} {o : A6oOnDemand} {conf : A6oScanConf} {scan : Scan}
    {phase : Phase} {e : Effect} (h : advance env o conf scan phase = .ok e) :
    Reports o (.running scan phase) e := by
  cases phase with
  | counted =>
    cases h
    exact reports_silent (countStatus_scanId _ _) ⟨_, rfl⟩
  | statusCounted =>
    rw [advance] at h
    split at h <;> cases h <;> exact reports_silent rfl ⟨_, rfl⟩
  | measured progress =>
    rw [advance] at h
    split at h <;> cases h <;> exact reports_silent rfl ⟨_, rfl⟩
  | readSuspicious progress now malware suspicious =>
    obtain ⟨fired, hfired, h⟩ := bind_eq_ok.mp h
    cases h
    have hstrings := fire_strings hfired
    obtain rfl := fire_eq_ok hfired
    refine ⟨rfl, ?_, ?_⟩
    · intro ev hev
      obtain rfl := List.mem_singleton.mp hev
      exact ⟨rfl, hstrings⟩
    · intro status _
      simp [Task.detected, isDetected, progressEvent]
  | progressUpdated =>
    obtain ⟨_, -, h⟩ := bind_eq_ok.mp h
    cases h
    refine ⟨rfl, by simp, ?_⟩
    intro status _
    simp [Task.detected]
  | _ =>
    cases h
    exact reports_silent rfl ⟨_, rfl⟩

theorem taskStep_reports {env : Env} {o : A6oOnDemand} {conf : A6oScanConf} {t : Task}
    {e : Effect} (h : taskStep env o conf t = some (.ok e)) : Reports o t e := by
  cases t with
  | done scan => cases h
  | running scan phase => exact advance_reports (Option.some.inj h)
  | queued path =>
    obtain ⟨⟨scan, conf'⟩, hscan, h⟩ := bind_eq_ok.mp (Option.some.inj h)
    obtain ⟨fired, hfired, h⟩ := bind_eq_ok.mp h
    cases h
    have hmust := @scanFile_mustFire _ _ _ _ _ hscan
    have haction : scan.report.action = a6oActionNone := (scanFile_sameFile hscan).2
    rw [fireDetected, detection] at hfired
    by_cases hfire : mustFireDetection scan.report.status scan.report = true
    · simp only [hfire, if_true] at hfired
      have hstrings := fire_strings hfired
      obtain rfl := fire_eq_ok hfired
      refine ⟨rfl, ?_, ?_⟩
      · intro ev hev
        obtain rfl := List.mem_singleton.mp hev
        refine ⟨⟨rfl, haction, ?_⟩, hstrings⟩
        have hstatus := hfire
        simp only [mustFireDetection, Bool.and_eq_true, Bool.or_eq_true,
          decide_eq_true_eq] at hstatus
        exact hstatus.1
      · intro status _
        simp [Task.detected, isDetected, fireDetectionEvent, List.countP_singleton]
    · simp only [hfire, Bool.false_eq_true, if_false] at hfired
      cases hfired
      refine ⟨rfl, by simp, ?_⟩
      intro status hbad
      have hne : scan.report.status ≠ status := fun heq => hfire (hmust hbad heq)
      simp [Task.detected, hne]

/-! ## The trace of a run -/

/-- The events after the start event, less the completed event. -/
structure Found (id : Int) (found : List EventNew.A6oEvent) (s : State) : Prop where
  scanId : s.onDemand.scanId = id
  midway : ∀ e ∈ found, Midway id e
  counts : ∀ status, status = .malware ∨ status = .suspicious →
    found.countP (isDetected status) = total (Task.detected status) s.tasks

/-- The scan goes on, or its last event is out. -/
inductive Trace (first : EventNew.A6oEvent) (scanId : Int) (s : State) : Prop where
  | live (found : List EventNew.A6oEvent) (hfound : Found scanId found s)
    (hopen : s.completed = false) (hlog : s.log = first :: found)
  | completed (found : List EventNew.A6oEvent) (hfound : Found scanId found s)
    (hclosed : s.completed = true) (hdone : s.tasks.all Task.isDone) (duration time : Int64)
    (hlog : s.log
      = first :: found ++ [⟨time, fireOnDemandCompletedEvent s.onDemand duration⟩])

theorem trace_step {first : EventNew.A6oEvent} {scanId : Int} {s s' : State} {l : Label}
    (hs : Trace first scanId s) (h : step s l = some s') : Trace first scanId s' := by
  obtain ⟨-, hopen, hmove⟩ := step_eq_some_iff.mp h
  obtain ⟨found, hfound, -, hlog⟩ | ⟨_, _, hclosed, _⟩ := hs
  · cases hmove with
    | handOver f _ =>
      refine .live found ⟨hfound.scanId, hfound.midway, ?_⟩ hopen hlog
      intro status hbad
      rw [hfound.counts status hbad]
      simp [total_append, Task.detected]
    | thread i env t r ht hr _ =>
      cases r with
      | error f => exact .live found ⟨hfound.scanId, hfound.midway, hfound.counts⟩ hopen hlog
      | ok e =>
        have hreports := taskStep_reports hr
        refine .live (found ++ e.fired) ⟨?_, ?_, ?_⟩ hopen ?_
        · exact hreports.scanId.trans hfound.scanId
        · intro ev hev
          rcases List.mem_append.mp hev with hev | hev
          · exact hfound.midway ev hev
          · exact hfound.scanId ▸ hreports.midway ev hev
        · intro status hbad
          have hset := total_set_add (Task.detected status) e.task ht
          have hnew := hreports.counts status hbad
          have hold := hfound.counts status hbad
          rw [List.countP_append]
          show _ = total (Task.detected status) (s.tasks.set i e.task)
          omega
        · simp [State.apply, hlog]
    | race _ _ _ _ _ =>
      exact .live found ⟨hfound.scanId, hfound.midway, hfound.counts⟩ hopen hlog
    | toScan count _ =>
      exact .live found ⟨hfound.scanId, hfound.midway, hfound.counts⟩ hopen hlog
    | complete duration time hdone =>
      refine .completed found ⟨hfound.scanId, hfound.midway, hfound.counts⟩ rfl hdone duration
        time ?_
      simp [hlog]
  · rw [hopen] at hclosed
    cases hclosed

theorem trace_run {o : A6oOnDemand} {conf : A6oScanConf} {time : Int64}
    {labels : List Label} {s : State}
    (h : Transition.run step (start o conf time) labels = some s) :
    Trace ⟨time, fireOnDemandStartEvent o⟩ o.scanId s := by
  refine Transition.run_invariant (fun _ _ _ => trace_step) labels _ _ ?_ h
  exact .live [] ⟨rfl, by simp, fun _ _ => rfl⟩ rfl rfl

/-! ## A completed scan -/

theorem withStatus_eq_detected {t : Task} (h : t.isDone) (status : A6oFileStatus) :
    t.withStatus status = t.detected status := by
  cases t with
  | done scan => rfl
  | _ => cases h

theorem total_detected_of_done {tasks : List Task} (h : tasks.all Task.isDone)
    (status : A6oFileStatus) :
    total (Task.detected status) tasks = total (Task.withStatus status) tasks := by
  induction tasks with
  | nil => rfl
  | cons t ts ih =>
    simp only [List.all_cons, Bool.and_eq_true] at h
    rw [total_cons, total_cons, ih h.2, withStatus_eq_detected h.1]

/-- The counters of a scan are the numbers of its files and of the
detections among its events. -/
structure Counted (files : Nat) (found : List EventNew.A6oEvent) (o : A6oOnDemand) : Prop where
  scanned : o.scannedCount = .ofNat files
  malware : o.malwareCount = .ofNat (found.countP (isDetected .malware))
  suspicious : o.suspiciousCount = .ofNat (found.countP (isDetected .suspicious))

/-- **The events of a completed scan.** -/
theorem log_completed {realpath : Option (CString → Option CString)} {root : CString}
    {scanId : Int} {flags : Nat} {sendProgress : Int} {o : A6oOnDemand}
    {conf : A6oScanConf} {time : Int64} {labels : List Label} {s : State}
    (hnew : a6oOnDemandNew realpath root scanId flags sendProgress = some o)
    (hrun : Transition.run step (start o conf time) labels = some s)
    (hclosed : s.completed = true) :
    ∃ found duration ended, (∀ e ∈ found, Midway scanId e) ∧ s.onDemand.scanId = scanId ∧
      Counted (handedOver labels).length found s.onDemand ∧
      s.log = ⟨time, fireOnDemandStartEvent o⟩ :: found
        ++ [⟨ended, fireOnDemandCompletedEvent s.onDemand duration⟩] := by
  obtain ⟨root', -, rfl⟩ := Option.map_eq_some_iff.mp hnew
  have hinv : Inv s := inv_run rfl rfl rfl hrun
  have hlen : s.tasks.length = (handedOver labels).length := by
    simpa using congrArg List.length (tasks_path hrun)
  obtain ⟨_, _, hopen, _⟩ | ⟨found, hfound, -, hdone, duration, ended, hlog⟩ := trace_run hrun
  · rw [hopen] at hclosed
    cases hclosed
  · refine ⟨found, duration, ended, hfound.midway, hfound.scanId, ⟨?_, ?_, ?_⟩, hlog⟩
    · rw [hinv.scanned, total_scanned_of_done hdone, hlen]
    · rw [hinv.malware, hfound.counts _ (.inl rfl), total_detected_of_done hdone]
    · rw [hinv.suspicious, hfound.counts _ (.inr rfl), total_detected_of_done hdone]

end Armadito.Core.Pool
