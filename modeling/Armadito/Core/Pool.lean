import Armadito.Core.Producers
import Armadito.Core.ScanCtx
import Armadito.Lib.Run
import Armadito.Lib.Tally

/-!
# Core.Pool

`ondemand.c`: the scans of a run, one after the other or in the thread
pool, and the counters they share.

The scan itself is one step of its thread. Of what the threads share it
touches the cache of the MIME types only, which has no lock: two threads in
the cache at once, one of them to insert, are a step of their own. The rest
of `scan_file` goes in atomic steps: two increments, then the reads of the
shared fields one by one. The counters are C `int`s and wrap; the events
carry them as `size_t`.
-/

namespace Armadito.Core.Pool

open EventNew Producers

/-! ## One scan -/

/-- What one step of a thread meets: the answers of the system, the memory
the context is laid out in, the two clocks. -/
structure Env where
  sys : FileCalls
  seekOk : Nat → Bool
  stack : A6oScanContext
  now : Int
  time : Int64

/-- The local variables of `scan_file`. -/
structure Scan where
  path : Option CString
  fileContext : A6oScanContext
  report : A6oReport

/-- `scan_file` up to the detection event. -/
def scanFile (env : Env) (conf : A6oScanConf) (path : Option CString) :
    Except Fault (Scan × A6oScanConf) := do
  let init := a6oReportInit path
  let (ctx, conf, report) ← a6oScanContextGet env.sys env.stack (-1) path conf (some init)
  let report := report.getD init
  if ctx.status = .mustScan then
    let run ← a6oScanContextScan env.seekOk ctx report
    return (⟨path, ctx, run.report.getD report⟩, conf)
  else
    return (⟨path, ctx, report⟩, conf)

/-- The MIME type that `scan_file` looks up, if it gets that far. -/
def lookUpOf (env : Env) (conf : A6oScanConf) : Option CString → Option CString
  | none => none
  | some path =>
    if a6oScanConfIsWhiteListed conf path then none
    else if env.sys.osOpen path < 0 then none
    else env.sys.osMimeTypeGuessFd (env.sys.osOpen path)

/-- The look-up does not find the type, and inserts it. -/
def inserts (conf : A6oScanConf) (mimeType : CString) : Bool :=
  (conf.mimeTypeCache.lookup mimeType).isNone
    && (a6oScanConfGetApplicableModules conf mimeType).isOk

/-- `a6o_scan_context_destroy`. The context of a file without a path has
not been filled; a pointer the stack held there is freed all the same. -/
def a6oScanContextDestroy (scan : Scan) : Except Fault Unit :=
  if scan.path = none ∧
      (scan.fileContext.path ≠ none ∨ scan.fileContext.mimeType ≠ none) then
    .error .useAfterFree
  else .ok ()

/-- `a6o_event_new` and `a6o_event_source_fire_event`. -/
def fire (env : Env) (ev : A6oEventUnion) : Except Fault (List EventNew.A6oEvent) := do
  let e ← a6oEventNew env.time ev
  return [e]

/-- The detection event of `scan_file`, if it fires one. -/
def detection (o : A6oOnDemand) (report : A6oReport) : Option A6oEventUnion :=
  if mustFireDetection report.status report then
    some (fireDetectionEvent o report)
  else none

/-- The detection event of a report, where it has one. -/
def fireDetected (env : Env) (o : A6oOnDemand) (report : A6oReport) :
    Except Fault (List EventNew.A6oEvent) :=
  match detection o report with
  | some ev => fire env ev
  | none => .ok []

/-- The `switch` of `update_counters`. -/
def countStatus (o : A6oOnDemand) (status : A6oFileStatus) : A6oOnDemand :=
  match status with
  | .suspicious => { o with suspiciousCount := o.suspiciousCount + 1 }
  | .malware => { o with malwareCount := o.malwareCount + 1 }
  | _ => o

/-! ## The steps of a thread -/

/-- How far a thread has come in `scan_file`, with what it has read. -/
inductive Phase where
  | detected
  | counted
  | statusCounted
  | measured (progress : Int)
  | mustSend (progress now : Int)
  | readMalware (progress now : Int) (malware : Int32)
  | readSuspicious (progress now : Int) (malware suspicious : Int32)
  | sent (progress now : Int)
  | timeStored (progress : Int)
  | progressUpdated
  deriving DecidableEq, Repr

/-- A file that was handed over. -/
inductive Task where
  | queued (path : Option CString)
  | running (scan : Scan) (phase : Phase)
  | done (scan : Scan)

/-- What a step of a thread changes. -/
structure Effect where
  onDemand : A6oOnDemand
  conf : A6oScanConf
  task : Task
  fired : List EventNew.A6oEvent

/-- One atomic step of `scan_file` behind the scan. -/
def advance (env : Env) (o : A6oOnDemand) (conf : A6oScanConf) (scan : Scan) :
    Phase → Except Fault Effect
  | .detected =>
    .ok ⟨{ o with scannedCount := o.scannedCount + 1 }, conf, .running scan .counted, []⟩
  | .counted =>
    .ok ⟨countStatus o scan.report.status, conf, .running scan .statusCounted, []⟩
  | .statusCounted =>
    if o.progressPeriod = 0 ∨ o.toScanCount = 0 then
      .ok ⟨o, conf, .running scan .progressUpdated, []⟩
    else
      .ok ⟨o, conf, .running scan (.measured (progressValue o)), []⟩
  | .measured progress =>
    if mustSendProgressEvent o scan.report progress env.now then
      .ok ⟨o, conf, .running scan (.mustSend progress env.now), []⟩
    else
      .ok ⟨o, conf, .running scan .progressUpdated, []⟩
  | .mustSend progress now =>
    .ok ⟨o, conf, .running scan (.readMalware progress now o.malwareCount), []⟩
  | .readMalware progress now malware =>
    .ok ⟨o, conf,
      .running scan (.readSuspicious progress now malware o.suspiciousCount), []⟩
  | .readSuspicious progress now malware suspicious => do
    let fired ←
      fire env (progressEvent o scan.report progress malware suspicious o.scannedCount)
    return ⟨o, conf, .running scan (.sent progress now), fired⟩
  | .sent progress now =>
    .ok ⟨{ o with lastProgressTime := now }, conf, .running scan (.timeStored progress), []⟩
  | .timeStored progress =>
    .ok ⟨{ o with lastProgressValue := progress }, conf, .running scan .progressUpdated, []⟩
  | .progressUpdated => do
    a6oScanContextDestroy scan
    return ⟨o, conf, .done scan, []⟩

/-- The next step of the thread that has the task. -/
def taskStep (env : Env) (o : A6oOnDemand) (conf : A6oScanConf) :
    Task → Option (Except Fault Effect)
  | .queued path => some do
    let (scan, conf) ← scanFile env conf path
    let fired ← fireDetected env o scan.report
    return ⟨o, conf, .running scan .detected, fired⟩
  | .running scan phase => some (advance env o conf scan phase)
  | .done _ => none

/-! ## The run -/

/-- Why a run does not come to its end. -/
inductive Stop where
  | died (fault : Fault)
  /-- Two threads have used a table without a lock at once. What the process
  does from here on is undefined. -/
  | raced
  deriving DecidableEq, Repr

/-- `a6o_on_demand_run` between its start event and its return;
`completed` is set when the last event is out. -/
structure State where
  onDemand : A6oOnDemand
  conf : A6oScanConf
  tasks : List Task
  log : List EventNew.A6oEvent
  stopped : Option Stop
  completed : Bool

/-- `get_max_threads`. -/
def getMaxThreads : Nat := 4

/-- A thread works on the file. -/
def Task.isRunning : Task → Bool
  | .running _ _ => true
  | _ => false

/-- No thread has taken the file. -/
def Task.isQueued : Task → Bool
  | .queued _ => true
  | _ => false

/-- The file is scanned. -/
def Task.isDone : Task → Bool
  | .done _ => true
  | _ => false

/-- Without a pool the scan is a call, and the walk goes on when it has
returned. -/
def State.accepts (s : State) : HandOver → Bool
  | .poolPush _ => s.onDemand.threaded
  | .scanFile _ => !s.onDemand.threaded && s.tasks.all Task.isDone

/-- A thread takes a queued file only when the pool has a thread left. -/
def State.mayRun (s : State) (t : Task) : Bool :=
  !t.isQueued || s.tasks.countP Task.isRunning < getMaxThreads

/-- How many files are with a thread once this one is: the pool takes them
from its queue in order. -/
def State.taken (s : State) (i : Nat) : Nat :=
  (s.tasks.take (i + 1)).countP (!·.isDone) + (s.tasks.drop (i + 1)).countP Task.isRunning

/-- One thread is about to insert the MIME type of its file while another
looks up that of its own. -/
def State.mayRace (s : State) (i j : Nat) (env env' : Env) : Bool :=
  match s.tasks[i]?, s.tasks[j]? with
  | some (.queued path), some (.queued path') =>
    s.onDemand.threaded && i != j && decide (s.taken (max i j) ≤ getMaxThreads)
      && (lookUpOf env s.conf path).any (inserts s.conf)
      && (lookUpOf env' s.conf path').isSome
  | _, _ => false

/-- What can happen next in a scan. -/
inductive Label where
  | handOver (h : HandOver)
  | thread (i : Nat) (env : Env)
  | race (i j : Nat) (env env' : Env)
  /-- The thread that counts the files, or `a6o_on_demand_run` for a plain
  file, stores the result. -/
  | toScan (count : Int32)
  | complete (duration time : Int64)

/-- The state after what a thread did for a task. -/
def State.apply (s : State) (i : Nat) : Except Fault Effect → State
  | .error f => { s with stopped := some (.died f) }
  | .ok e =>
    { s with
      onDemand := e.onDemand
      conf := e.conf
      tasks := s.tasks.set i e.task
      log := s.log ++ e.fired }

/-- The next step of a thread. -/
def State.threadStep (s : State) (i : Nat) (env : Env) : Option State := do
  let t ← s.tasks[i]?
  let r ← taskStep env s.onDemand s.conf t
  if s.mayRun t then some (s.apply i r) else none

/-- No step is left when the process has stopped or the scan is completed. -/
def step (s : State) (l : Label) : Option State :=
  if s.stopped.isSome || s.completed then none
  else match l with
    | .handOver h =>
      if s.accepts h then some { s with tasks := s.tasks ++ [.queued h.path] } else none
    | .thread i env => s.threadStep i env
    | .race i j env env' =>
      if s.mayRace i j env env' then some { s with stopped := some .raced } else none
    | .toScan count =>
      if s.onDemand.toScanCount = 0 then
        some { s with onDemand := { s.onDemand with toScanCount := count } }
      else none
    | .complete duration time =>
      if s.tasks.all Task.isDone then
        some { s with
          log := s.log ++ [⟨time, fireOnDemandCompletedEvent s.onDemand duration⟩]
          completed := true }
      else none

/-- The start event is out, no file has been handed over. -/
def start (o : A6oOnDemand) (conf : A6oScanConf) (time : Int64) : State :=
  { onDemand := o
    conf
    tasks := []
    log := [⟨time, fireOnDemandStartEvent o⟩]
    stopped := none
    completed := false }

/-! ## What a step does -/

theorem mayRace_iff {s : State} {i j : Nat} {env env' : Env} :
    s.mayRace i j env env' ↔ ∃ path path', s.tasks[i]? = some (.queued path) ∧
      s.tasks[j]? = some (.queued path') ∧ s.onDemand.threaded ∧ i ≠ j ∧
      s.taken (max i j) ≤ getMaxThreads ∧
      (∃ mimeType, lookUpOf env s.conf path = some mimeType ∧ inserts s.conf mimeType) ∧
      lookUpOf env' s.conf path' ≠ none := by
  rw [State.mayRace]
  split
  · next path path' hi hj =>
    simp [hi, hj, Option.any_eq_true, Option.isSome_iff_ne_none, and_assoc]
  · next hnot =>
    simp only [Bool.false_eq_true, false_iff]
    rintro ⟨path, path', hi, hj, -⟩
    exact hnot path path' hi hj

/-- The step relation, one constructor for each way a run goes on. -/
inductive Moves (s : State) : Label → State → Prop where
  | handOver (h : HandOver) (haccepts : s.accepts h) :
    Moves s (.handOver h) { s with tasks := s.tasks ++ [.queued h.path] }
  | thread (i : Nat) (env : Env) (t : Task) (r : Except Fault Effect)
    (ht : s.tasks[i]? = some t) (hr : taskStep env s.onDemand s.conf t = some r)
    (hmay : s.mayRun t) :
    Moves s (.thread i env) (s.apply i r)
  | race (i j : Nat) (env env' : Env) (hrace : s.mayRace i j env env') :
    Moves s (.race i j env env') { s with stopped := some .raced }
  | toScan (count : Int32) (hzero : s.onDemand.toScanCount = 0) :
    Moves s (.toScan count)
      { s with onDemand := { s.onDemand with toScanCount := count } }
  | complete (duration time : Int64) (hdone : s.tasks.all Task.isDone) :
    Moves s (.complete duration time)
      { s with
        log := s.log ++ [⟨time, fireOnDemandCompletedEvent s.onDemand duration⟩]
        completed := true }

theorem step_eq_some_iff {s s' : State} {l : Label} :
    step s l = some s' ↔ s.stopped = none ∧ s.completed = false ∧ Moves s l s' := by
  by_cases hend : s.stopped.isSome || s.completed
  · have hdead : ¬ (s.stopped = none ∧ s.completed = false) := by
      rintro ⟨hf, hc⟩
      simp [hf, hc] at hend
    rw [step.eq_def, if_pos hend]
    simp only [reduceCtorEq, false_iff]
    exact fun h => hdead ⟨h.1, h.2.1⟩
  · have hlive : s.stopped = none ∧ s.completed = false := by
      simpa [Option.isSome_eq_false_iff] using hend
    rw [step.eq_def, if_neg hend, ← and_assoc, and_iff_right hlive]
    constructor
    · intro h
      cases l with
      | handOver f =>
        obtain ⟨ha, rfl⟩ : s.accepts f ∧ _ = s' := by simpa using h
        exact .handOver f ha
      | thread i env =>
        simp only [State.threadStep, Option.bind_eq_bind, Option.bind_eq_some_iff,
          Option.ite_none_right_eq_some, Option.some.injEq] at h
        obtain ⟨t, ht, r, hr, hmay, rfl⟩ := h
        exact .thread i env t r ht hr hmay
      | race i j env env' =>
        obtain ⟨hrace, rfl⟩ : s.mayRace i j env env' ∧ _ = s' := by simpa using h
        exact .race i j env env' hrace
      | toScan count =>
        obtain ⟨hz, rfl⟩ : s.onDemand.toScanCount = 0 ∧ _ = s' := by simpa using h
        exact .toScan count hz
      | complete duration time =>
        simp only [Option.ite_none_right_eq_some, Option.some.injEq] at h
        obtain ⟨hd, rfl⟩ := h
        exact .complete duration time hd
    · intro h
      cases h with
      | handOver f ha => simp [ha]
      | thread i env t r ht hr hmay => simp [State.threadStep, ht, hr, hmay]
      | race i j env env' hrace => simp [hrace]
      | toScan count hz => simp [hz]
      | complete duration time hd => simp only [hd, if_true]

end Armadito.Core.Pool
