import Armadito.Core.Pool

/-!
# Core.PoolRuns

Every file handed over can be brought to its end: a thread whose scan went
well is never stuck, and the steps that are left to it get fewer.

The schedule built here finishes each file before the next is handed over.
It is a run of both modes of a scan.
-/

namespace Armadito.Core.Pool

open EventNew Producers

/-! ## The files of a run -/

/-- The files handed over, in order. -/
def handedOver (labels : List Label) : List HandOver :=
  labels.filterMap fun
    | .handOver h => some h
    | _ => none

@[simp] theorem handedOver_append (as bs : List Label) :
    handedOver (as ++ bs) = handedOver as ++ handedOver bs := by
  simp [handedOver]

@[simp] theorem handedOver_handOver (h : HandOver) (ls : List Label) :
    handedOver (.handOver h :: ls) = h :: handedOver ls := rfl

@[simp] theorem handedOver_thread (i : Nat) (env : Env) (ls : List Label) :
    handedOver (.thread i env :: ls) = handedOver ls := rfl

@[simp] theorem handedOver_race (i j : Nat) (env env' : Env) (ls : List Label) :
    handedOver (.race i j env env' :: ls) = handedOver ls := rfl

@[simp] theorem handedOver_toScan (count : Int32) (ls : List Label) :
    handedOver (.toScan count :: ls) = handedOver ls := rfl

@[simp] theorem handedOver_complete (duration time : Int64) (ls : List Label) :
    handedOver (.complete duration time :: ls) = handedOver ls := rfl

@[simp] theorem handedOver_nil : handedOver [] = [] := rfl

/-- The path that is scanned. -/
def Task.path : Task → Option CString
  | .queued path => path
  | .running scan _ | .done scan => scan.path

theorem scanFile_path {env : Env} {conf conf' : A6oScanConf} {path : Option CString}
    {scan : Scan} (h : scanFile env conf path = .ok (scan, conf')) : scan.path = path := by
  obtain ⟨⟨ctx, conf₁, report⟩, -, h⟩ := bind_eq_ok.mp h
  dsimp only at h
  split at h
  · obtain ⟨run, -, h⟩ := bind_eq_ok.mp h
    cases h
    rfl
  · cases h
    rfl

/-! ## What is left to a thread -/

/-- An upper bound on the steps left. -/
def Phase.rank : Phase → Nat
  | .detected => 9
  | .counted => 8
  | .statusCounted => 7
  | .measured _ => 6
  | .mustSend _ _ => 5
  | .readMalware _ _ _ => 4
  | .readSuspicious _ _ _ _ => 3
  | .sent _ _ => 2
  | .timeStored _ => 1
  | .progressUpdated => 0

/-- The thread is about to send a progress event. -/
def Phase.sending : Phase → Bool
  | .mustSend _ _ | .readMalware _ _ _ | .readSuspicious _ _ _ _ => true
  | _ => false

/-- Only a report with a path makes it into a progress event. -/
def Scan.MaySend (scan : Scan) (phase : Phase) : Prop :=
  phase.sending → scan.report.path ≠ none

theorem Scan.maySend_of_not_sending (scan : Scan) {phase : Phase}
    (h : phase.sending = false) : scan.MaySend phase := by
  intro hsend
  rw [h] at hsend
  cases hsend

theorem mustSendProgressEvent_path {o : A6oOnDemand} {report : A6oReport}
    {progress now : Int}
    (h : mustSendProgressEvent o report progress now = true) :
    report.path ≠ none := by
  intro hnone
  simp [mustSendProgressEvent, hnone] at h

theorem fire_progressEvent {env : Env} {o : A6oOnDemand} {report : A6oReport}
    (hpath : report.path ≠ none) (progress : Int) (m p n : Int32) :
    fire env (progressEvent o report progress m p n)
      = .ok [⟨env.time, progressEvent o report progress m p n⟩] := by
  have hnew : a6oEventNew env.time (progressEvent o report progress m p n)
      = .ok ⟨env.time, progressEvent o report progress m p n⟩ := by
    refine a6oEventNew_eq_ok.mpr ⟨?_, rfl⟩
    simpa [progressEvent, A6oEventUnion.strings] using hpath.symm
  rw [fire, hnew]
  rfl

@[simp] theorem countStatus_flags (o : A6oOnDemand) (status : A6oFileStatus) :
    (countStatus o status).flags = o.flags := by
  cases status <;> rfl

@[simp] theorem countStatus_scanId (o : A6oOnDemand) (status : A6oFileStatus) :
    (countStatus o status).scanId = o.scanId := by
  cases status <;> rfl

/-- A detection event. -/
def isDetection (u : A6oEventUnion) : Bool := u.type = .detection

/-- What a step behind the scan leaves alone, and how it comes nearer to
the end. -/
structure Advances (o : A6oOnDemand) (conf : A6oScanConf) (scan : Scan) (phase : Phase)
    (e : Effect) : Prop where
  conf : e.conf = conf
  flags : e.onDemand.flags = o.flags
  scanId : e.onDemand.scanId = o.scanId
  fired : ∀ ev ∈ e.fired, isDetection ev.u = false
  task : ∃ phase', e.task = .running scan phase' ∧ phase'.rank < phase.rank ∧
    scan.MaySend phase'

/-- **A thread that has scanned its file is not stuck** before it destroys
the context. -/
theorem advance_total (env : Env) (o : A6oOnDemand) (conf : A6oScanConf) {scan : Scan}
    {phase : Phase} (hphase : phase ≠ .progressUpdated) (hsend : scan.MaySend phase) :
    ∃ e, advance env o conf scan phase = .ok e ∧ Advances o conf scan phase e := by
  cases phase with
  | detected =>
    exact ⟨_, rfl, rfl, rfl, rfl, by simp, _, rfl, by decide, scan.maySend_of_not_sending rfl⟩
  | counted =>
    exact ⟨_, rfl, rfl, countStatus_flags _ _, countStatus_scanId _ _, by simp, _, rfl, by decide,
      scan.maySend_of_not_sending rfl⟩
  | statusCounted =>
    by_cases h : o.progressPeriod = 0 ∨ o.toScanCount = 0
    · exact ⟨_, by rw [advance, if_pos h], rfl, rfl, rfl, by simp, _, rfl, by decide,
        scan.maySend_of_not_sending rfl⟩
    · exact ⟨_, by rw [advance, if_neg h], rfl, rfl, rfl, by simp, _, rfl, by simp [Phase.rank],
        scan.maySend_of_not_sending rfl⟩
  | measured progress =>
    by_cases h : mustSendProgressEvent o scan.report progress env.now
    · exact ⟨_, by rw [advance, if_pos h], rfl, rfl, rfl, by simp, _, rfl, by simp [Phase.rank],
        fun _ => mustSendProgressEvent_path h⟩
    · exact ⟨_, by rw [advance, if_neg h], rfl, rfl, rfl, by simp, _, rfl, by simp [Phase.rank],
        scan.maySend_of_not_sending rfl⟩
  | mustSend progress now =>
    exact ⟨_, rfl, rfl, rfl, rfl, by simp, _, rfl, by simp [Phase.rank], fun _ => hsend rfl⟩
  | readMalware progress now malware =>
    exact ⟨_, rfl, rfl, rfl, rfl, by simp, _, rfl, by simp [Phase.rank], fun _ => hsend rfl⟩
  | readSuspicious progress now malware suspicious =>
    have hfire := @fire_progressEvent env o scan.report (hsend rfl) progress malware
      suspicious o.scannedCount
    refine ⟨_, by rw [advance, hfire]; rfl, rfl, rfl, rfl, ?_, _, rfl, by simp [Phase.rank],
      scan.maySend_of_not_sending rfl⟩
    intro ev hev
    rw [List.mem_singleton.mp hev]
    rfl
  | sent progress now =>
    exact ⟨_, rfl, rfl, rfl, rfl, by simp, _, rfl, by simp [Phase.rank],
      scan.maySend_of_not_sending rfl⟩
  | timeStored progress =>
    exact ⟨_, rfl, rfl, rfl, rfl, by simp, _, rfl, by simp [Phase.rank],
      scan.maySend_of_not_sending rfl⟩
  | progressUpdated => exact absurd rfl hphase

/-! ## Bringing files to their end -/

/-- The threads that take a step, and what they meet. -/
def Label.threads : Label → List (Nat × Env)
  | .thread i env => [(i, env)]
  | .race i j env env' => [(i, env), (j, env')]
  | _ => []

/-- The scans of a run meet what `good` says of them. -/
def ScansWith (good : Env → Option CString → Prop) (s : State) (l : Label) : Prop :=
  ∀ i env path, (i, env) ∈ l.threads → s.tasks[i]? = some (.queued path) → good env path

/-- The run goes on. -/
structure State.Live (s : State) : Prop where
  stopped : s.stopped = none
  completed : s.completed = false

theorem step_thread {s : State} (hs : s.Live) {i : Nat} {env : Env} {t : Task}
    {r : Except Fault Effect} (ht : s.tasks[i]? = some t)
    (hr : taskStep env s.onDemand s.conf t = some r) (hmay : s.mayRun t) :
    step s (.thread i env) = some (s.apply i r) :=
  step_eq_some_iff.mpr ⟨hs.stopped, hs.completed, .thread i env t r ht hr hmay⟩

variable {good : Env → Option CString → Prop}

theorem scansWith_running {s : State} {i : Nat} {env : Env} {scan : Scan} {phase : Phase}
    (ht : s.tasks[i]? = some (.running scan phase)) : ScansWith good s (.thread i env) := by
  intro j env' path hl hq
  obtain ⟨rfl, rfl⟩ : j = i ∧ env' = env := by simpa [Label.threads] using hl
  rw [ht] at hq
  cases hq

theorem scansWith_of_no_threads {s : State} {l : Label} (h : l.threads = []) :
    ScansWith good s l := by
  intro i env path hl
  rw [h] at hl
  cases hl

/-- The counters and the progress of a scan get updated. By induction on
the steps that are left. -/
theorem update_running (env : Env) {i : Nat} {scan : Scan} :
    ∀ (n : Nat) (s : State) (phase : Phase), phase.rank ≤ n → s.Live →
      s.tasks[i]? = some (.running scan phase) → scan.MaySend phase →
      ∃ labels s', Transition.Reaches step (ScansWith good) s labels s' ∧
        handedOver labels = [] ∧ s'.Live ∧
        s'.tasks = s.tasks.set i (.running scan .progressUpdated) ∧
        s'.conf = s.conf ∧ s'.onDemand.flags = s.onDemand.flags := by
  intro n
  induction n with
  | zero =>
    intro s phase hn hs ht _
    have hphase : phase = .progressUpdated := by cases phase <;> simp_all [Phase.rank]
    subst hphase
    refine ⟨[], s, .refl s, rfl, hs, ?_, rfl, rfl⟩
    obtain ⟨hlt, htask⟩ := List.getElem?_eq_some_iff.mp ht
    rw [← htask, List.set_getElem_self]
  | succ n ih =>
    intro s phase hn hs ht hsend
    by_cases hphase : phase = .progressUpdated
    · exact ih s phase (by simp [hphase, Phase.rank]) hs ht hsend
    · obtain ⟨e, he, hadv⟩ := advance_total env s.onDemand s.conf hphase hsend
      obtain ⟨phase', htask, hrank, hsend'⟩ := hadv.task
      have ht' : (s.apply i (.ok e)).tasks[i]? = some (.running scan phase') := by
        simp only [State.apply, htask]
        exact List.getElem?_set_self (List.getElem?_eq_some_iff.mp ht).1
      obtain ⟨labels, s', hreach, hhanded, hlive, htasks, hconf, hflags⟩ :=
        ih (s.apply i (.ok e)) phase' (by omega) ⟨hs.stopped, hs.completed⟩ ht' hsend'
      refine ⟨_, s', .cons (scansWith_running ht) (step_thread hs ht (congrArg some he) rfl)
        hreach, hhanded, hlive, ?_, ?_, ?_⟩
      · rw [htasks]
        simp only [State.apply, List.set_set]
      · rw [hconf]
        exact hadv.conf
      · rw [hflags]
        exact hadv.flags

/-- No thread has begun with a file that it has not finished. -/
structure State.Quiet (s : State) : Prop extends s.Live where
  running : s.tasks.countP Task.isRunning = 0

/-- No file is in the works. -/
structure State.Idle (s : State) : Prop extends s.Live where
  done : s.tasks.all Task.isDone

theorem State.Idle.quiet {s : State} (hs : s.Idle) : s.Quiet := by
  refine ⟨hs.toLive, List.countP_eq_zero.mpr fun t ht => ?_⟩
  have := List.all_eq_true.mp hs.done t ht
  cases t with
  | done _ => simp [Task.isRunning]
  | _ => simp [Task.isDone] at this

theorem fits_congr {o o' : A6oOnDemand} (h : o'.flags = o.flags) (f : HandOver) :
    o'.fits f = o.fits f := by
  have : o'.threaded = o.threaded := by
    simp only [A6oOnDemand.threaded, A6oOnDemand.hasFlag, h]
  cases f <;> simp only [A6oOnDemand.fits, this]

theorem fits_tail {o o' : A6oOnDemand} (h : o'.flags = o.flags) {f : HandOver}
    {fs : List HandOver} (hfits : ∀ g ∈ f :: fs, o.fits g) : ∀ g ∈ fs, o'.fits g := by
  intro g hg
  rw [fits_congr h]
  exact hfits g (List.mem_cons_of_mem f hg)

theorem State.Idle.accepts {s : State} (hs : s.Idle) {h : HandOver}
    (hfits : s.onDemand.fits h) : s.accepts h := by
  cases h with
  | poolPush path => exact hfits
  | scanFile path =>
    have hnot : (!s.onDemand.threaded) = true := hfits
    simp [State.accepts, hnot, hs.done]

theorem State.Quiet.mayRun {s : State} (hs : s.Quiet) (path : Option CString) (t : Task) :
    State.mayRun { s with tasks := s.tasks ++ [.queued path] } t := by
  simp [State.mayRun, hs.running, Task.isRunning, getMaxThreads]

theorem step_handOver {s : State} (hs : s.Live) {h : HandOver} (haccepts : s.accepts h) :
    step s (.handOver h) = some { s with tasks := s.tasks ++ [.queued h.path] } :=
  step_eq_some_iff.mpr ⟨hs.stopped, hs.completed, .handOver h haccepts⟩

/-- The steps that hand a file over and call for its scan. -/
theorem hand_over {s : State} (hs : s.Quiet) {h : HandOver} (haccepts : s.accepts h)
    {env : Env} (hgood : good env h.path) {r : Except Fault Effect}
    (hr : taskStep env s.onDemand s.conf (.queued h.path) = some r) :
    Transition.Reaches step (ScansWith good) s
      [.handOver h, .thread s.tasks.length env]
      (State.apply { s with tasks := s.tasks ++ [.queued h.path] } s.tasks.length r) := by
  let s₁ : State := { s with tasks := s.tasks ++ [.queued h.path] }
  have ht₁ : s₁.tasks[s.tasks.length]? = some (.queued h.path) := by simp [s₁]
  have hthread : step s₁ (.thread s.tasks.length env) = some (s₁.apply s.tasks.length r) :=
    step_thread (s := s₁) ⟨hs.stopped, hs.completed⟩ ht₁ hr (hs.mayRun h.path _)
  refine .cons (scansWith_of_no_threads rfl) (step_handOver hs.toLive haccepts)
    (.cons ?_ hthread (.refl _))
  intro i env' path hl hq
  obtain ⟨rfl, rfl⟩ : i = s.tasks.length ∧ env' = env := by simpa [Label.threads] using hl
  rw [ht₁] at hq
  cases hq
  exact hgood

/-- The step that scans a queued file. -/
theorem taskStep_queued {env : Env} {o : A6oOnDemand} {conf conf' : A6oScanConf}
    {path : Option CString} {scan : Scan} {fired : List EventNew.A6oEvent}
    (hscan : scanFile env conf path = .ok (scan, conf'))
    (hfire : fireDetected env o scan.report = .ok fired) :
    taskStep env o conf (.queued path)
      = some (.ok ⟨o, conf', .running scan .detected, fired⟩) := by
  simp only [taskStep, hscan]
  show some (fireDetected env o scan.report >>= _) = _
  rw [hfire]
  rfl

/-- The scan of a file returns, and its detection event can be copied. -/
structure ScanReturns (env : Env) (conf : A6oScanConf) (path : Option CString) (scan : Scan)
    (conf' : A6oScanConf) : Prop where
  scanFile : scanFile env conf path = .ok (scan, conf')
  fires : ∀ o, ∃ fired, fireDetected env o scan.report = .ok fired

/-- A file, from its hand-over until only its context is left to destroy. -/
theorem scan_update {s : State} (hs : s.Quiet) {h : HandOver} (haccepts : s.accepts h)
    {env : Env} {scan : Scan} {conf' : A6oScanConf}
    (hscan : ScanReturns env s.conf h.path scan conf') (hgood : good env h.path) :
    ∃ labels s', Transition.Reaches step (ScansWith good) s labels s' ∧
      handedOver labels = [h] ∧ s'.Live ∧
      s'.tasks = s.tasks ++ [.running scan .progressUpdated] ∧
      s'.conf = conf' ∧ s'.onDemand.flags = s.onDemand.flags := by
  obtain ⟨fired, hfired⟩ := hscan.fires s.onDemand
  have hreach := hand_over hs haccepts hgood (taskStep_queued hscan.scanFile hfired)
  obtain ⟨labels, s', hreach', hhanded, hlive, htasks, hconf, hflags⟩ :=
    @update_running good env s.tasks.length scan 9
      (State.apply { s with tasks := s.tasks ++ [.queued h.path] } s.tasks.length
        (.ok ⟨s.onDemand, conf', .running scan .detected, fired⟩)) .detected (by decide)
      ⟨hs.stopped, hs.completed⟩ (by simp [State.apply]) (scan.maySend_of_not_sending rfl)
  refine ⟨_, s', hreach.append hreach', ?_, hlive, ?_, hconf, hflags⟩
  · rw [handedOver_append, hhanded]
    rfl
  · rw [htasks]
    simp [State.apply]

/-- One file, from its hand-over to its end. -/
theorem scan_one {s : State} (hs : s.Quiet) {h : HandOver} (haccepts : s.accepts h)
    {env : Env} {scan : Scan} {conf' : A6oScanConf}
    (hscan : ScanReturns env s.conf h.path scan conf')
    (hdestroy : a6oScanContextDestroy scan = .ok ()) (hgood : good env h.path) :
    ∃ labels s', Transition.Reaches step (ScansWith good) s labels s' ∧
      handedOver labels = [h] ∧ s'.Live ∧ s'.tasks = s.tasks ++ [.done scan] ∧
      s'.conf = conf' ∧ s'.onDemand.flags = s.onDemand.flags := by
  obtain ⟨labels, s', hreach, hhanded, hlive, htasks, hconf, hflags⟩ :=
    scan_update hs haccepts hscan hgood
  have ht : s'.tasks[s.tasks.length]? = some (.running scan .progressUpdated) := by
    simp [htasks]
  have hend : advance env s'.onDemand s'.conf scan .progressUpdated
      = .ok ⟨s'.onDemand, s'.conf, .done scan, []⟩ := by
    rw [advance, hdestroy]
    rfl
  refine ⟨_, _, hreach.append (.cons (scansWith_running ht)
    (step_thread hlive ht (congrArg some hend) rfl) (.refl _)), ?_, ⟨hlive.stopped,
    hlive.completed⟩, ?_, hconf, hflags⟩
  · rw [handedOver_append, hhanded]
    rfl
  · simp [State.apply, htasks]

/-- **Files whose scans go well can all be brought to their end**, one
after the other. `C` is what the scans keep of the configuration. -/
theorem scan_all {C : A6oScanConf → Prop} :
    ∀ (hs : List HandOver) (s : State), s.Idle → C s.conf →
      (∀ h ∈ hs, s.onDemand.fits h) →
      (∀ h ∈ hs, ∀ conf, C conf → ∃ env scan conf', good env h.path ∧
        ScanReturns env conf h.path scan conf' ∧ a6oScanContextDestroy scan = .ok () ∧
        C conf') →
      ∃ labels s', Transition.Reaches step (ScansWith good) s labels s' ∧
        handedOver labels = hs ∧ s'.Idle ∧ C s'.conf ∧
        s'.onDemand.flags = s.onDemand.flags := by
  intro hs
  induction hs with
  | nil =>
    intro s hidle hC _ _
    exact ⟨[], s, .refl s, rfl, hidle, hC, rfl⟩
  | cons h hs ih =>
    intro s hidle hC hfits hclean
    obtain ⟨env, scan, conf', hgood, hscan, hdestroy, hC'⟩ :=
      hclean h List.mem_cons_self s.conf hC
    obtain ⟨labels, s₁, hreach, hhanded, hlive, htasks, hconf, hflags⟩ :=
      scan_one hidle.quiet (hidle.accepts (hfits h List.mem_cons_self)) hscan hdestroy hgood
    have hidle₁ : s₁.Idle := ⟨hlive, by simp [htasks, hidle.done, Task.isDone]⟩
    obtain ⟨labels', s', hreach', hhanded', hidle', hC'', hflags'⟩ :=
      ih s₁ hidle₁ (hconf ▸ hC') (fits_tail hflags hfits)
        fun g hg => hclean g (List.mem_cons_of_mem _ hg)
    refine ⟨labels ++ labels', s', hreach.append hreach', ?_, hidle', hC'',
      hflags'.trans hflags⟩
    rw [handedOver_append, hhanded, hhanded', List.singleton_append]

theorem complete_idle {s : State} (hs : s.Idle) (duration time : Int64) :
    Transition.Reaches step (ScansWith good) s [.complete duration time]
      { s with
        log := s.log ++ [⟨time, fireOnDemandCompletedEvent s.onDemand duration⟩]
        completed := true } :=
  .cons (scansWith_of_no_threads rfl) (step_eq_some_iff.mpr ⟨hs.stopped, hs.completed,
    .complete duration time hs.done⟩) (.refl _)

end Armadito.Core.Pool
