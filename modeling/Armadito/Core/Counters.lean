import Armadito.Core.PoolRuns
import Armadito.Core.Traversal

/-!
# Core.Counters

The counters that the events of a run report.

Each counter is the number of the tasks that have incremented it, as an
`int`. The total of all scans is incremented before the other two and read
after them, which is what keeps a progress event consistent.
-/

namespace Armadito.Core.Pool

open EventNew Producers Tally

/-! ## What a task has counted -/

/-- 1 once the thread has incremented `scanned_count`. -/
def Task.scanned : Task → Nat
  | .queued _ | .running _ .detected => 0
  | .running _ _ | .done _ => 1

/-- 1 once the thread has passed the `switch` of `update_counters` with
this status. -/
def Task.withStatus (status : A6oFileStatus) : Task → Nat
  | .queued _ | .running _ .detected | .running _ .counted => 0
  | .running scan _ | .done scan => if scan.report.status = status then 1 else 0

theorem Task.scanned_le_one (t : Task) : t.scanned ≤ 1 := by
  cases t with
  | queued _ => simp [Task.scanned]
  | running _ phase => cases phase <;> simp [Task.scanned]
  | done _ => simp [Task.scanned]

/-- A task counts under one status, and only after it has been counted. -/
theorem Task.withStatus_le_scanned (t : Task) :
    t.withStatus .malware + t.withStatus .suspicious ≤ t.scanned := by
  have hone : ∀ scan : Scan, (if scan.report.status = .malware then 1 else 0)
      + (if scan.report.status = .suspicious then 1 else 0) ≤ 1 := by
    intro scan
    cases scan.report.status <;> simp
  cases t with
  | queued _ => simp [Task.scanned, Task.withStatus]
  | running scan phase => cases phase <;> simp [Task.scanned, Task.withStatus, hone]
  | done scan => simpa [Task.scanned, Task.withStatus] using hone scan

/-! ## One step of a thread -/

/-- A counter and a task's contribution to it: both stay, or both go up. -/
def InStep (c c' : Int32) (f f' : Nat) : Prop :=
  (c' = c ∧ f' = f) ∨ (c' = c + 1 ∧ f' = f + 1)

theorem InStep.refl (c : Int32) (f : Nat) : InStep c c f f := .inl ⟨rfl, rfl⟩

/-- The contributions and the counter stay together. -/
theorem InStep.total_set {f : Task → Nat} {c c' : Int32} {tasks : List Task} {i : Nat}
    {t t' : Task} (h : InStep c c' (f t) (f t')) (ht : tasks[i]? = some t)
    (hc : c = .ofNat (total f tasks)) :
    c' = .ofNat (total f (tasks.set i t')) ∧
      total f tasks ≤ total f (tasks.set i t') := by
  have hset := total_set_add f t' ht
  rcases h with ⟨rfl, hf⟩ | ⟨rfl, hf⟩
  · have : total f (tasks.set i t') = total f tasks := by omega
    rw [this]
    exact ⟨hc, Nat.le_refl _⟩
  · have : total f (tasks.set i t') = total f tasks + 1 := by omega
    rw [this, Int32.ofNat_add, ← hc]
    exact ⟨rfl, Nat.le_succ _⟩

/-- The numbers a thread has read were once at most `m` and `p`. -/
def Task.ReadsAtMost (m p : Nat) : Task → Prop
  | .running _ (.readMalware _ _ malware) => ∃ k ≤ m, malware = .ofNat k
  | .running _ (.readSuspicious _ _ malware suspicious) =>
    (∃ k ≤ m, malware = .ofNat k) ∧ ∃ j ≤ p, suspicious = .ofNat j
  | _ => True

theorem Task.ReadsAtMost.mono {m m' p p' : Nat} {t : Task} (hm : m ≤ m') (hp : p ≤ p')
    (h : t.ReadsAtMost m p) : t.ReadsAtMost m' p' := by
  cases t with
  | queued _ => trivial
  | done _ => trivial
  | running scan phase =>
    cases phase with
    | readMalware progress now malware =>
      obtain ⟨k, hk, rfl⟩ := h
      exact ⟨k, by omega, rfl⟩
    | readSuspicious progress now malware suspicious =>
      obtain ⟨⟨k, hk, rfl⟩, j, hj, rfl⟩ := h
      exact ⟨⟨k, by omega, rfl⟩, j, by omega, rfl⟩
    | _ => trivial

/-- A progress event: parts that add up to at most the whole. -/
def ProgressFits (limit : Nat) (ev : A6oOnDemandProgressEvent) : Prop :=
  ∃ k j n, k + j ≤ n ∧ n ≤ limit ∧ ev.malwareCount = countToSize (.ofNat k) ∧
    ev.suspiciousCount = countToSize (.ofNat j) ∧
    ev.scannedCount = countToSize (.ofNat n)

/-- The events a step of a thread may fire. -/
inductive Fires (o : A6oOnDemand) (t : Task) : A6oEventUnion → Prop where
  | detection (ev : A6oDetectionEvent) : Fires o t (.evDetection ev)
  | progress (scan : Scan) (progress now : Int) (malware suspicious : Int32)
    (ht : t = .running scan (.readSuspicious progress now malware suspicious)) :
    Fires o t (progressEvent o scan.report progress malware suspicious o.scannedCount)

theorem fire_eq_ok {env : Env} {ev : A6oEventUnion} {fired : List EventNew.A6oEvent}
    (h : fire env ev = .ok fired) : fired = [⟨env.time, ev⟩] := by
  obtain ⟨e, he, h⟩ := bind_eq_ok.mp h
  obtain ⟨-, rfl⟩ := a6oEventNew_eq_ok.mp he
  exact (pure_eq_ok.mp h).symm

theorem fireDetected_eq_ok {env : Env} {o : A6oOnDemand} {report : A6oReport}
    {fired : List EventNew.A6oEvent} (h : fireDetected env o report = .ok fired) :
    fired.map (·.u) = (detection o report).toList := by
  rw [fireDetected] at h
  split at h
  · next ev hev =>
    rw [fire_eq_ok h, hev]
    rfl
  · next hev =>
    obtain rfl := Except.ok.inj h
    rw [hev]
    rfl

theorem countStatus_malware (o : A6oOnDemand) (scan : Scan) :
    InStep o.malwareCount (countStatus o scan.report.status).malwareCount
      (Task.withStatus .malware (.running scan .counted))
      (Task.withStatus .malware (.running scan .statusCounted)) := by
  simp only [Task.withStatus]
  cases scan.report.status with
  | malware => exact .inr ⟨rfl, rfl⟩
  | _ => exact .inl ⟨rfl, rfl⟩

theorem countStatus_suspicious (o : A6oOnDemand) (scan : Scan) :
    InStep o.suspiciousCount (countStatus o scan.report.status).suspiciousCount
      (Task.withStatus .suspicious (.running scan .counted))
      (Task.withStatus .suspicious (.running scan .statusCounted)) := by
  simp only [Task.withStatus]
  cases scan.report.status with
  | suspicious => exact .inr ⟨rfl, rfl⟩
  | _ => exact .inl ⟨rfl, rfl⟩

@[simp] theorem countStatus_scannedCount (o : A6oOnDemand) (status : A6oFileStatus) :
    (countStatus o status).scannedCount = o.scannedCount := by
  cases status <;> rfl

/-- What a step of a thread does to the counters, to what it has read, and
which events it fires. -/
structure StepSpec (o : A6oOnDemand) (t : Task) (e : Effect) : Prop where
  scanned : InStep o.scannedCount e.onDemand.scannedCount t.scanned e.task.scanned
  malware : InStep o.malwareCount e.onDemand.malwareCount
    (t.withStatus .malware) (e.task.withStatus .malware)
  suspicious : InStep o.suspiciousCount e.onDemand.suspiciousCount
    (t.withStatus .suspicious) (e.task.withStatus .suspicious)
  reads : ∀ m p, o.malwareCount = .ofNat m → o.suspiciousCount = .ofNat p →
    t.ReadsAtMost m p → e.task.ReadsAtMost m p
  fired : ∀ ev ∈ e.fired, Fires o t ev.u

theorem advance_spec {env : Env} {o : A6oOnDemand} {conf : A6oScanConf} {scan : Scan}
    {phase : Phase} {e : Effect} (h : advance env o conf scan phase = .ok e) :
    StepSpec o (.running scan phase) e := by
  cases phase with
  | detected =>
    cases h
    exact ⟨.inr ⟨rfl, rfl⟩, .refl _ _, .refl _ _, fun _ _ _ _ _ => trivial, by simp⟩
  | counted =>
    cases h
    refine ⟨?_, countStatus_malware o scan, countStatus_suspicious o scan,
      fun _ _ _ _ _ => trivial, by simp⟩
    exact .inl ⟨countStatus_scannedCount o _, rfl⟩
  | statusCounted =>
    rw [advance] at h
    split at h <;> cases h <;>
      exact ⟨.refl _ _, .refl _ _, .refl _ _, fun _ _ _ _ _ => trivial, by simp⟩
  | measured progress =>
    rw [advance] at h
    split at h <;> cases h <;>
      exact ⟨.refl _ _, .refl _ _, .refl _ _, fun _ _ _ _ _ => trivial, by simp⟩
  | mustSend progress now =>
    cases h
    exact ⟨.refl _ _, .refl _ _, .refl _ _, fun m p hm _ _ => ⟨m, Nat.le_refl _, hm⟩,
      by simp⟩
  | readMalware progress now malware =>
    cases h
    exact ⟨.refl _ _, .refl _ _, .refl _ _, fun m p _ hp hr => ⟨hr, p, Nat.le_refl _, hp⟩,
      by simp⟩
  | readSuspicious progress now malware suspicious =>
    obtain ⟨fired, hfired, h⟩ := bind_eq_ok.mp h
    cases h
    refine ⟨.refl _ _, .refl _ _, .refl _ _, fun _ _ _ _ _ => trivial, ?_⟩
    intro ev hev
    obtain rfl : ev = _ := by simpa [fire_eq_ok hfired] using hev
    exact .progress scan progress now malware suspicious rfl
  | sent progress now =>
    cases h
    exact ⟨.refl _ _, .refl _ _, .refl _ _, fun _ _ _ _ _ => trivial, by simp⟩
  | timeStored progress =>
    cases h
    exact ⟨.refl _ _, .refl _ _, .refl _ _, fun _ _ _ _ _ => trivial, by simp⟩
  | progressUpdated =>
    obtain ⟨_, -, h⟩ := bind_eq_ok.mp h
    cases h
    exact ⟨.refl _ _, .refl _ _, .refl _ _, fun _ _ _ _ _ => trivial, by simp⟩

theorem taskStep_spec {env : Env} {o : A6oOnDemand} {conf : A6oScanConf} {t : Task}
    {e : Effect} (h : taskStep env o conf t = some (.ok e)) : StepSpec o t e := by
  cases t with
  | queued path =>
    obtain ⟨⟨scan, conf'⟩, -, h⟩ := bind_eq_ok.mp (Option.some.inj h)
    obtain ⟨fired, hfired, h⟩ := bind_eq_ok.mp h
    cases h
    refine ⟨.refl _ _, .refl _ _, .refl _ _, fun _ _ _ _ _ => trivial, ?_⟩
    intro ev hev
    have hmem : ev.u ∈ fired.map (·.u) := List.mem_map_of_mem hev
    rw [fireDetected_eq_ok hfired, detection] at hmem
    split at hmem
    · obtain h : ev.u = _ := by simpa using hmem
      rw [h]
      exact .detection _
    · simp at hmem
  | running scan phase => exact advance_spec (Option.some.inj h)
  | done scan => cases h

/-! ## The invariant of the runs -/

theorem total_scanned_le_length (tasks : List Task) :
    total Task.scanned tasks ≤ tasks.length := by
  induction tasks with
  | nil => simp
  | cons t ts ih =>
    have := t.scanned_le_one
    rw [total_cons, List.length_cons]
    omega

theorem total_withStatus_le (tasks : List Task) :
    total (Task.withStatus .malware) tasks + total (Task.withStatus .suspicious) tasks
      ≤ total Task.scanned tasks := by
  rw [← total_add]
  exact total_le_total tasks Task.withStatus_le_scanned

/-- What the completed event carries. -/
def CompletedCounts (tasks : List Task) (ev : A6oOnDemandCompletedEvent) : Prop :=
  ev.totalScannedCount = countToSize (.ofNat (total Task.scanned tasks)) ∧
    ev.totalMalwareCount = countToSize (.ofNat (total (Task.withStatus .malware) tasks)) ∧
    ev.totalSuspiciousCount
      = countToSize (.ofNat (total (Task.withStatus .suspicious) tasks))

/-- The counters are those of the tasks, and no thread has read a higher one. -/
structure Inv (s : State) : Prop where
  scanned : s.onDemand.scannedCount = .ofNat (total Task.scanned s.tasks)
  malware : s.onDemand.malwareCount = .ofNat (total (Task.withStatus .malware) s.tasks)
  suspicious :
    s.onDemand.suspiciousCount = .ofNat (total (Task.withStatus .suspicious) s.tasks)
  reads : ∀ t ∈ s.tasks, t.ReadsAtMost (total (Task.withStatus .malware) s.tasks)
    (total (Task.withStatus .suspicious) s.tasks)
  progress : ∀ e ∈ s.log, ∀ ev, e.u = .evOnDemandProgress ev →
    ProgressFits s.tasks.length ev
  completed : ∀ e ∈ s.log, ∀ ev, e.u = .evOnDemandCompleted ev →
    s.completed ∧ s.tasks.all Task.isDone ∧ CompletedCounts s.tasks ev

/-- A thread reads `scanned_count` last: whoever had incremented the other
counters when it read those had incremented this one before. -/
theorem fires_progressFits {s : State} (hs : Inv s) {t : Task} (ht : t ∈ s.tasks)
    {u : A6oEventUnion} (h : Fires s.onDemand t u) {ev : A6oOnDemandProgressEvent}
    (hu : u = .evOnDemandProgress ev) : ProgressFits s.tasks.length ev := by
  cases h with
  | detection _ => cases hu
  | progress scan progress now malware suspicious htask =>
    subst htask
    obtain ⟨⟨k, hk, rfl⟩, j, hj, rfl⟩ := hs.reads _ ht
    have hle := total_withStatus_le s.tasks
    cases hu
    refine ⟨k, j, total Task.scanned s.tasks, by omega, total_scanned_le_length _,
      rfl, rfl, ?_⟩
    simp only [hs.scanned]

theorem inv_thread {s : State} (hs : Inv s) {i : Nat} {env : Env} {t : Task}
    {r : Except Fault Effect} (ht : s.tasks[i]? = some t)
    (hr : taskStep env s.onDemand s.conf t = some r) (hrun : s.completed = false) :
    Inv (s.apply i r) := by
  have hopen : ∀ e ∈ s.log, ∀ ev, e.u ≠ .evOnDemandCompleted ev := by
    intro e he ev hev
    have := (hs.completed e he ev hev).1
    simp [hrun] at this
  cases r with
  | error f =>
    refine ⟨hs.scanned, hs.malware, hs.suspicious, hs.reads, hs.progress, ?_⟩
    intro e he ev hev
    exact absurd hev (hopen e he ev)
  | ok e =>
    have hspec := taskStep_spec hr
    obtain ⟨hmalware, hm⟩ := hspec.malware.total_set ht hs.malware
    obtain ⟨hsuspicious, hp⟩ := hspec.suspicious.total_set ht hs.suspicious
    have hmem : t ∈ s.tasks := List.mem_of_getElem? ht
    refine ⟨(hspec.scanned.total_set ht hs.scanned).1, hmalware, hsuspicious, ?_, ?_, ?_⟩
    · intro t' ht'
      rcases List.mem_or_eq_of_mem_set ht' with hold | rfl
      · exact (hs.reads t' hold).mono hm hp
      · exact (hspec.reads _ _ hs.malware hs.suspicious (hs.reads t hmem)).mono hm hp
    · intro e' he' ev hev
      rw [State.apply, List.length_set]
      rcases List.mem_append.mp he' with hold | hnew
      · exact hs.progress e' hold ev hev
      · exact fires_progressFits hs hmem (hspec.fired e' hnew) hev
    · intro e' he' ev hev
      rcases List.mem_append.mp he' with hold | hnew
      · exact absurd hev (hopen e' hold ev)
      · have := hspec.fired e' hnew
        rw [hev] at this
        cases this

theorem inv_step {s : State} {l : Label} {s' : State} (hs : Inv s)
    (h : step s l = some s') : Inv s' := by
  obtain ⟨-, hrun, hmove⟩ := step_eq_some_iff.mp h
  have hopen : ∀ e ∈ s.log, ∀ ev, e.u ≠ .evOnDemandCompleted ev := by
    intro e he ev hev
    have := (hs.completed e he ev hev).1
    simp [hrun] at this
  cases hmove with
  | handOver f _ =>
    have hnew : ∀ g : Task → Nat, g (.queued f.path) = 0 →
        total g (s.tasks ++ [.queued f.path]) = total g s.tasks := by
      intro g hg
      simp [total_append, hg]
    refine ⟨?_, ?_, ?_, ?_, ?_, ?_⟩
    · rw [hnew _ rfl]
      exact hs.scanned
    · rw [hnew _ rfl]
      exact hs.malware
    · rw [hnew _ rfl]
      exact hs.suspicious
    · rw [hnew _ rfl, hnew _ rfl]
      intro t ht
      rcases List.mem_append.mp ht with hold | hlast
      · exact hs.reads t hold
      · rw [List.mem_singleton.mp hlast]
        trivial
    · intro e he ev hev
      obtain ⟨k, j, n, hkj, hn, hev⟩ := hs.progress e he ev hev
      exact ⟨k, j, n, hkj, by simpa using Nat.le_succ_of_le hn, hev⟩
    · intro e he ev hev
      exact absurd hev (hopen e he ev)
  | thread i env t r ht hr _ => exact inv_thread hs ht hr hrun
  | race _ _ _ _ _ =>
    exact ⟨hs.scanned, hs.malware, hs.suspicious, hs.reads, hs.progress, hs.completed⟩
  | toScan count _ =>
    exact ⟨hs.scanned, hs.malware, hs.suspicious, hs.reads, hs.progress, hs.completed⟩
  | complete duration time hdone =>
    refine ⟨hs.scanned, hs.malware, hs.suspicious, hs.reads, ?_, ?_⟩
    · intro e he ev hev
      rcases List.mem_append.mp he with hold | hnew
      · exact hs.progress e hold ev hev
      · rw [List.mem_singleton.mp hnew] at hev
        cases hev
    · intro e he ev hev
      rcases List.mem_append.mp he with hold | hnew
      · exact absurd hev (hopen e hold ev)
      · rw [List.mem_singleton.mp hnew] at hev
        cases hev
        refine ⟨rfl, hdone, ?_, ?_, ?_⟩
        · simp only [hs.scanned]
        · simp only [hs.malware]
        · simp only [hs.suspicious]

theorem inv_start {o : A6oOnDemand} (conf : A6oScanConf) (time : Int64)
    (hscanned : o.scannedCount = 0) (hmalware : o.malwareCount = 0)
    (hsuspicious : o.suspiciousCount = 0) : Inv (start o conf time) := by
  refine ⟨?_, ?_, ?_, by simp [start], ?_, ?_⟩
  · simp [start, hscanned]
  · simp [start, hmalware]
  · simp [start, hsuspicious]
  · intro e he ev hev
    rw [List.mem_singleton.mp he] at hev
    cases hev
  · intro e he ev hev
    rw [List.mem_singleton.mp he] at hev
    cases hev

theorem inv_run {o : A6oOnDemand} {conf : A6oScanConf} {time : Int64}
    {labels : List Label} {s : State} (hscanned : o.scannedCount = 0)
    (hmalware : o.malwareCount = 0) (hsuspicious : o.suspiciousCount = 0)
    (h : Transition.run step (start o conf time) labels = some s) : Inv s :=
  Transition.run_invariant (fun _ _ _ => inv_step) labels _ _
    (inv_start conf time hscanned hmalware hsuspicious) h

/-! ## What the events carry -/

theorem taskStep_path {env : Env} {o : A6oOnDemand} {conf : A6oScanConf} {t : Task}
    {e : Effect} (h : taskStep env o conf t = some (.ok e)) : e.task.path = t.path := by
  cases t with
  | queued path =>
    obtain ⟨⟨scan, conf'⟩, hscan, h⟩ := bind_eq_ok.mp (Option.some.inj h)
    obtain ⟨fired, -, h⟩ := bind_eq_ok.mp h
    cases h
    exact scanFile_path hscan
  | running scan phase =>
    have h := Option.some.inj h
    cases phase with
    | statusCounted =>
      rw [advance] at h
      split at h <;> cases h <;> rfl
    | measured progress =>
      rw [advance] at h
      split at h <;> cases h <;> rfl
    | readSuspicious progress now malware suspicious =>
      obtain ⟨fired, -, h⟩ := bind_eq_ok.mp h
      cases h
      rfl
    | progressUpdated =>
      obtain ⟨_, -, h⟩ := bind_eq_ok.mp h
      cases h
      rfl
    | _ =>
      cases h
      rfl
  | done scan => cases h

/-- The tasks are the files handed over. -/
theorem tasks_path {o : A6oOnDemand} {conf : A6oScanConf} {time : Int64}
    {labels : List Label} {s : State}
    (h : Transition.run step (start o conf time) labels = some s) :
    s.tasks.map Task.path = (handedOver labels).map HandOver.path := by
  refine Transition.run_history
    (P := fun ls s => s.tasks.map Task.path = (handedOver ls).map HandOver.path)
    ?_ labels [] _ s rfl h
  intro ls s l s' hs hstep
  obtain ⟨-, -, hmove⟩ := step_eq_some_iff.mp hstep
  cases hmove with
  | handOver f _ => simp [hs, Task.path]
  | thread i env t r ht hr _ =>
    cases r with
    | error f => simpa [State.apply] using hs
    | ok e =>
      have hpath : (s.tasks.set i e.task).map Task.path = s.tasks.map Task.path := by
        obtain ⟨hlt, rfl⟩ := List.getElem?_eq_some_iff.mp ht
        rw [List.map_set, taskStep_path hr,
          ← List.getElem_map Task.path (h := by simpa using hlt), List.set_getElem_self]
      simpa [State.apply, hpath] using hs
  | race _ _ _ _ _ => simpa using hs
  | toScan count _ => simpa using hs
  | complete duration time _ => simpa using hs

/-- The task's file was scanned, and its report has this status. -/
def Task.hasStatus (status : A6oFileStatus) : Task → Bool
  | .queued _ => false
  | .running scan _ | .done scan => scan.report.status = status

/-- When everything is done, the contributions count the files. -/
theorem total_scanned_of_done {tasks : List Task} (h : tasks.all Task.isDone) :
    total Task.scanned tasks = tasks.length := by
  induction tasks with
  | nil => rfl
  | cons t ts ih =>
    simp only [List.all_cons, Bool.and_eq_true] at h
    cases t with
    | done scan =>
      rw [total_cons, ih h.2, List.length_cons]
      simp only [Task.scanned]
      omega
    | _ => simp [Task.isDone] at h

theorem total_withStatus_of_done {tasks : List Task} (h : tasks.all Task.isDone)
    (status : A6oFileStatus) :
    total (Task.withStatus status) tasks = tasks.countP (Task.hasStatus status) := by
  induction tasks with
  | nil => rfl
  | cons t ts ih =>
    simp only [List.all_cons, Bool.and_eq_true] at h
    cases t with
    | done scan =>
      rw [total_cons, ih h.2, List.countP_cons]
      by_cases hst : scan.report.status = status <;>
        simp [Task.withStatus, Task.hasStatus, hst, Nat.add_comm]
    | _ => simp [Task.isDone] at h

theorem countToSize_ofNat {n : Nat} (h : n < 2 ^ 31) :
    (countToSize (.ofNat n)).toNat = n := by
  rw [countToSize, Int32.toInt_ofNat_of_lt h, UInt64.ofInt]
  have hmod : ((n : Int) % 2 ^ 64).toNat = n := by omega
  rw [hmod, UInt64.toNat_ofNat']
  omega

/-- What the events of a run say about the files handed over: the parts of
a progress event fit into its whole, and the completed event is exact. -/
structure CountsExact (files : List (Option CString)) (s : State) : Prop where
  tasks : s.tasks.map Task.path = files
  progress : ∀ e ∈ s.log, ∀ ev, e.u = .evOnDemandProgress ev →
    ev.malwareCount.toNat + ev.suspiciousCount.toNat ≤ ev.scannedCount.toNat
  completed : ∀ e ∈ s.log, ∀ ev, e.u = .evOnDemandCompleted ev →
    s.tasks.all Task.isDone ∧
    ev.totalScannedCount.toNat = files.length ∧
    ev.totalMalwareCount.toNat = s.tasks.countP (Task.hasStatus .malware) ∧
    ev.totalSuspiciousCount.toNat = s.tasks.countP (Task.hasStatus .suspicious)

/-- **While fewer than 2³¹ files are handed over, the counters are exact**:
in every state that any interleaving of the threads reaches. -/
theorem counts_exact {realpath : Option (CString → Option CString)} {root : CString}
    {scanId : Int} {flags : Nat} {sendProgress : Int} {o : A6oOnDemand}
    {conf : A6oScanConf} {time : Int64} {labels : List Label} {s : State}
    (hnew : a6oOnDemandNew realpath root scanId flags sendProgress = some o)
    (hrun : Transition.run step (start o conf time) labels = some s)
    (hfew : (handedOver labels).length < 2 ^ 31) :
    CountsExact ((handedOver labels).map HandOver.path) s := by
  obtain ⟨root', -, rfl⟩ := Option.map_eq_some_iff.mp hnew
  have hinv : Inv s := inv_run rfl rfl rfl hrun
  have hfiles := tasks_path hrun
  have hlen : s.tasks.length = (handedOver labels).length := by
    simpa using congrArg List.length hfiles
  refine ⟨hfiles, ?_, ?_⟩
  · intro e he ev hev
    obtain ⟨k, j, n, hkj, hn, hm, hp, hs⟩ := hinv.progress e he ev hev
    rw [hm, hp, hs, countToSize_ofNat (by omega), countToSize_ofNat (by omega),
      countToSize_ofNat (by omega)]
    exact hkj
  · intro e he ev hev
    obtain ⟨-, hdone, hs, hm, hp⟩ := hinv.completed e he ev hev
    have hscanned := total_scanned_le_length s.tasks
    have hparts := total_withStatus_le s.tasks
    refine ⟨hdone, ?_, ?_, ?_⟩
    · rw [hs, countToSize_ofNat (by omega), total_scanned_of_done hdone, hlen,
        List.length_map]
    · rw [hm, countToSize_ofNat (by omega), total_withStatus_of_done hdone]
    · rw [hp, countToSize_ofNat (by omega), total_withStatus_of_done hdone]

/-! ## Witnesses -/

def poolConf : A6oScanConf :=
  { mimeTypes := [], modules := [], mimeTypeCache := [], directoriesWhiteList := [] }

/-- The file opens and its type cannot be told. -/
def untypedFile : Env :=
  { sys := { osOpen := fun _ => 3, osMimeTypeGuessFd := fun _ => none }
    seekOk := fun _ => true
    stack := contextInit (-1)
    now := 1000
    time := 1 }

/-- A threaded scan that sends its progress. -/
def poolScan : A6oOnDemand :=
  { recursiveScan with
    flags := a6oScanThreaded ||| a6oScanRecurse
    progressPeriod := defaultProgressPeriod }

theorem poolScan_new :
    a6oOnDemandNew none "/r".toList 1 (a6oScanThreaded ||| a6oScanRecurse) 1
      = some poolScan := rfl

/-- Calls every text malware. -/
def detectAll : A6oModule :=
  { name := "m".toList
    status := .ok
    supportedMimeTypes := some ["text/plain".toList]
    scanFun := some fun _ _ _ => (.malware, some "text".toList) }

def detectConf : A6oScanConf :=
  { poolConf with mimeTypes := ["text/plain".toList], modules := [detectAll] }

def textFile : Env :=
  { untypedFile with
    sys := { osOpen := fun _ => 4, osMimeTypeGuessFd := fun _ => some "text/plain".toList } }

/-- Two files at once, the second is malware. Its thread counts while the
other one is about to send its progress. -/
def twoAtOnce : List Label :=
  [.handOver (.poolPush "/r/f".toList), .handOver (.poolPush "/r/g".toList), .toScan 2]
    ++ List.replicate 6 (.thread 0 untypedFile) ++ List.replicate 3 (.thread 1 textFile)
    ++ List.replicate 5 (.thread 0 untypedFile) ++ List.replicate 8 (.thread 1 textFile)
    ++ [.complete 5 2]

theorem counts_exact_two : ∃ s,
    Transition.run step (start poolScan detectConf 0) twoAtOnce = some s ∧
    s.log.length = 5 ∧ s.tasks.countP (Task.hasStatus .malware) = 1 ∧
    CountsExact ((handedOver twoAtOnce).map HandOver.path) s := by
  have hrun : (Transition.run step (start poolScan detectConf 0) twoAtOnce).map
      (fun s => (s.log.length, s.tasks.countP (Task.hasStatus .malware))) = some (5, 1) := rfl
  obtain ⟨s, hs, hcounts⟩ := Option.map_eq_some_iff.mp hrun
  obtain ⟨hlog, hmalware⟩ := Prod.mk.inj hcounts
  exact ⟨s, hs, hlog, hmalware, counts_exact poolScan_new hs (by decide)⟩

/-! ## 2³¹ files -/

/-- Distinct files of one directory. -/
def manyFiles (n : Nat) : List HandOver :=
  (List.range n).map fun i => .poolPush ("/r/".toList ++ Nat.toDigits 10 i)

theorem untypedFile_returns (path : CString) :
    ScanReturns untypedFile poolConf (some path)
      ⟨some path, { contextInit 3 with status := .fileTypeNotScanned },
        { a6oReportInit (some path) with status := .unknownType }⟩ poolConf :=
  ⟨rfl, fun _ => ⟨[], rfl⟩⟩

/-- Any number of files can be handed over and scanned. -/
theorem manyFiles_complete (n : Nat) : ∃ labels s,
    Transition.run step (start poolScan poolConf 0) labels = some s ∧
    handedOver labels = manyFiles n ∧
    ∃ duration, ⟨0, fireOnDemandCompletedEvent s.onDemand duration⟩ ∈ s.log := by
  have hidle : (start poolScan poolConf 0).Idle := ⟨⟨rfl, rfl⟩, rfl⟩
  have hfits : ∀ h ∈ manyFiles n, (start poolScan poolConf 0).onDemand.fits h := by
    intro h hh
    obtain ⟨i, -, rfl⟩ := List.mem_map.mp hh
    rfl
  obtain ⟨labels, s, hreach, hhanded, hidle', -⟩ :=
    @scan_all (fun _ _ => True) (fun conf => conf = poolConf) (manyFiles n)
      (start poolScan poolConf 0) hidle rfl hfits fun h hh conf hconf => by
        obtain ⟨i, -, rfl⟩ := List.mem_map.mp hh
        subst hconf
        exact ⟨untypedFile, _, poolConf, trivial, untypedFile_returns _, rfl, rfl⟩
  refine ⟨labels ++ [.complete 0 0], _,
    (hreach.append (complete_idle hidle' 0 0)).1, ?_, 0, ?_⟩
  · rw [handedOver_append, hhanded]
    exact List.append_nil _
  · exact List.mem_append_right _ (List.mem_singleton.mpr rfl)

theorem countToSize_wrap : (countToSize (.ofNat (2 ^ 31))).toNat = 2 ^ 64 - 2 ^ 31 := by
  decide

/-- With 2³¹ files `scanned_count` has become negative, and the completed
event carries 2⁶⁴ - 2³¹. -/
theorem counts_wrap : ∃ labels s,
    Transition.run step (start poolScan poolConf 0) labels = some s ∧
    (handedOver labels).length = 2 ^ 31 ∧
    ¬ CountsExact ((handedOver labels).map HandOver.path) s := by
  obtain ⟨labels, s, hrun, hhanded, duration, hev⟩ := manyFiles_complete (2 ^ 31)
  have hlen : (handedOver labels).length = 2 ^ 31 := by
    rw [hhanded, manyFiles, List.length_map, List.length_range]
  refine ⟨labels, s, hrun, hlen, ?_⟩
  intro hexact
  obtain ⟨hdone, hcount, -⟩ := hexact.completed _ hev _ rfl
  have hinv : Inv s := inv_run rfl rfl rfl hrun
  have htasks : s.tasks.length = 2 ^ 31 := by
    simpa [hlen] using congrArg List.length hexact.tasks
  have hwrap : (countToSize s.onDemand.scannedCount).toNat = 2 ^ 64 - 2 ^ 31 := by
    rw [hinv.scanned, total_scanned_of_done hdone, htasks, countToSize_wrap]
  have hclaim : (countToSize s.onDemand.scannedCount).toNat = 2 ^ 31 := by
    rw [← hlen, ← List.length_map HandOver.path]
    exact hcount
  omega

end Armadito.Core.Pool
