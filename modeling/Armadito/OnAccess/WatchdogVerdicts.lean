import Armadito.OnAccess.WatchdogRuns

/-!
# OnAccess.WatchdogVerdicts

Which event a scan thread's verdict is delivered to.

A task looks at its descriptor number many times: for the MIME type, at
every read of the scan, and for the response. All of them are about one
event on the runs in which the kernel does not give the number to a new
event while the task is in the pool.
-/

namespace Armadito.OnAccess.Watchdog

open Armadito.Core DoublyLinked

variable {f : FanotifyMonitor}

/-! ## Where a verdict goes -/

/-- The response goes to the event that was scanned: all reads, one at
least, were of its file. -/
def AnswersScanned (delivered : List FanotifyEventMetadata) (r : Response)
    (files : List (Option Descriptor)) : Prop :=
  ∃ e ∈ delivered, r.target = some (.event e.id) ∧ files ≠ [] ∧
    ∀ file ∈ files, file = some (.event e.id)

/-- What the tasks of the pool have read is the file of the event their
number would answer now, and so it was for every response written. -/
structure Verdicts (f : FanotifyMonitor) (s : State) : Prop where
  nonempty : ∀ t ∈ s.monitor.threadPool, t.files ≠ []
  pool : ∀ t ∈ s.monitor.threadPool, ∀ e ∈ s.delivered, e.fd = t.fileContext.fd →
    Waits f s.monitor.fds s.monitor.log e → ∀ file ∈ t.files, file = some (.event e.id)
  log : ∀ r ∈ s.monitor.log, ∀ files, r.writer = .scanThread files →
    AnswersScanned s.delivered r files

/-- The kernel does not give the number of a task of the pool to a new event
that will wait for an answer, however far the task has come. -/
def NoReuse (f : FanotifyMonitor) (s : State) : Label → Prop
  | .read buf => ∀ e ∈ buf, e.isPerm → e.pid ≠ f.myPid →
      ∀ t ∈ s.monitor.threadPool, t.fileContext.fd ≠ e.fd
  | _ => True

/-- The number a scan thread is about to answer for refers to an event that
waits. -/
theorem Inv.owes_waits {s : State} (h : Inv f s) {t : Task} {fd : Int}
    (ht : t ∈ s.monitor.threadPool) (howes : t.owes = some fd) :
    ∃ e ∈ s.delivered, e.fd = fd ∧ Waits f s.monitor.fds s.monitor.log e := by
  obtain ⟨l, -, hcore⟩ := h
  refine hcore.dueWaits _ ?_
  have : fd ∈ s.monitor.threadPool.filterMap Task.owes :=
    List.mem_filterMap.mpr ⟨t, ht, howes⟩
  simp only [due, List.mem_append]
  exact .inl (.inr this)

theorem AnswersScanned.mono {l l' : List FanotifyEventMetadata} {r : Response}
    {files : List (Option Descriptor)} (hsub : l ⊆ l') (h : AnswersScanned l r files) :
    AnswersScanned l' r files := by
  obtain ⟨e, he, hrest⟩ := h
  exact ⟨e, hsub he, hrest⟩

theorem Verdicts.effect {s s' : State} (h : Verdicts f s) (hinv : Inv f s)
    (heffect : Effect f s s') : Verdicts f s' := by
  refine ⟨?_, ?_, ?_⟩
  · intro t' ht'
    rcases heffect.pool t' ht' with ⟨t, ht, -, heq | heq⟩ | heq
    · rw [heq]
      exact h.nonempty t ht
    · simp [heq]
    · simp [heq]
  · intro t' ht' e he hfd hw file hfile
    have hw' := hw.of_effect heffect
    rw [heffect.delivered] at he
    -- what is read in this step is the file of the event that waits
    have hnow : s.monitor.fds t'.fileContext.fd = some (.event e.id) := hfd ▸ hw'.fds
    rcases heffect.pool t' ht' with ⟨t, ht, hctx, heq | heq⟩ | heq
    · rw [heq] at hfile
      exact h.pool t ht e he (hfd.trans (by rw [hctx])) hw' file hfile
    · rw [heq] at hfile
      rcases List.mem_append.mp hfile with hfile | hfile
      · exact h.pool t ht e he (hfd.trans (by rw [hctx])) hw' file hfile
      · rw [List.mem_singleton.mp hfile, hnow]
    · rw [heq] at hfile
      rw [List.mem_singleton.mp hfile, hnow]
  · intro r hr files hwriter
    obtain ⟨written, hlog, hwritten⟩ := heffect.log
    rw [hlog] at hr
    rw [heffect.delivered]
    rcases List.mem_append.mp hr with hr | hr
    · exact h.log r hr files hwriter
    · obtain ⟨t, ht, rfl, howes, htarget⟩ := hwritten r hr files hwriter
      obtain ⟨e, he, hfd, hw⟩ := hinv.owes_waits ht howes
      refine ⟨e, he, ?_, h.nonempty t ht, h.pool t ht e he hfd hw⟩
      rw [htarget, ← hfd]
      exact hw.fds

theorem Verdicts.read {delivered buf : List FanotifyEventMetadata} {m : MonitorState}
    (h : Verdicts f ⟨.idle, delivered, m⟩) (hfresh : FreshBatch ⟨.idle, delivered, m⟩ buf)
    (hreuse : NoReuse f ⟨.idle, delivered, m⟩ (.read buf)) :
    Verdicts f ⟨.pass1 [] buf, delivered ++ buf,
      { m with fds := openBatch m.fds buf }⟩ := by
  refine ⟨h.nonempty, ?_, ?_⟩
  · intro t ht e he hfd hw
    rcases List.mem_append.mp he with hmem | hmem
    · -- an event read earlier waits only if its descriptor was open before
      refine h.pool t ht e hmem hfd ⟨hw.isPerm, hw.pid, ?_, hw.responses⟩
      rcases openBatch_cases hw.fds with ⟨e', he', -, heq⟩ | hopen
      · injection heq with heq
        have hnodup := hfresh.2.1
        rw [List.map_append, List.nodup_append] at hnodup
        exact absurd heq
          (hnodup.2.2 _ (List.mem_map_of_mem hmem) _ (List.mem_map_of_mem he'))
      · exact hopen
    · exact absurd hfd.symm (hreuse e hmem hw.isPerm hw.pid t ht)
  · intro r hr files hwriter
    exact (h.log r hr files hwriter).mono fun e => List.mem_append_left buf

theorem step_verdicts (hf : f.enablePermission = true) (s : State) (a : Label) (s' : State)
    (h : Inv f s ∧ Verdicts f s) (hok : NoReuse f s a) (hstep : step f s a = some s') :
    Inv f s' ∧ Verdicts f s' := by
  refine ⟨step_inv hf s a s' h.1 hstep, ?_⟩
  by_cases hread : ∀ buf, a ≠ .read buf
  · exact h.2.effect h.1 (step_effect hf h.1 hstep hread).2
  · push Not at hread
    obtain ⟨buf, rfl⟩ := hread
    obtain ⟨hidle, hfresh, rfl⟩ := step_read hstep
    obtain ⟨control, delivered, m⟩ := s
    obtain rfl : control = .idle := hidle
    exact h.2.read hfresh hok

theorem start_verdicts {s : State} (h : IsStart s) : Verdicts f s := by
  obtain ⟨-, -, -, -, hpool, hlog, -⟩ := h
  constructor <;> simp [hpool, hlog]

/-! ## Every run -/

/-- **Every permission event is answered once, and a verdict answers the
event whose file was scanned**, in every run in which the kernel reuses no
number of a task that is still in the pool. What is in progress can be
brought to its answer. -/
theorem verdict_answers_its_event (hf : f.enablePermission = true) {s s' : State}
    {labels : List Label} (hs : IsStart s)
    (hok : Transition.AllSteps (step f) (NoReuse f) s labels)
    (hrun : Transition.run (step f) s labels = some s') :
    (∀ e ∈ s'.delivered, e.isPerm →
      responses e.id s'.monitor.log ≤ 1 ∧
        (¬ InProgress s' e → responses e.id s'.monitor.log = 1)) ∧
    (∃ labels' t, Transition.run (step f) s' labels' = some t ∧
      t.delivered = s'.delivered ∧
      ∀ e ∈ t.delivered, e.isPerm → responses e.id t.monitor.log = 1) ∧
    ∀ r ∈ s'.monitor.log, ∀ files, r.writer = .scanThread files →
      AnswersScanned s'.delivered r files := by
  obtain ⟨honce, hall⟩ := run_answers hf hs hrun
  obtain ⟨-, hverdicts⟩ := Transition.run_invariant_of_allSteps
    (P := fun s => Inv f s ∧ Verdicts f s) (step_verdicts hf) labels s s'
    ⟨start_inv hs, start_verdicts hs⟩ hok hrun
  exact ⟨honce, hall, hverdicts.log⟩

/-! ## A verdict in time, and one too late -/

/-- No event has come. -/
def malwareStart : State :=
  { control := .idle, delivered := []
    monitor := { fds := fun _ => none, scanConf := malwareConf, queue := queueNew
                 popEntries := [], threadPool := [], log := [] } }

theorem malwareStart_isStart : IsStart malwareStart :=
  ⟨rfl, rfl, rfl, rfl, rfl, rfl, fun _ _ h => by cases h⟩

/-- A module has read the file, and the scan goes on. -/
def scanningRun : List Label :=
  [.read [malwareEvent], .pass1 nextAddr ⟨0, 0⟩, .pass1Done, .pass2 malwareCalls, .pass2Done,
    .scanStart 0, .scanRead 0]

/-- The module says MALWARE, and the thread writes its response. -/
def verdictRun : List Label :=
  [.scan 0 { seekOk := fun _ => true
             answer := fun _ _ _ _ => (.malware, some "virus".toList) },
    .remove 0, .answer 0]

theorem verdict_answers_its_event_malware :
    ∃ s', Transition.run (step ⟨true, 100⟩) malwareStart (scanningRun ++ verdictRun)
        = some s' ∧
      s'.monitor.log =
        [⟨.scanThread [some (.event 0), some (.event 0)], some (.event 0), .deny⟩] ∧
      (∀ e ∈ s'.delivered, e.isPerm →
        responses e.id s'.monitor.log ≤ 1 ∧
          (¬ InProgress s' e → responses e.id s'.monitor.log = 1)) ∧
      (∃ labels' t, Transition.run (step ⟨true, 100⟩) s' labels' = some t ∧
        t.delivered = s'.delivered ∧
        ∀ e ∈ t.delivered, e.isPerm → responses e.id t.monitor.log = 1) ∧
      ∀ r ∈ s'.monitor.log, ∀ files, r.writer = .scanThread files →
        AnswersScanned s'.delivered r files := by
  have hlog : (Transition.run (step ⟨true, 100⟩) malwareStart
      (scanningRun ++ verdictRun)).map (fun s => s.monitor.log) =
        some [⟨.scanThread [some (.event 0), some (.event 0)], some (.event 0), .deny⟩] := rfl
  obtain ⟨s', hrun, hlog⟩ := Option.map_eq_some_iff.mp hlog
  refine ⟨s', hrun, hlog, verdict_answers_its_event rfl malwareStart_isStart ?_ hrun⟩
  refine ⟨?_, fun t _ => .of_forall _ t ?_⟩
  · intro e _ _ _ t ht
    cases ht
  · simp [NoReuse, verdictRun]

/-- The next event has the number of the first. -/
def reusedEvent : FanotifyEventMetadata :=
  { id := 1, mask := fanOpenPerm, fd := 5, pid := 200 }

/-- The watchdog answers the first event while its file is being scanned. -/
def lateRun : List Label :=
  scanningRun ++ [.timeout ⟨1, 0⟩, .timeoutAnswer, .read [reusedEvent],
    .pass1 nextAddr ⟨2, 0⟩] ++ verdictRun

/-- The second event is denied for the malware in the first one's file. -/
theorem late_verdict_answers_another_event :
    IsStart malwareStart ∧
    ∃ s', Transition.run (step ⟨true, 100⟩) malwareStart lateRun = some s' ∧
      s'.monitor.log =
        [⟨.watchdog, some (.event 0), .allow⟩,
          ⟨.scanThread [some (.event 0), some (.event 0)], some (.event 1), .deny⟩] ∧
      ¬ ∀ r ∈ s'.monitor.log, ∀ files, r.writer = .scanThread files →
        AnswersScanned s'.delivered r files := by
  have hlog : (Transition.run (step ⟨true, 100⟩) malwareStart lateRun).map
      (fun s => s.monitor.log) =
        some [⟨.watchdog, some (.event 0), .allow⟩,
          ⟨.scanThread [some (.event 0), some (.event 0)], some (.event 1), .deny⟩] := rfl
  obtain ⟨s', hrun, hlog⟩ := Option.map_eq_some_iff.mp hlog
  refine ⟨malwareStart_isStart, s', hrun, hlog, ?_⟩
  rw [hlog]
  intro h
  obtain ⟨e, -, htarget, -, hfiles⟩ := h _ (List.mem_cons_of_mem _ List.mem_cons_self) _ rfl
  have hfile := hfiles _ List.mem_cons_self
  have heq := htarget.trans hfile.symm
  injection heq with heq
  injection heq with heq
  cases heq

end Armadito.OnAccess.Watchdog
