import Armadito.OnAccess.Answers

/-!
# OnAccess.Notify

The monitor without the permission mode: nobody waits for an answer, and
all that is left to do about an event is to close its descriptor.

The two passes were written for permission events. A notification of the
daemon's own accesses is answered in neither, and one whose file fails the
`fstat` test is returned from without a word; both keep their descriptor.
-/

namespace Armadito.OnAccess

open Armadito.Core

variable {f : FanotifyMonitor} {m m' : MonitorState} {e : FanotifyEventMetadata}
  {delivered : List FanotifyEventMetadata}

/-- The descriptor is closed, at once or after the scan. -/
inductive Released (e : FanotifyEventMetadata) : List Action → Prop
  | unscanned : Released e [.close (some (.event e.id))]
  | scanned (status : A6oFileStatus) :
    Released e
      [.threadPoolPush (some (.event e.id)), .scanned (some (.event e.id)) status,
        .close (some (.event e.id))]

/-- The event is still owed, its descriptor is held by a task, or it has
been released. -/
def Accounted (owed : List FanotifyEventMetadata) (m : MonitorState)
    (e : FanotifyEventMetadata) : Prop :=
  e ∈ owed ∨ (∃ t ∈ m.threadPool, Holds m t e) ∨ Released e (history e.id m.log)

/-- The invariant of notification mode, when no event is the daemon's own. -/
structure NotifyInv (f : FanotifyMonitor) (owed delivered : List FanotifyEventMetadata)
    (m : MonitorState) : Prop where
  inv : Inv f owed delivered m
  notified : ∀ e ∈ delivered, e.isOpen ∧ ¬ e.isPerm ∧ e.pid ≠ f.myPid
  accounted : ∀ e ∈ delivered, Accounted owed m e

/-! ## What the functions record -/

/-- What the second pass does with a notification of a regular file: the
descriptor is closed, or the file is queued. -/
theorem fanotifyPass2Event_notify {sys : EventCalls} (hpid : e.pid ≠ f.myPid)
    (hopen : e.isOpen) (hperm : ¬ e.isPerm) (hstat : statCheck sys e.fd = false)
    (h0 : 0 ≤ e.fd) (hfd : m.fds e.fd = some (.event e.id))
    (h : fanotifyPass2Event f sys m e = .ok m') :
    (∃ scanConf, m' = { m with
        scanConf
        fds := Function.update m.fds e.fd none
        log := m.log ++ [.close (some (.event e.id))] }) ∨
    ∃ scanConf ctx, ctx.fd = e.fd ∧ m' = { m with
        scanConf
        threadPool := m.threadPool ++ [⟨ctx, none⟩]
        log := m.log ++ [.threadPoolPush (some (.event e.id))] } := by
  rw [fanotifyPass2Event, if_neg hpid] at h
  dsimp only at h
  rw [if_neg hperm, if_pos hopen] at h
  rcases fanotifyNotifyEventProcess_cases h0 hfd h with ⟨hfails, -⟩ | hclosed | hqueued
  · rw [hstat] at hfails
    cases hfails
  · exact .inl hclosed
  · exact .inr hqueued

/-- The end of a scan thread, without the permission mode. -/
theorem scanFileThreadAnswer_notify (hf : f.enablePermission = false) (h0 : 0 ≤ e.fd)
    (hfd : m.fds e.fd = some (.event e.id)) {ctx : A6oScanContext} (hctx : ctx.fd = e.fd)
    (status : A6oFileStatus) (report : Option A6oReport) :
    ∃ events, (∀ a ∈ events, Action.target a = none) ∧
      scanFileThreadAnswer f m ctx status report = { m with
        fds := Function.update m.fds e.fd none
        log := m.log ++ ([.close (some (.event e.id))] ++ events) } := by
  obtain ⟨events, htarget, heq⟩ := fireIfDetected_eq (closeFd m e.fd) status report
  refine ⟨events, htarget, ?_⟩
  have hneg : ¬ e.fd < 0 := by omega
  rw [scanFileThreadAnswer, if_neg (by simp [hf])]
  simp only [a6oScanContextDestroy, hctx, if_neg hneg, heq]
  simp [closeFd, hfd]

/-! ## One event at a time -/

/-- A step about `e` keeps the account of the others. -/
theorem Accounted.elsewhere {owed owed' : List FanotifyEventMetadata}
    {e' : FanotifyEventMetadata} (h : Accounted owed m e') (hsame : SameElsewhere m m' e)
    (hfd : m.fds e.fd = some (.event e.id)) (hid : e'.id ≠ e.id)
    (hstay : e' ∈ owed → e' ∈ owed')
    (hkeep : ∀ t ∈ m.threadPool, t.fileContext.fd ≠ e.fd → t ∈ m'.threadPool) :
    Accounted owed' m' e' := by
  rcases h with howes | ⟨t, ht, hholds⟩ | hreleased
  · exact .inl (hstay howes)
  · have hne := fd_ne_of_id_ne hfd hholds.fds hid
    refine .inr (.inl ⟨t, hkeep t ht ?_, hholds.elsewhere hsame hne hid⟩)
    rw [hholds.fd]
    exact hne
  · refine .inr (.inr ?_)
    rwa [hsame.history _ hid]

section Owed

variable {l₁ l₂ : List FanotifyEventMetadata}

/-- An iteration of the second pass. -/
theorem NotifyInv.pass2 {todo : List FanotifyEventMetadata} {sys : EventCalls}
    (h : NotifyInv f (owed f (.pass2 (e :: todo))) delivered m)
    (he : e ∈ delivered) (hstat : statCheck sys e.fd = false)
    (hm : fanotifyPass2Event f sys m e = .ok m') :
    NotifyInv f (owed f (.pass2 todo)) delivered m' := by
  obtain ⟨hopen, hperm, hpid⟩ := h.notified e he
  have howed : owed f (.pass2 (e :: todo)) = e :: owed f (.pass2 todo) := by
    simp [owed, hpid]
  obtain ⟨-, huntouched⟩ := h.inv.owedMem e (by simp [howed])
  have hinv := h.inv.pass2 hm
  have haccounted := h.accounted
  rw [howed] at haccounted
  have hstay : ∀ e' : FanotifyEventMetadata, e'.id ≠ e.id →
      e' ∈ e :: owed f (.pass2 todo) → e' ∈ owed f (.pass2 todo) := by
    intro e' hid he'
    exact (List.mem_cons.mp he').resolve_left fun heq => hid (by rw [heq])
  refine ⟨hinv, h.notified, fun e' he' => ?_⟩
  rcases fanotifyPass2Event_notify hpid hopen hperm hstat (h.inv.fdNonneg e he)
    huntouched.fds hm with ⟨scanConf, rfl⟩ | ⟨scanConf, ctx, hctx, rfl⟩
  · have hacts : ∀ a ∈ [Action.close (some (.event e.id))],
        a.target = some (.event e.id) := by
      simp [Action.target]
    by_cases hid : e'.id = e.id
    · obtain rfl := h.inv.eq_of_id_eq he' he hid
      refine .inr (.inr ?_)
      rw [history_append, huntouched.history, history_self hacts]
      exact .unscanned
    · exact (haccounted e' he').elsewhere (.of_log (onlyAbout_self hacts) rfl (.inr rfl))
        huntouched.fds hid (hstay e' hid) fun t ht _ => ht
  · have hacts : ∀ a ∈ [Action.threadPoolPush (some (.event e.id))],
        a.target = some (.event e.id) := by
      simp [Action.target]
    by_cases hid : e'.id = e.id
    · obtain rfl := h.inv.eq_of_id_eq he' he hid
      refine .inr (.inl ⟨⟨ctx, none⟩, by simp, hctx, huntouched.fds, ?_⟩)
      rw [history_append, huntouched.history, history_self hacts]
      rfl
    · exact (haccounted e' he').elsewhere (.of_log (onlyAbout_self hacts) rfl (.inl rfl))
        huntouched.fds hid (hstay e' hid) fun t ht _ => List.mem_append_left _ ht

end Owed

section ThreadPool

variable {a b : List Task} {owed : List FanotifyEventMetadata}

/-- A scan comes to its end. -/
theorem NotifyInv.scan (h : NotifyInv f owed delivered m) {ctx : A6oScanContext}
    {calls : ScanCalls} {task : Task} {acts : List Action}
    (hpool : m.threadPool = a ++ ⟨ctx, none⟩ :: b)
    (hscan : scanFileThreadScan calls m ctx = .ok (task, acts)) :
    NotifyInv f owed delivered
      { m with threadPool := a ++ task :: b, log := m.log ++ acts } := by
  refine ⟨h.inv.scan hpool hscan, h.notified, fun e' he' => ?_⟩
  obtain ⟨run, -, hscan⟩ := bind_eq_ok.mp hscan
  cases hscan
  obtain ⟨e, he, -, hholds⟩ := h.inv.pool ⟨ctx, none⟩ (by simp [hpool])
  have htarget : m.fds ctx.fd = some (.event e.id) := by
    have hctx : ctx.fd = e.fd := hholds.fd
    rw [hctx, hholds.fds]
  have hacts : ∀ x ∈ [Action.scanned (m.fds ctx.fd) run.status],
      x.target = some (.event e.id) := by
    simp [Action.target, htarget]
  by_cases hid : e'.id = e.id
  · obtain rfl := h.inv.eq_of_id_eq he' he hid
    refine .inr (.inl ⟨⟨ctx, some (run.status, run.report)⟩, by simp, hholds.fd,
      hholds.fds, ?_⟩)
    rw [history_append, hholds.history, history_self hacts, htarget]
    rfl
  · refine (h.accounted e' he').elsewhere (.of_log (onlyAbout_self hacts) rfl (.inl rfl))
      hholds.fds hid id ?_
    intro t ht hne
    rw [hpool, List.mem_append, List.mem_cons] at ht
    rcases ht with ht | rfl | ht
    · simp [ht]
    · exact absurd hholds.fd hne
    · simp [ht]

/-- A scan thread ends. -/
theorem NotifyInv.answer (hf : f.enablePermission = false)
    (h : NotifyInv f owed delivered m) {ctx : A6oScanContext} {status : A6oFileStatus}
    {report : Option A6oReport} (hpool : m.threadPool = a ++ ⟨ctx, some (status, report)⟩ :: b) :
    NotifyInv f owed delivered
      (scanFileThreadAnswer f { m with threadPool := a ++ b } ctx status report) := by
  obtain ⟨e, he, hpid, hholds⟩ := h.inv.pool ⟨ctx, some (status, report)⟩ (by simp [hpool])
  obtain ⟨events, htarget, heq⟩ := scanFileThreadAnswer_notify
    (m := { m with threadPool := a ++ b }) hf (h.inv.fdNonneg e he) hholds.fds hholds.fd
    status report
  have hacts : ∀ x ∈ [Action.close (some (.event e.id))], x.target = some (.event e.id) := by
    simp [Action.target]
  have honly := onlyAbout_of_target hacts htarget
  rw [heq]
  refine ⟨?_, h.notified, fun e' he' => ?_⟩
  · exact h.inv.advance none he hpid hholds hpool rfl honly rfl (.inr rfl) (by simp)
      fun hperm => absurd hperm (h.notified e he).2.1
  · by_cases hid : e'.id = e.id
    · obtain rfl := h.inv.eq_of_id_eq he' he hid
      refine .inr (.inr ?_)
      rw [history_append, hholds.history, history_own hacts htarget]
      exact .scanned status
    · refine (h.accounted e' he').elsewhere (.of_log honly rfl (.inr rfl)) hholds.fds hid id ?_
      intro t ht hne
      rw [hpool, List.mem_append, List.mem_cons] at ht
      rcases ht with ht | rfl | ht
      · exact List.mem_append_left _ ht
      · exact absurd hholds.fd hne
      · exact List.mem_append_right _ ht

end ThreadPool

/-- A step that changes nothing but the descriptors, and keeps those of the
events, keeps the accounts. -/
theorem Accounted.of_fds {owed : List FanotifyEventMetadata} (h : Accounted owed m e)
    {fds : Int → Option Descriptor}
    (hkeep : ∀ fd id, m.fds fd = some (.event id) → fds fd = some (.event id)) :
    Accounted owed { m with fds } e := by
  rcases h with howes | ⟨t, ht, hholds⟩ | hreleased
  · exact .inl howes
  · exact .inr (.inl ⟨t, ht, hholds.fd, hkeep _ _ hholds.fds, hholds.history⟩)
  · exact .inr (.inr hreleased)

/-- The rest of the process opens or closes a descriptor of its own. -/
theorem NotifyInv.osUpdate {owed : List FanotifyEventMetadata}
    (h : NotifyInv f owed delivered m) {fd : Int} {d : Option Descriptor}
    (hbefore : ∀ id, m.fds fd ≠ some (.event id)) (hafter : ∀ id, d ≠ some (.event id)) :
    NotifyInv f owed delivered { m with fds := Function.update m.fds fd d } := by
  refine ⟨h.inv.osUpdate hbefore hafter, h.notified, fun e he => ?_⟩
  refine (h.accounted e he).of_fds fun fd' id hfd' => ?_
  have hne : fd' ≠ fd := fun heq => hbefore id (heq ▸ hfd')
  rw [Function.update_of_ne hne, hfd']

/-- A batch is read. -/
theorem NotifyInv.read {s : State} {buf : List FanotifyEventMetadata}
    (h : NotifyInv f [] s.delivered s.monitor) (hfresh : FreshBatch s buf)
    (hbuf : ∀ e ∈ buf, e.isOpen ∧ ¬ e.isPerm ∧ e.pid ≠ f.myPid) :
    NotifyInv f (owed f (.pass1 [] buf)) (s.delivered ++ buf)
      { s.monitor with fds := openBatch s.monitor.fds buf } := by
  refine ⟨h.inv.read hfresh, ?_, fun e he => ?_⟩
  · intro e he
    exact (List.mem_append.mp he).elim (h.notified e) (hbuf e)
  · rcases List.mem_append.mp he with he | he
    · have hkept := (h.accounted e he).of_fds fun fd id hfd =>
        openBatch_inUse (fun e' he' => (hfresh.2.2 e' he').2) hfd
      exact hkept.imp_left fun hnil => by cases hnil
    · exact .inl he

/-! ## Runs -/

/-- Every event that is read is a notification. -/
def Notifies : Label → Prop
  | .read buf => ∀ e ∈ buf, e.isOpen ∧ ¬ e.isPerm
  | _ => True

/-- No event that is read is the daemon's own, and the file of the event at
hand in the second pass can be examined and is regular. -/
def Releases (f : FanotifyMonitor) (s : State) : Label → Prop
  | .read buf => ∀ e ∈ buf, e.pid ≠ f.myPid
  | .pass2 sys => ∀ e todo, s.control = .pass2 (e :: todo) → statCheck sys e.fd = false
  | _ => True

/-- The listening thread has its whole batch in hand until the second pass
takes an event off it. -/
structure NotifyState (f : FanotifyMonitor) (s : State) : Prop where
  inv : NotifyInv f (owed f s.control) s.delivered s.monitor
  batch : ∀ e ∈ batch s.control, e ∈ s.delivered

theorem notify_step (hf : f.enablePermission = false) (s : State) (l : Label) (s' : State)
    (h : NotifyState f s) (hok : Notifies l ∧ Releases f s l) (hstep : step f s l = some s') :
    NotifyState f s' := by
  obtain ⟨h, hbatch⟩ := h
  obtain ⟨hnotifies, hreleases⟩ := hok
  cases step_cases hstep with
  | read hcontrol hfresh =>
    rw [hcontrol] at h
    refine ⟨h.read hfresh fun e he => ?_, fun e he => List.mem_append_right _ he⟩
    exact ⟨(hnotifies e he).1, (hnotifies e he).2, hreleases e he⟩
  | @pass1 seen todo e hcontrol =>
    rw [hcontrol] at h hbatch
    obtain ⟨-, hperm, hpid⟩ := h.notified e (hbatch e (by simp [batch]))
    have howed : owed f (.pass1 (seen ++ [e]) todo) = owed f (.pass1 seen (e :: todo)) := by
      simp [owed, hpid]
    have hsame : fanotifyPass1Event f s.monitor e = s.monitor := by
      rw [fanotifyPass1Event, if_neg hperm]
    refine ⟨?_, fun e' he' => hbatch e' (by simpa [batch] using he')⟩
    show NotifyInv f (owed f (.pass1 (seen ++ [e]) todo)) s.delivered _
    rw [howed, hsame]
    exact h
  | pass1Done hcontrol =>
    rw [hcontrol] at h hbatch
    refine ⟨?_, fun e he => hbatch e (by simpa [batch] using he)⟩
    simpa [owed] using h
  | @pass2 sys todo e m hcontrol hm =>
    rw [hcontrol] at h hbatch
    refine ⟨h.pass2 (hbatch e (by simp [batch])) (hreleases e todo hcontrol) hm, ?_⟩
    exact fun e' he' => hbatch e' (List.mem_cons_of_mem _ he')
  | pass2Done hcontrol =>
    rw [hcontrol] at h
    exact ⟨by simpa [owed] using h, List.forall_mem_nil _⟩
  | scan _ hpool hscan => exact ⟨h.scan hpool hscan, hbatch⟩
  | answer _ hpool => exact ⟨h.answer hf hpool, hbatch⟩
  | osOpen hfree => exact ⟨h.osUpdate (by simp [hfree]) (by simp), hbatch⟩
  | osClose hother => exact ⟨h.osUpdate (by simp [hother]) (by simp), hbatch⟩

theorem notify_start {s : State} (h : IsStart s) : NotifyState f s := by
  have hinv := @start_inv f s h
  obtain ⟨hidle, hdel, -, -, -⟩ := h
  refine ⟨⟨hinv, ?_, ?_⟩, ?_⟩
  · simp [hdel]
  · simp [hdel]
  · simp [hidle, batch]

/-- **Every notification's descriptor is closed exactly once.** In every run
of the monitor without the permission mode in which no event is the
daemon's own and every file passes the `fstat` test: a descriptor is never
closed twice, and once the two passes over its batch and its scan are
over it has been closed. -/
theorem notifyEvent_closed_once {s s' : State} {labels : List Label}
    (hf : f.enablePermission = false) (hs : IsStart s)
    (hrun : Transition.run (step f) s labels = some s')
    (hall : Transition.AllSteps (step f) (fun s l => Notifies l ∧ Releases f s l) s labels)
    (he : e ∈ s'.delivered) :
    closes e.id s'.monitor.log ≤ 1 ∧
      (¬ InProgress s' e → closes e.id s'.monitor.log = 1) := by
  obtain ⟨h, -⟩ := Transition.run_invariant_of_allSteps (notify_step hf) labels s s'
    (notify_start hs) hall hrun
  rw [← closes_history]
  rcases h.accounted e he with howes | ⟨t, ht, hholds⟩ | hreleased
  · rw [(h.inv.owedMem e howes).2.history]
    exact ⟨by simp [closes], fun hdone => absurd (.inl (mem_batch_of_owed howes)) hdone⟩
  · have hnone : closes e.id (taskHistory e.id t.verdict) = 0 := by
      cases t.verdict <;> simp [taskHistory, closes]
    rw [hholds.history, hnone]
    refine ⟨by simp, fun hdone => absurd (.inr ⟨t, ht, ?_⟩) hdone⟩
    rw [hholds.fd, hholds.fds]
  · generalize history e.id s'.monitor.log = acts at hreleased
    cases hreleased with
    | unscanned => simp [closes]
    | scanned status => simp [closes]

/-! ## Descriptors that stay open -/

/-- A file that another process has opened. -/
def notification (pid : Int) : FanotifyEventMetadata :=
  { id := 0, mask := fanOpen, fd := 5, pid }

/-- A batch with one event goes through the two passes. -/
def onePass (e : FanotifyEventMetadata) (sys : EventCalls) : List Label :=
  [.read [e], .pass1, .pass1Done, .pass2 sys, .pass2Done]

/-- An access of the daemon's own, and an access of another process to a
file that is not regular: both passes are over, nothing is in progress, and
the descriptor has not been closed and still refers to the event. -/
theorem notifyEvent_leaks :
    (∃ s', Transition.run (step ⟨false, 100⟩) malwareStart
        (onePass (notification 100) malwareCalls) = some s' ∧
      ¬ InProgress s' (notification 100) ∧ closes 0 s'.monitor.log = 0 ∧
      s'.monitor.fds 5 = some (.event 0)) ∧
    ∃ s', Transition.run (step ⟨false, 100⟩) malwareStart
        (onePass (notification 200) { malwareCalls with fstat := fun _ => some false })
          = some s' ∧
      ¬ InProgress s' (notification 200) ∧ closes 0 s'.monitor.log = 0 ∧
      s'.monitor.fds 5 = some (.event 0) := by
  refine ⟨⟨_, rfl, ?_, rfl, rfl⟩, _, rfl, ?_, rfl, rfl⟩
  · rintro (h | ⟨t, ht, -⟩)
    · cases h
    · cases ht
  · rintro (h | ⟨t, ht, -⟩)
    · cases h
    · cases ht

/-- The event is read, scanned and closed. -/
def notifyRun : List Label :=
  onePass (notification 200) malwareCalls ++
    [.scan 0 { seekOk := fun _ => true, answer := fun _ _ _ _ => (.malware, some "virus".toList) },
      .answer 0]

theorem notifyEvent_scanned_closed :
    ∃ s', Transition.run (step ⟨false, 100⟩) malwareStart notifyRun = some s' ∧
      ¬ InProgress s' (notification 200) ∧ closes 0 s'.monitor.log = 1 := by
  have hstart : IsStart malwareStart := ⟨rfl, rfl, rfl, rfl, fun _ _ h => by cases h⟩
  have hall : Transition.AllSteps (step ⟨false, 100⟩)
      (fun s l => Notifies l ∧ Releases ⟨false, 100⟩ s l) malwareStart notifyRun := by
    refine Transition.AllSteps.of_forall _ _ fun l hl s => ?_
    simp only [notifyRun, onePass, List.cons_append, List.nil_append, List.mem_cons,
      List.not_mem_nil, or_false] at hl
    rcases hl with rfl | rfl | rfl | rfl | rfl | rfl | rfl
    · simp [Notifies, Releases, notification, FanotifyEventMetadata.isOpen,
        FanotifyEventMetadata.isPerm, fanOpen, fanOpenPerm]
    · exact ⟨trivial, trivial⟩
    · exact ⟨trivial, trivial⟩
    · exact ⟨trivial, fun _ _ _ => rfl⟩
    · exact ⟨trivial, trivial⟩
    · exact ⟨trivial, trivial⟩
    · exact ⟨trivial, trivial⟩
  obtain ⟨s', hrun⟩ : ∃ s', Transition.run (step ⟨false, 100⟩) malwareStart notifyRun = some s' :=
    ⟨_, rfl⟩
  have hdelivered : (Transition.run (step ⟨false, 100⟩) malwareStart notifyRun).map
      (fun s => s.delivered) = some [notification 200] := rfl
  have hpool : (Transition.run (step ⟨false, 100⟩) malwareStart notifyRun).map
      (fun s => s.monitor.threadPool.length) = some 0 := rfl
  have hbatch : (Transition.run (step ⟨false, 100⟩) malwareStart notifyRun).map
      (fun s => batch s.control) = some [] := rfl
  rw [hrun, Option.map_some, Option.some.injEq] at hdelivered hpool hbatch
  have hdone : ¬ InProgress s' (notification 200) := by
    rintro (h | ⟨t, ht, -⟩)
    · rw [hbatch] at h
      cases h
    · rw [List.length_eq_zero_iff.mp hpool] at ht
      cases ht
  have hmem : notification 200 ∈ s'.delivered := by
    rw [hdelivered]
    exact List.mem_singleton_self _
  exact ⟨s', hrun, hdone, (notifyEvent_closed_once rfl hstart hrun hall hmem).2 hdone⟩

end Armadito.OnAccess
