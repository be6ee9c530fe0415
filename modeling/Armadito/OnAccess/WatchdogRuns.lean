import Armadito.OnAccess.WatchdogAnswers

/-!
# OnAccess.WatchdogRuns

The steps of the monitor with the watchdog, and its runs.

On every run an event is answered at most once, and from every state the
answers that are due can be written: the watchdog takes what is left in the
queue.
-/

namespace Armadito.OnAccess.Watchdog

open Armadito.Core DoublyLinked

/-! ## Who owes an answer -/

/-- What is left to the first pass. -/
def Control.todo : Control → List FanotifyEventMetadata
  | .pass1 _ todo => todo
  | .idle | .pass2 _ | .answer _ _ => []

/-- What is left to the second pass. -/
def Control.later : Control → List FanotifyEventMetadata
  | .idle => []
  | .pass1 seen todo => seen ++ todo
  | .pass2 todo | .answer _ todo => todo

/-- The listening thread has taken the number out of the queue. -/
def Control.owes : Control → List Int
  | .answer fd _ => [fd]
  | .idle | .pass1 _ _ | .pass2 _ => []

/-- The scan thread has taken the number out of the queue. -/
def Task.owes (t : Task) : Option Int :=
  match t.progress with
  | .removed _ => some t.fileContext.fd
  | .queued | .scanning | .scanned _ => none

/-- The numbers whose answer is due, with `l` in the queue. -/
def due (s : State) (l : List QueueEntry) : List Int :=
  (l.map fun entry => entry.fd) ++ (s.monitor.popEntries.map fun entry => entry.fd) ++
    s.monitor.threadPool.filterMap Task.owes ++ s.control.owes

/-- The queue is in order, and the answers are accounted for. -/
def Inv (f : FanotifyMonitor) (s : State) : Prop :=
  ∃ l, QueueHolds s.monitor.queue l ∧
    Core f s.monitor.fds s.monitor.log s.delivered s.control.todo s.control.later (due s l)

/-! ## What a step may change -/

/-- What a step other than `read` may change. -/
structure Effect (f : FanotifyMonitor) (s s' : State) : Prop where
  delivered : s'.delivered = s.delivered
  /-- no number comes to refer to an event -/
  fds : ∀ fd id, s'.monitor.fds fd = some (.event id) → s.monitor.fds fd = some (.event id)
  log : ∃ written, s'.monitor.log = s.monitor.log ++ written ∧
    ∀ r ∈ written, ∀ files, r.writer = .scanThread files →
      ∃ t ∈ s.monitor.threadPool, t.files = files ∧ t.owes = some t.fileContext.fd ∧
        r.target = s.monitor.fds t.fileContext.fd
  /-- what a task comes to have read is what its number refers to -/
  pool : ∀ t' ∈ s'.monitor.threadPool,
    (∃ t ∈ s.monitor.threadPool, t'.fileContext = t.fileContext ∧
      (t'.files = t.files ∨
        t'.files = t.files ++ [s.monitor.fds t'.fileContext.fd])) ∨
    t'.files = [s.monitor.fds t'.fileContext.fd]

/-- Steps of the listening thread, of the watchdog and of the rest of the
process: tasks may come into the pool, and no scan thread writes. -/
theorem Effect.of_others {f : FanotifyMonitor} {s s' : State} {written : List Response}
    {new : List Task} (hdelivered : s'.delivered = s.delivered)
    (hfds : ∀ fd id, s'.monitor.fds fd = some (.event id) →
      s.monitor.fds fd = some (.event id))
    (hlog : s'.monitor.log = s.monitor.log ++ written)
    (hwritten : ∀ r ∈ written, ∀ files, r.writer ≠ .scanThread files)
    (hpool : s'.monitor.threadPool = s.monitor.threadPool ++ new)
    (hnew : ∀ t ∈ new, t.files = [s.monitor.fds t.fileContext.fd]) : Effect f s s' := by
  refine ⟨hdelivered, hfds, ⟨written, hlog, ?_⟩, ?_⟩
  · intro r hr files hwriter
    exact absurd hwriter (hwritten r hr files)
  · intro t ht
    rw [hpool] at ht
    rcases List.mem_append.mp ht with ht | ht
    · exact .inl ⟨t, ht, rfl, .inl rfl⟩
    · exact .inr (hnew t ht)

/-- Steps of a scan thread that write nothing. -/
theorem Effect.of_tasks {f : FanotifyMonitor} {s s' : State}
    (hdelivered : s'.delivered = s.delivered) (hfds : s'.monitor.fds = s.monitor.fds)
    (hlog : s'.monitor.log = s.monitor.log)
    (hpool : ∀ t' ∈ s'.monitor.threadPool, ∃ t ∈ s.monitor.threadPool,
      t'.fileContext = t.fileContext ∧
        (t'.files = t.files ∨ t'.files = t.files ++ [s.monitor.fds t'.fileContext.fd])) :
    Effect f s s' := by
  refine ⟨hdelivered, ?_, ⟨[], by simp [hlog], by simp⟩, fun t' ht => .inl (hpool t' ht)⟩
  intro fd id hopen
  rwa [hfds] at hopen

theorem Effect.unanswered {f : FanotifyMonitor} {s t : State} (h : Effect f s t)
    {e : FanotifyEventMetadata} (he : responses e.id t.monitor.log = 0) :
    responses e.id s.monitor.log = 0 := by
  obtain ⟨written, hlog, -⟩ := h.log
  rw [hlog, responses, List.countP_append] at he
  exact Nat.eq_zero_of_add_eq_zero_right he

theorem Waits.of_effect {f : FanotifyMonitor} {s s' : State} (h : Effect f s s')
    {e : FanotifyEventMetadata} (hw : Waits f s'.monitor.fds s'.monitor.log e) :
    Waits f s.monitor.fds s.monitor.log e :=
  ⟨hw.isPerm, hw.pid, h.fds _ _ hw.fds, h.unanswered hw.responses⟩

/-! ## The listening thread -/

section

variable {f : FanotifyMonitor} {delivered seen todo : List FanotifyEventMetadata}
  {e : FanotifyEventMetadata} {m m' : MonitorState}

theorem Inv.pass1 {malloc : Malloc Nat} {now : Timespec}
    (h : Inv f ⟨.pass1 seen (e :: todo), delivered, m⟩)
    (hm : fanotifyPass1Event f malloc now m e = .ok m') :
    Inv f ⟨.pass1 (seen ++ [e]) todo, delivered, m'⟩ ∧
      Effect f ⟨.pass1 seen (e :: todo), delivered, m⟩
        ⟨.pass1 (seen ++ [e]) todo, delivered, m'⟩ := by
  obtain ⟨l, hq, hcore⟩ := h
  have hlater : seen ++ e :: todo = (seen ++ [e]) ++ todo := by simp
  simp only [Control.todo, Control.later, hlater] at hcore
  unfold fanotifyPass1Event at hm
  split at hm
  · next hperm =>
    split at hm
    · next hpid =>
      cases hm
      refine ⟨⟨l, hq, hcore.writeOwn hperm _ _⟩, ?_⟩
      exact .of_others (s := ⟨_, _, m⟩) rfl (fun _ _ => event_of_update (by simp)) rfl
        (by simp) (List.append_nil _).symm (by simp)
    · next hpid =>
      obtain ⟨queue, rfl, hholds⟩ := watchdogAdd_spec hq hm
      refine ⟨⟨_, hholds, (hcore.add hperm hpid).perm ?_⟩, ?_⟩
      · refine List.perm_iff_count.mpr fun a => ?_
        simp [due, Control.owes, List.count_append, List.count_cons]
        omega
      · exact .of_others rfl (fun _ _ => id) (List.append_nil _).symm (by simp)
          (List.append_nil _).symm (by simp)
  · next hperm =>
    cases hm
    exact ⟨⟨l, hq, hcore.skip hperm⟩, .of_others rfl (fun _ _ => id) (List.append_nil _).symm
      (by simp) (List.append_nil _).symm (by simp)⟩

/-- What the second pass does with an event: take its number out of the
queue, put it into the pool, leave it, or close a notification. -/
theorem fanotifyPass2Event_cases {sys : EventCalls} {due : Bool} {l : List QueueEntry}
    (hq : QueueHolds m.queue l) (h0 : 0 ≤ e.fd)
    (h : fanotifyPass2Event f sys m e = .ok (due, m')) :
    (∃ scanConf queue l', m' = { m with scanConf, queue } ∧ QueueHolds queue l' ∧
      (due = false ∧ l' = l ∨
        due = true ∧
          (l.map fun entry => entry.fd).Perm (e.fd :: l'.map fun entry => entry.fd))) ∨
    (due = false ∧ ∃ scanConf new, m' = { m with scanConf, threadPool := m.threadPool ++ new } ∧
      ∀ t ∈ new, t.owes = none ∧ t.files = [m.fds t.fileContext.fd]) ∨
    (due = false ∧ ¬ e.isPerm ∧ ∃ scanConf,
      m' = { m with scanConf, fds := Function.update m.fds e.fd none }) := by
  have hleave : ∀ {sc : A6oScanConf}, ∃ scanConf new,
      { m with scanConf := sc } =
        { m with scanConf, threadPool := m.threadPool ++ new } ∧
      ∀ t ∈ new, t.owes = none ∧ t.files = [m.fds t.fileContext.fd] :=
    fun {sc} => ⟨sc, [], by simp, by simp⟩
  unfold fanotifyPass2Event at h
  split at h
  · cases h
    exact .inr (.inl ⟨rfl, hleave⟩)
  · split at h
    · unfold fanotifyPermEventProcess at h
      split at h
      · obtain ⟨queue, l', rfl, hrest⟩ := watchdogRemove_spec hq h
        exact .inl ⟨m.scanConf, queue, l', rfl, hrest⟩
      · obtain ⟨⟨ctx, scanConf, report⟩, hget, h⟩ := bind_eq_ok.mp h
        dsimp only at h
        split at h
        · obtain ⟨queue, l', rfl, hrest⟩ := watchdogRemove_spec (s := { m with scanConf }) hq h
          exact .inl ⟨scanConf, queue, l', rfl, hrest⟩
        · cases h
          exact .inr (.inl ⟨rfl, scanConf, [⟨ctx, [m.fds ctx.fd], .queued⟩], rfl,
            by simp [Task.owes]⟩)
    · next hperm =>
      split at h
      · unfold fanotifyNotifyEventProcess at h
        split at h
        · cases h
          exact .inr (.inl ⟨rfl, hleave⟩)
        · obtain ⟨⟨ctx, scanConf, report⟩, hget, h⟩ := bind_eq_ok.mp h
          have hfd := a6oScanContextGet_fd h0 hget
          dsimp only at h
          split at h
          · cases h
            refine .inr (.inr ⟨rfl, hperm, scanConf, ?_⟩)
            rw [a6oScanContextDestroy, hfd, if_neg (by omega)]
          · cases h
            exact .inr (.inl ⟨rfl, scanConf, [⟨ctx, [m.fds ctx.fd], .queued⟩], rfl,
              by simp [Task.owes]⟩)
      · cases h
        exact .inr (.inl ⟨rfl, hleave⟩)

theorem Inv.pass2 {sys : EventCalls} {due : Bool}
    (h : Inv f ⟨.pass2 (e :: todo), delivered, m⟩)
    (hm : fanotifyPass2Event f sys m e = .ok (due, m')) :
    Inv f ⟨if due then .answer e.fd todo else .pass2 todo, delivered, m'⟩ ∧
      Effect f ⟨.pass2 (e :: todo), delivered, m⟩
        ⟨if due then .answer e.fd todo else .pass2 todo, delivered, m'⟩ := by
  obtain ⟨l, hq, hcore⟩ := h
  obtain ⟨he, hopen⟩ := hcore.laterOpen e List.mem_cons_self
  have h0 := hcore.fdNonneg e he
  have hdrop := hcore.dropLater
  rcases fanotifyPass2Event_cases hq h0 hm with
    ⟨scanConf, queue, l', rfl, hholds, ⟨rfl, rfl⟩ | ⟨rfl, hperm⟩⟩ |
    ⟨rfl, scanConf, new, rfl, hnew⟩ | ⟨rfl, hnot, scanConf, rfl⟩
  · exact ⟨⟨l', hholds, hdrop⟩, .of_others rfl (fun _ _ => id) (List.append_nil _).symm
      (by simp) (List.append_nil _).symm (by simp)⟩
  · refine ⟨⟨l', hholds, hdrop.perm ?_⟩, .of_others rfl (fun _ _ => id)
      (List.append_nil _).symm (by simp) (List.append_nil _).symm (by simp)⟩
    refine List.perm_iff_count.mpr fun a => ?_
    have := hperm.count_eq a
    simp only [due, Control.owes, List.count_append, List.count_cons] at this ⊢
    simp only [if_true, List.count_cons, List.count_nil]
    omega
  · refine ⟨⟨l, hq, hdrop.perm ?_⟩, .of_others rfl (fun _ _ => id)
      (List.append_nil _).symm (by simp) rfl fun t ht => (hnew t ht).2⟩
    have : new.filterMap Task.owes = [] :=
      List.filterMap_eq_nil_iff.mpr fun t ht => (hnew t ht).1
    simp [due, Control.owes, List.filterMap_append, this]
  · refine ⟨⟨l, hq, hdrop.setFd (by simp) (by simp [Control.todo]) ?_ ?_⟩,
      .of_others rfl (fun _ _ => event_of_update (by simp)) (List.append_nil _).symm (by simp)
        (List.append_nil _).symm (by simp)⟩
    · -- the other events of the batch have other numbers
      intro e' hmem hnot' heq
      obtain ⟨he', hopen'⟩ := hcore.laterOpen e' (List.mem_cons_of_mem e hmem)
      have := hcore.eq_of_fd_eq he' he (hopen' hnot') (hopen hnot) heq
      have hnodup := hcore.laterNodup
      simp only [Control.later, List.map_cons, List.nodup_cons] at hnodup
      exact hnodup.1 (this ▸ List.mem_map_of_mem hmem)
    · intro e' he' hw heq
      exact hnot (hcore.eq_of_fd_eq he' he hw.fds (hopen hnot) heq ▸ hw.isPerm)

end

/-! ## The scan threads -/

section

variable {f : FanotifyMonitor} {control : Control} {delivered : List FanotifyEventMetadata}
  {m m' : MonitorState} {t t' : Task} {status : A6oFileStatus} {n : Nat}

/-- A task goes on, with nothing taken out of the queue: it starts, reads,
or has its verdict. -/
theorem Inv.setTask (h : Inv f ⟨control, delivered, m⟩) (hget : m.threadPool[n]? = some t)
    (howes : t'.owes = t.owes) (hctx : t'.fileContext = t.fileContext)
    (hfiles : t'.files = t.files ∨ t'.files = t.files ++ [m.fds t'.fileContext.fd]) :
    Inv f (State.setTask ⟨control, delivered, m⟩ n t') ∧
      Effect f ⟨control, delivered, m⟩ (State.setTask ⟨control, delivered, m⟩ n t') := by
  obtain ⟨l, hq, hcore⟩ := h
  obtain ⟨l₁, l₂, hpool, hset, -⟩ := getElem?_split hget
  simp only [hpool] at hset
  refine ⟨⟨l, hq, hcore.perm (.of_eq ?_)⟩, .of_tasks rfl rfl rfl ?_⟩
  · simp [due, State.setTask, hset, hpool, List.filterMap_append, List.filterMap_cons, howes]
  · intro t₁ ht₁
    rcases List.mem_or_eq_of_mem_set ht₁ with ht₁ | rfl
    · exact ⟨t₁, ht₁, rfl, .inl rfl⟩
    · exact ⟨t, List.mem_of_getElem? hget, hctx, hfiles⟩

/-- Whoever takes the number out of the queue now owes the answer. -/
theorem Inv.remove (hf : f.enablePermission = true) (h : Inv f ⟨control, delivered, m⟩)
    (hget : m.threadPool[n]? = some t) (howes : t.owes = none)
    (hm : scanFileThreadRemove f m n t status = .ok m') :
    Inv f ⟨control, delivered, m'⟩ ∧
      Effect f ⟨control, delivered, m⟩ ⟨control, delivered, m'⟩ := by
  obtain ⟨l, hq, hcore⟩ := h
  obtain ⟨l₁, l₂, hpool, hset, herase⟩ := getElem?_split hget
  have hmem : t ∈ m.threadPool := List.mem_of_getElem? hget
  rw [hpool] at herase
  simp only [hpool] at hset
  rw [scanFileThreadRemove, if_pos hf] at hm
  obtain ⟨⟨due', s⟩, hremove, hm⟩ := bind_eq_ok.mp hm
  obtain ⟨queue, l', rfl, hholds, ⟨rfl, rfl⟩ | ⟨rfl, hperm⟩⟩ := watchdogRemove_spec hq hremove
  · -- the number is not in the queue: the task ends without a response
    cases hm
    refine ⟨⟨l', hholds, hcore.perm (.of_eq ?_)⟩, .of_tasks rfl rfl rfl ?_⟩
    · simp [due, hpool, herase, List.filterMap_append, howes]
    · intro t₁ ht₁
      exact ⟨t₁, List.mem_of_mem_eraseIdx ht₁, rfl, .inl rfl⟩
  · cases hm
    refine ⟨⟨l', hholds, hcore.perm ?_⟩, .of_tasks rfl rfl rfl ?_⟩
    · refine List.perm_iff_count.mpr fun a => ?_
      have := hperm.count_eq a
      have howes' : Task.owes { t with progress := .removed status } = some t.fileContext.fd :=
        rfl
      simp only [due, hpool, hset, howes, howes', List.filterMap_append,
        List.filterMap_cons, List.count_append, List.count_cons] at this ⊢
      omega
    · intro t₁ ht₁
      rcases List.mem_or_eq_of_mem_set ht₁ with ht₁ | rfl
      · exact ⟨t₁, ht₁, rfl, .inl rfl⟩
      · exact ⟨t, hmem, rfl, .inl rfl⟩

theorem Inv.answer (h : Inv f ⟨control, delivered, m⟩) (hget : m.threadPool[n]? = some t)
    (howes : t.owes = some t.fileContext.fd) :
    Inv f ⟨control, delivered, scanFileThreadAnswer m n t status⟩ ∧
      Effect f ⟨control, delivered, m⟩
        ⟨control, delivered, scanFileThreadAnswer m n t status⟩ := by
  obtain ⟨l, hq, hcore⟩ := h
  obtain ⟨l₁, l₂, hpool, -, herase⟩ := getElem?_split hget
  rw [hpool] at herase
  refine ⟨⟨l, hq, Core.write (hcore.perm ?_) _ _⟩, rfl, fun _ _ => event_of_update (by simp),
    ⟨_, rfl, ?_⟩, ?_⟩
  · refine List.perm_iff_count.mpr fun a => ?_
    simp only [due, scanFileThreadAnswer, responseWrite, hpool, herase, howes,
      List.filterMap_append, List.filterMap_cons, List.count_append, List.count_cons]
    omega
  · intro r hr files hwriter
    obtain rfl := List.mem_singleton.mp hr
    cases hwriter
    exact ⟨t, List.mem_of_getElem? hget, rfl, howes, rfl⟩
  · intro t₁ ht₁
    exact .inl ⟨t₁, List.mem_of_mem_eraseIdx ht₁, rfl, .inl rfl⟩

theorem Inv.pass2Answer {fd : Int} {todo : List FanotifyEventMetadata}
    (h : Inv f ⟨.answer fd todo, delivered, m⟩) :
    Inv f ⟨.pass2 todo, delivered, responseWrite m .listener fd .allow⟩ ∧
      Effect f ⟨.answer fd todo, delivered, m⟩
        ⟨.pass2 todo, delivered, responseWrite m .listener fd .allow⟩ := by
  obtain ⟨l, hq, hcore⟩ := h
  refine ⟨⟨l, hq, Core.write (hcore.perm ?_) _ _⟩, .of_others rfl
    (fun _ _ => event_of_update (by simp)) rfl (by simp) (List.append_nil _).symm (by simp)⟩
  refine List.perm_iff_count.mpr fun a => ?_
  simp only [due, responseWrite, Control.owes, List.count_append, List.count_cons]
  omega

/-- The listening thread moves on without touching the monitor. -/
theorem Inv.move {control' : Control} (h : Inv f ⟨control, delivered, m⟩)
    (htodo : control'.todo = control.todo) (hlater : control'.later = control.later)
    (howes : control'.owes = control.owes) :
    Inv f ⟨control', delivered, m⟩ ∧
      Effect f ⟨control, delivered, m⟩ ⟨control', delivered, m⟩ := by
  obtain ⟨l, hq, hcore⟩ := h
  refine ⟨⟨l, hq, ?_⟩, .of_others rfl (fun _ _ => id) (List.append_nil _).symm (by simp)
    (List.append_nil _).symm (by simp)⟩
  simp only [due, htodo, hlater, howes] at hcore ⊢
  exact hcore

/-! ## The watchdog -/

theorem Inv.timeout {before : Timespec} (h : Inv f ⟨control, delivered, m⟩)
    (hnone : m.popEntries = []) (hm : watchdogThreadPop m before = .ok m') :
    Inv f ⟨control, delivered, m'⟩ ∧
      Effect f ⟨control, delivered, m⟩ ⟨control, delivered, m'⟩ := by
  obtain ⟨l, hq, hcore⟩ := h
  obtain ⟨queue, popEntries, l', rfl, hholds, hperm⟩ := watchdogThreadPop_spec hq hm
  refine ⟨⟨l', hholds, hcore.perm ?_⟩, .of_others rfl (fun _ _ => id)
    (List.append_nil _).symm (by simp) (List.append_nil _).symm (by simp)⟩
  refine List.perm_iff_count.mpr fun a => ?_
  have := (hperm.map fun entry => entry.fd).count_eq a
  simp only [due, hnone, List.map_append, List.map_nil, List.count_append, List.count_nil]
    at this ⊢
  omega

theorem Inv.timeoutAnswer {entry : QueueEntry} {popEntries : List QueueEntry}
    (h : Inv f ⟨control, delivered, m⟩) (hpop : m.popEntries = entry :: popEntries) :
    Inv f ⟨control, delivered,
        responseWrite { m with popEntries } .watchdog entry.fd .allow⟩ ∧
      Effect f ⟨control, delivered, m⟩ ⟨control, delivered,
        responseWrite { m with popEntries } .watchdog entry.fd .allow⟩ := by
  obtain ⟨l, hq, hcore⟩ := h
  refine ⟨⟨l, hq, Core.write (hcore.perm ?_) _ _⟩, .of_others rfl
    (fun _ _ => event_of_update (by simp)) rfl (by simp) (List.append_nil _).symm (by simp)⟩
  refine List.perm_iff_count.mpr fun a => ?_
  simp only [due, responseWrite, hpop, List.map_cons, List.count_append, List.count_cons]
  omega

/-! ## The kernel -/

theorem Inv.osUpdate {fd : Int} {d : Option Descriptor} (h : Inv f ⟨control, delivered, m⟩)
    (hold : ∀ id, m.fds fd ≠ some (.event id)) (hd : ∀ id, d ≠ some (.event id)) :
    Inv f ⟨control, delivered, { m with fds := Function.update m.fds fd d }⟩ ∧
      Effect f ⟨control, delivered, m⟩
        ⟨control, delivered, { m with fds := Function.update m.fds fd d }⟩ := by
  obtain ⟨l, hq, hcore⟩ := h
  have hne : ∀ {e : FanotifyEventMetadata}, m.fds e.fd = some (.event e.id) → e.fd ≠ fd := by
    rintro e hopen rfl
    exact hold e.id hopen
  refine ⟨⟨l, hq, hcore.setFd hd ?_ ?_ ?_⟩, .of_others rfl (fun _ _ => event_of_update hd)
    (List.append_nil _).symm (by simp) (List.append_nil _).symm (by simp)⟩
  · exact fun e he => hne (hcore.todoOpen e he).2.1
  · exact fun e he hnot => hne ((hcore.laterOpen e he).2 hnot)
  · exact fun e _ hw => hne hw.fds

theorem Inv.read {buf : List FanotifyEventMetadata} (h : Inv f ⟨.idle, delivered, m⟩)
    (hfresh : FreshBatch ⟨.idle, delivered, m⟩ buf) :
    Inv f ⟨.pass1 [] buf, delivered ++ buf, { m with fds := openBatch m.fds buf }⟩ := by
  obtain ⟨l, hq, hcore⟩ := h
  exact ⟨l, hq, hcore.read hfresh.1 hfresh.2.1 hfresh.2.2⟩

end

/-! ## Every step -/

variable {f : FanotifyMonitor}

theorem withMonitor_eq_some {s s' : State} {x : Except Fault MonitorState} :
    s.withMonitor x = some s' ↔ ∃ m, x = .ok m ∧ s' = { s with monitor := m } := by
  cases x <;> simp [State.withMonitor, eq_comm]

section

variable {s s' : State} {n : Nat}

theorem pass1_effect {malloc : Malloc Nat} {now : Timespec} (h : Inv f s)
    (hstep : step f s (.pass1 malloc now) = some s') : Inv f s' ∧ Effect f s s' := by
  obtain ⟨control, delivered, m⟩ := s
  simp only [step] at hstep
  split at hstep
  · obtain ⟨m', hm, rfl⟩ := withMonitor_eq_some.mp hstep
    exact h.pass1 hm
  · cases hstep

theorem pass2_effect {sys : EventCalls} (h : Inv f s)
    (hstep : step f s (.pass2 sys) = some s') : Inv f s' ∧ Effect f s s' := by
  obtain ⟨control, delivered, m⟩ := s
  simp only [step] at hstep
  split at hstep
  · split at hstep
    · next hm =>
      cases hstep
      exact h.pass2 hm
    · cases hstep
  · cases hstep

theorem scanStart_effect (h : Inv f s) (hstep : step f s (.scanStart n) = some s') :
    Inv f s' ∧ Effect f s s' := by
  obtain ⟨control, delivered, m⟩ := s
  simp only [step] at hstep
  split at hstep
  · next ctx files hget =>
    cases hstep
    exact h.setTask hget rfl rfl (.inl rfl)
  · cases hstep

theorem scanRead_effect (h : Inv f s) (hstep : step f s (.scanRead n) = some s') :
    Inv f s' ∧ Effect f s s' := by
  obtain ⟨control, delivered, m⟩ := s
  simp only [step] at hstep
  split at hstep
  · next ctx files hget =>
    cases hstep
    exact h.setTask hget rfl rfl (.inr rfl)
  · cases hstep

theorem scan_effect {calls : ScanCalls} (h : Inv f s)
    (hstep : step f s (.scan n calls) = some s') : Inv f s' ∧ Effect f s s' := by
  obtain ⟨control, delivered, m⟩ := s
  simp only [step] at hstep
  split at hstep
  · next ctx files hget =>
    split at hstep
    · next t' hscan =>
      obtain ⟨run, -, hrun⟩ := bind_eq_ok.mp hscan
      cases hrun
      cases hstep
      exact h.setTask hget rfl rfl (.inl rfl)
    · cases hstep
  · cases hstep

theorem remove_effect (hf : f.enablePermission = true) (h : Inv f s)
    (hstep : step f s (.remove n) = some s') : Inv f s' ∧ Effect f s s' := by
  obtain ⟨control, delivered, m⟩ := s
  simp only [step] at hstep
  split at hstep
  · next ctx files status hget =>
    obtain ⟨m', hm, rfl⟩ := withMonitor_eq_some.mp hstep
    exact h.remove hf hget rfl hm
  · cases hstep

theorem answer_effect (h : Inv f s) (hstep : step f s (.answer n) = some s') :
    Inv f s' ∧ Effect f s s' := by
  obtain ⟨control, delivered, m⟩ := s
  simp only [step] at hstep
  split at hstep
  · next ctx files status hget =>
    cases hstep
    exact h.answer hget rfl
  · cases hstep

theorem timeout_effect {before : Timespec} (h : Inv f s)
    (hstep : step f s (.timeout before) = some s') : Inv f s' ∧ Effect f s s' := by
  obtain ⟨control, delivered, m⟩ := s
  simp only [step] at hstep
  split at hstep
  · next hnone =>
    obtain ⟨m', hm, rfl⟩ := withMonitor_eq_some.mp hstep
    exact h.timeout hnone hm
  · cases hstep

theorem timeoutAnswer_effect (h : Inv f s) (hstep : step f s .timeoutAnswer = some s') :
    Inv f s' ∧ Effect f s s' := by
  obtain ⟨control, delivered, m⟩ := s
  simp only [step] at hstep
  split at hstep
  · next entry popEntries hpop =>
    cases hstep
    exact h.timeoutAnswer hpop
  · cases hstep

/-- The steps of the listening thread that leave the monitor alone. -/
theorem move_effect {a : Label} (ha : a = .pass1Done ∨ a = .pass2Done) (h : Inv f s)
    (hstep : step f s a = some s') : Inv f s' ∧ Effect f s s' := by
  obtain ⟨control, delivered, m⟩ := s
  rcases ha with rfl | rfl
  · simp only [step] at hstep
    split at hstep
    · cases hstep
      exact h.move rfl (List.append_nil _).symm rfl
    · cases hstep
  · simp only [step] at hstep
    split at hstep
    · cases hstep
      exact h.move rfl rfl rfl
    · cases hstep

theorem pass2Answer_effect (h : Inv f s) (hstep : step f s .pass2Answer = some s') :
    Inv f s' ∧ Effect f s s' := by
  obtain ⟨control, delivered, m⟩ := s
  simp only [step] at hstep
  split at hstep
  · cases hstep
    exact h.pass2Answer
  · cases hstep

/-- The rest of the process opens or closes a descriptor of its own. -/
theorem os_effect {a : Label} {fd : Int} (ha : a = .osOpen fd ∨ a = .osClose fd) (h : Inv f s)
    (hstep : step f s a = some s') : Inv f s' ∧ Effect f s s' := by
  obtain ⟨control, delivered, m⟩ := s
  rcases ha with rfl | rfl
  · simp only [step] at hstep
    split at hstep
    · next hfree =>
      cases hstep
      exact h.osUpdate (by simp [hfree]) (by simp)
    · cases hstep
  · simp only [step] at hstep
    split at hstep
    · next hother =>
      cases hstep
      exact h.osUpdate (by simp [hother]) (by simp)
    · cases hstep

end

theorem step_effect (hf : f.enablePermission = true) {s s' : State} {a : Label}
    (h : Inv f s) (hstep : step f s a = some s') (hread : ∀ buf, a ≠ .read buf) :
    Inv f s' ∧ Effect f s s' := by
  cases a with
  | read buf => exact absurd rfl (hread buf)
  | pass1 malloc now => exact pass1_effect h hstep
  | pass1Done => exact move_effect (.inl rfl) h hstep
  | pass2 sys => exact pass2_effect h hstep
  | pass2Answer => exact pass2Answer_effect h hstep
  | pass2Done => exact move_effect (.inr rfl) h hstep
  | scanStart n => exact scanStart_effect h hstep
  | scanRead n => exact scanRead_effect h hstep
  | scan n calls => exact scan_effect h hstep
  | remove n => exact remove_effect hf h hstep
  | answer n => exact answer_effect h hstep
  | timeout before => exact timeout_effect h hstep
  | timeoutAnswer => exact timeoutAnswer_effect h hstep
  | osOpen fd => exact os_effect (.inl rfl) h hstep
  | osClose fd => exact os_effect (.inr rfl) h hstep

theorem step_read {s s' : State} {buf : List FanotifyEventMetadata}
    (hstep : step f s (.read buf) = some s') :
    s.control = .idle ∧ FreshBatch s buf ∧
      s' = ⟨.pass1 [] buf, s.delivered ++ buf,
        { s.monitor with fds := openBatch s.monitor.fds buf }⟩ := by
  simp only [step] at hstep
  split at hstep
  · next hidle =>
    split at hstep
    · next hfresh =>
      cases hstep
      exact ⟨hidle, hfresh, rfl⟩
    · cases hstep
  · cases hstep

theorem step_inv (hf : f.enablePermission = true) (s : State) (a : Label) (s' : State)
    (h : Inv f s) (hstep : step f s a = some s') : Inv f s' := by
  by_cases hread : ∀ buf, a ≠ .read buf
  · exact (step_effect hf h hstep hread).1
  · push Not at hread
    obtain ⟨buf, rfl⟩ := hread
    obtain ⟨hidle, hfresh, rfl⟩ := step_read hstep
    obtain ⟨control, delivered, m⟩ := s
    obtain rfl : control = .idle := hidle
    exact h.read hfresh

theorem start_inv {s : State} (h : IsStart s) : Inv f s := by
  obtain ⟨hidle, hdel, hqueue, hpop, hpool, hlog, hfds⟩ := h
  refine ⟨[], hqueue ▸ queueNew_holds, ?_⟩
  rw [hidle, hdel, hlog]
  constructor <;> simp [due, hidle, hpop, hpool, hfds, Control.todo, Control.later,
    Control.owes, responses]

theorem run_inv (hf : f.enablePermission = true) {s s' : State} {labels : List Label}
    (hs : IsStart s) (h : Transition.run (step f) s labels = some s') : Inv f s' :=
  Transition.run_invariant (P := Inv f) (step_inv hf) labels s s' (start_inv hs) h

/-! ## How often an event is answered -/

/-- The first pass has not come to the event, or its answer is due. -/
def InProgress (s : State) (e : FanotifyEventMetadata) : Prop :=
  e ∈ s.control.todo ∨ ∃ l, QueueHolds s.monitor.queue l ∧ e.fd ∈ due s l

/-- No permission event is answered twice, and none is left out. -/
theorem Inv.answeredOnce {s : State} (h : Inv f s) {e : FanotifyEventMetadata}
    (he : e ∈ s.delivered) (hperm : e.isPerm) :
    responses e.id s.monitor.log ≤ 1 ∧
      (¬ InProgress s e → responses e.id s.monitor.log = 1) := by
  obtain ⟨l, hq, hcore⟩ := h
  rcases hcore.settled e he hperm with htodo | ⟨hdue, hw⟩ | hone
  · rw [(hcore.todoOpen e htodo).2.2.1]
    exact ⟨Nat.zero_le 1, fun hdone => absurd (.inl htodo) hdone⟩
  · rw [hw.responses]
    exact ⟨Nat.zero_le 1, fun hdone => absurd (.inr ⟨l, hq, hdue⟩) hdone⟩
  · rw [hone]
    exact ⟨Nat.le_refl 1, fun _ => rfl⟩

/-! ## Every event can be answered -/

/-- One above every address in use. -/
def nextAddr : Malloc Nat where
  addr h := h.keys.foldr max 0 + 1
  fresh h := by
    have hle : ∀ (l : List Nat), ∀ a ∈ l, a ≤ l.foldr max 0 := by
      intro l
      induction l with
      | nil => simp
      | cons b l ih =>
        intro a ha
        rcases List.mem_cons.mp ha with rfl | ha
        · exact Nat.le_max_left _ _
        · exact Nat.le_trans (ih a ha) (Nat.le_max_right _ _)
    intro hmem
    have := hle _ _ (AList.mem_keys.mp hmem)
    omega

/-- What is left to do: events before the first pass, and events without an
answer. -/
def left (s : State) : Nat :=
  s.control.todo.length +
    s.delivered.countP fun e => decide (e.isPerm ∧ responses e.id s.monitor.log = 0)

theorem countP_lt {α : Type} {p q : α → Bool} {l : List α} {a : α}
    (h : ∀ x ∈ l, p x = true → q x = true) (ha : a ∈ l) (hq : q a = true) (hp : p a = false) :
    l.countP p < l.countP q := by
  obtain ⟨l₁, l₂, rfl⟩ := List.append_of_mem ha
  have h₁ : l₁.countP p ≤ l₁.countP q :=
    List.countP_mono_left fun x hx => h x (List.mem_append_left _ hx)
  have h₂ : l₂.countP p ≤ l₂.countP q :=
    List.countP_mono_left fun x hx => h x (List.mem_append_right _ (List.mem_cons_of_mem a hx))
  rw [List.countP_append, List.countP_append, List.countP_cons, List.countP_cons, hq, hp]
  simp only [if_true, Bool.false_eq_true, if_false]
  omega

theorem left_le {s t : State} (h : Effect f s t)
    (htodo : t.control.todo.length ≤ s.control.todo.length) : left t ≤ left s := by
  unfold left
  rw [h.delivered]
  refine Nat.add_le_add htodo (List.countP_mono_left fun e _ he => ?_)
  simp only [decide_eq_true_eq] at he ⊢
  exact ⟨he.1, h.unanswered he.2⟩

theorem left_lt_of_todo {s t : State} (h : Effect f s t)
    (htodo : t.control.todo.length < s.control.todo.length) : left t < left s := by
  unfold left
  rw [h.delivered]
  refine Nat.add_lt_add_of_lt_of_le htodo (List.countP_mono_left fun e _ he => ?_)
  simp only [decide_eq_true_eq] at he ⊢
  exact ⟨he.1, h.unanswered he.2⟩

/-- An event that waited has its answer. -/
theorem left_lt_of_answer {s t : State} (h : Effect f s t)
    (htodo : t.control.todo = s.control.todo) {e : FanotifyEventMetadata}
    (he : e ∈ s.delivered) (hw : Waits f s.monitor.fds s.monitor.log e) {fd : Int}
    (hfd : e.fd = fd) {writer : Writer} {r : FanResponse}
    (hlog : t.monitor.log = s.monitor.log ++ [⟨writer, s.monitor.fds fd, r⟩]) :
    left t < left s := by
  subst hfd
  unfold left
  rw [h.delivered, htodo]
  refine Nat.add_lt_add_left (countP_lt (fun e _ he => ?_) he ?_ ?_) _
  · simp only [decide_eq_true_eq] at he ⊢
    exact ⟨he.1, h.unanswered he.2⟩
  · simp [hw.isPerm, hw.responses]
  · have hone : responses e.id t.monitor.log = 1 := by
      rw [hlog, responses_append, hw.responses, if_pos hw.fds]
    simp [hone]

theorem pass1_progress (hf : f.enablePermission = true) {s : State} (h : Inv f s)
    {seen todo : List FanotifyEventMetadata} {e : FanotifyEventMetadata}
    (hcontrol : s.control = .pass1 seen (e :: todo)) :
    ∃ a t, step f s a = some t ∧ (∀ buf, a ≠ .read buf) ∧ left t < left s := by
  obtain ⟨m, hm⟩ : ∃ m, fanotifyPass1Event f nextAddr ⟨0, 0⟩ s.monitor e = .ok m := by
    unfold fanotifyPass1Event
    split
    · split
      · exact ⟨_, rfl⟩
      · obtain ⟨l, hq, -⟩ := h
        obtain ⟨q, hpush, -⟩ := queuePush_holds hq nextAddr e.fd ⟨0, 0⟩
        exact ⟨{ s.monitor with queue := q }, by rw [watchdogAdd, hpush]; rfl⟩
    · exact ⟨_, rfl⟩
  have hstep : step f s (.pass1 nextAddr ⟨0, 0⟩)
      = some { s with control := .pass1 (seen ++ [e]) todo, monitor := m } := by
    simp only [step, hcontrol, hm]
    rfl
  refine ⟨_, _, hstep, by simp, ?_⟩
  refine left_lt_of_todo (step_effect hf h hstep (by simp)).2 ?_
  rw [hcontrol]
  exact Nat.lt_succ_self _

theorem timeoutAnswer_progress (hf : f.enablePermission = true) {s : State} (h : Inv f s)
    {entry : QueueEntry} {rest : List QueueEntry} (hpop : s.monitor.popEntries = entry :: rest) :
    ∃ t, step f s .timeoutAnswer = some t ∧ left t < left s := by
  have hstep : step f s .timeoutAnswer = some { s with
      monitor :=
        responseWrite { s.monitor with popEntries := rest } .watchdog entry.fd .allow } := by
    simp only [step, hpop]
  refine ⟨_, hstep, ?_⟩
  obtain ⟨l, -, hcore⟩ := id h
  obtain ⟨e, he, hfd, hw⟩ := hcore.dueWaits entry.fd (by simp [due, hpop])
  exact left_lt_of_answer (step_effect hf h hstep (by simp)).2 rfl he hw hfd rfl

/-- The watchdog takes out what has waited as long as the oldest entry. -/
theorem timeout_progress (hf : f.enablePermission = true) {s : State} (h : Inv f s)
    {entry : QueueEntry} {l : List QueueEntry} (hq : QueueHolds s.monitor.queue (entry :: l))
    (hpop : s.monitor.popEntries = []) :
    ∃ before t, Transition.run (step f) s [.timeout before, .timeoutAnswer] = some t ∧
      left t < left s := by
  obtain ⟨q, htimeout, -⟩ := queuePopTimeout_holds hq entry.timestamp nFd
  have hdue : isDue entry.timestamp entry = true := by simp [isDue, stampCmp]
  have hstep : step f s (.timeout entry.timestamp) = some { s with
      monitor := { s.monitor with
        queue := q
        popEntries := (takeFirst (isDue entry.timestamp) nFd (entry :: l)).1 } } := by
    simp only [step, hpop, watchdogThreadPop, htimeout]
    rfl
  obtain ⟨hinv, heffect⟩ := step_effect hf h hstep (by simp)
  have htake : (takeFirst (isDue entry.timestamp) nFd (entry :: l)).1 =
      entry :: (takeFirst (isDue entry.timestamp) 99 l).1 := by
    show (takeFirst (isDue entry.timestamp) (99 + 1) (entry :: l)).1 = _
    rw [takeFirst, if_pos hdue]
  obtain ⟨t, ht, hlt⟩ := timeoutAnswer_progress hf hinv htake
  refine ⟨entry.timestamp, t, ?_, Nat.lt_of_lt_of_le hlt (left_le heffect (Nat.le_refl _))⟩
  rw [Transition.run_cons_eq_some]
  exact ⟨_, hstep, Transition.run_cons_eq_some.mpr ⟨t, ht, rfl⟩⟩

theorem Task.owes_eq_some {t : Task} {fd : Int} (h : t.owes = some fd) :
    t.fileContext.fd = fd ∧ ∃ status, t.progress = .removed status := by
  obtain ⟨ctx, files, progress⟩ := t
  cases progress <;> simp_all [Task.owes]

/-- A scan thread that has taken the number out can answer. -/
theorem answer_progress (hf : f.enablePermission = true) {s : State} (h : Inv f s)
    {t : Task} (ht : t ∈ s.monitor.threadPool) {e : FanotifyEventMetadata}
    (he : e ∈ s.delivered) (hw : Waits f s.monitor.fds s.monitor.log e)
    (howes : t.owes = some e.fd) :
    ∃ n s', step f s (.answer n) = some s' ∧ left s' < left s := by
  obtain ⟨n, hn⟩ := List.mem_iff_getElem?.mp ht
  obtain ⟨hfd, status, hprogress⟩ := Task.owes_eq_some howes
  obtain ⟨ctx, files, progress⟩ := t
  obtain rfl : progress = .removed status := hprogress
  have hstep : step f s (.answer n) = some { s with
      monitor := scanFileThreadAnswer s.monitor n ⟨ctx, files, .removed status⟩ status } := by
    simp only [step, hn]
  exact ⟨n, _, hstep,
    left_lt_of_answer (step_effect hf h hstep (by simp)).2 rfl he hw hfd.symm rfl⟩

/-- The listening thread that has taken the number out can answer. -/
theorem pass2Answer_progress (hf : f.enablePermission = true) {s : State} (h : Inv f s)
    {e : FanotifyEventMetadata} (howes : e.fd ∈ s.control.owes) (he : e ∈ s.delivered)
    (hw : Waits f s.monitor.fds s.monitor.log e) :
    ∃ t, step f s .pass2Answer = some t ∧ left t < left s := by
  cases hc : s.control with
  | answer fd todo =>
    rw [hc] at howes
    have hstep : step f s .pass2Answer = some { s with
        control := .pass2 todo
        monitor := responseWrite s.monitor .listener fd .allow } := by
      simp only [step, hc]
    exact ⟨_, hstep, left_lt_of_answer (step_effect hf h hstep (by simp)).2
      (by rw [hc]; rfl) he hw (List.mem_singleton.mp howes) rfl⟩
  | idle =>
    rw [hc] at howes
    cases howes
  | pass1 seen todo =>
    rw [hc] at howes
    cases howes
  | pass2 todo =>
    rw [hc] at howes
    cases howes

theorem exists_pass1_of_todo {control : Control} {e : FanotifyEventMetadata}
    {todo : List FanotifyEventMetadata} (h : control.todo = e :: todo) :
    ∃ seen, control = .pass1 seen (e :: todo) := by
  cases control with
  | pass1 seen rest =>
    obtain rfl : rest = e :: todo := h
    exact ⟨seen, rfl⟩
  | idle => cases h
  | pass2 rest => cases h
  | answer fd rest => cases h

/-- While something is left to do, something can be done about it. -/
theorem Inv.progress (hf : f.enablePermission = true) {s : State} (h : Inv f s)
    (hleft : 0 < left s) : ∃ labels t, Transition.run (step f) s labels = some t ∧
      (∀ a ∈ labels, ∀ buf, a ≠ .read buf) ∧ left t < left s := by
  have hone : ∀ {a : Label} {t : State}, step f s a = some t → (∀ buf, a ≠ .read buf) →
      left t < left s → ∃ labels t, Transition.run (step f) s labels = some t ∧
        (∀ a ∈ labels, ∀ buf, a ≠ .read buf) ∧ left t < left s := by
    intro a t hstep hread hlt
    refine ⟨[a], t, Transition.run_cons_eq_some.mpr ⟨t, hstep, rfl⟩, ?_, hlt⟩
    intro b hb
    rw [List.mem_singleton.mp hb]
    exact hread
  obtain ⟨l, hq, hcore⟩ := id h
  rcases htodo : s.control.todo with _ | ⟨e, todo⟩
  · -- an event has no answer yet, so somebody owes it
    have hcount : 0 < s.delivered.countP fun e =>
        decide (e.isPerm ∧ responses e.id s.monitor.log = 0) := by
      rw [left, htodo] at hleft
      simpa using hleft
    obtain ⟨e, he, hnone⟩ := List.countP_pos_iff.mp hcount
    simp only [decide_eq_true_eq] at hnone
    rcases hcore.settled e he hnone.1 with hmem | ⟨hdue, hw⟩ | hans
    · rw [htodo] at hmem
      cases hmem
    · cases hpop : s.monitor.popEntries with
      | cons entry rest =>
        obtain ⟨t, ht, hlt⟩ := timeoutAnswer_progress hf h hpop
        exact hone ht (by simp) hlt
      | nil =>
        simp only [due, hpop, List.map_nil, List.append_nil, List.mem_append] at hdue
        rcases hdue with (hqueue | hpool) | hcontrol
        · obtain ⟨entry, l', rfl⟩ : ∃ entry l', l = entry :: l' := by
            cases l with
            | nil => cases hqueue
            | cons entry l' => exact ⟨entry, l', rfl⟩
          obtain ⟨before, t, ht, hlt⟩ := timeout_progress hf h hq hpop
          exact ⟨_, t, ht, by simp, hlt⟩
        · obtain ⟨task, htask, howes⟩ := List.mem_filterMap.mp hpool
          obtain ⟨n, t, ht, hlt⟩ := answer_progress hf h htask he hw howes
          exact hone ht (by simp) hlt
        · obtain ⟨t, ht, hlt⟩ := pass2Answer_progress hf h hcontrol he hw
          exact hone ht (by simp) hlt
    · rw [hnone.2] at hans
      cases hans
  · obtain ⟨seen, hcontrol⟩ := exists_pass1_of_todo htodo
    obtain ⟨a, t, ht, hread, hlt⟩ := pass1_progress hf h hcontrol
    exact hone ht hread hlt

theorem run_delivered (hf : f.enablePermission = true) (labels : List Label) :
    ∀ {s t : State}, Inv f s → (∀ a ∈ labels, ∀ buf, a ≠ .read buf) →
      Transition.run (step f) s labels = some t → Inv f t ∧ t.delivered = s.delivered := by
  induction labels with
  | nil =>
    intro s t h _ hrun
    cases hrun
    exact ⟨h, rfl⟩
  | cons a labels ih =>
    intro s t h hread hrun
    obtain ⟨s₁, hstep, hrun⟩ := Transition.run_cons_eq_some.mp hrun
    obtain ⟨hinv, heffect⟩ := step_effect hf h hstep (hread a List.mem_cons_self)
    obtain ⟨hinv', hdel⟩ := ih hinv (fun b hb => hread b (List.mem_cons_of_mem a hb)) hrun
    exact ⟨hinv', hdel.trans heffect.delivered⟩

/-- **Every event can be answered**, without another event being read. -/
theorem exists_answers (hf : f.enablePermission = true) (n : Nat) :
    ∀ s, left s ≤ n → Inv f s → ∃ labels t, Transition.run (step f) s labels = some t ∧
      t.delivered = s.delivered ∧
      ∀ e ∈ t.delivered, e.isPerm → responses e.id t.monitor.log = 1 := by
  have hdone : ∀ s, left s = 0 → Inv f s →
      ∀ e ∈ s.delivered, e.isPerm → responses e.id s.monitor.log = 1 := by
    intro s hzero h e he hperm
    have hle := (h.answeredOnce he hperm).1
    have hcount := Nat.eq_zero_of_add_eq_zero_left hzero
    have hne : ¬ responses e.id s.monitor.log = 0 := by
      intro hnone
      have := List.countP_eq_zero.mp hcount e he
      simp [hperm, hnone] at this
    omega
  induction n with
  | zero =>
    intro s hle h
    exact ⟨[], s, rfl, rfl, hdone s (Nat.le_zero.mp hle) h⟩
  | succ n ih =>
    intro s hle h
    by_cases hzero : left s = 0
    · exact ⟨[], s, rfl, rfl, hdone s hzero h⟩
    · obtain ⟨labels, t, hrun, hread, hlt⟩ := h.progress hf (Nat.pos_of_ne_zero hzero)
      obtain ⟨hinv, hdel⟩ := run_delivered hf labels h hread hrun
      obtain ⟨labels', t', hrun', hdel', hone⟩ := ih t (by omega) hinv
      refine ⟨labels ++ labels', t', ?_, hdel'.trans hdel, hone⟩
      rw [Transition.run_append, hrun]
      exact hrun'

/-- **Every permission event is answered once**, in every run: never twice,
and what is in progress can be brought to its answer. -/
theorem run_answers (hf : f.enablePermission = true) {s s' : State} {labels : List Label}
    (hs : IsStart s) (h : Transition.run (step f) s labels = some s') :
    (∀ e ∈ s'.delivered, e.isPerm →
      responses e.id s'.monitor.log ≤ 1 ∧
        (¬ InProgress s' e → responses e.id s'.monitor.log = 1)) ∧
    ∃ labels' t, Transition.run (step f) s' labels' = some t ∧
      t.delivered = s'.delivered ∧
      ∀ e ∈ t.delivered, e.isPerm → responses e.id t.monitor.log = 1 := by
  have hinv : Inv f s' := run_inv hf hs h
  exact ⟨fun e he hperm => hinv.answeredOnce he hperm,
    exists_answers hf (left s') s' (Nat.le_refl _) hinv⟩

end Armadito.OnAccess.Watchdog
