import Armadito.OnAccess.Actions

/-!
# OnAccess.Answers

Every permission event is answered once, and denied only on the verdict of
its own scan: each step of the monitor keeps the invariant of
`OnAccess.Protocol`, and the invariant fixes the whole history of an event.
-/

namespace Armadito.OnAccess

open Armadito.Core

variable {f : FanotifyMonitor} {m m' : MonitorState} {e : FanotifyEventMetadata}
  {delivered : List FanotifyEventMetadata}

/-! ## The steps -/

theorem id_ne_of_owed {l₁ l₂ : List FanotifyEventMetadata}
    (h : ((l₁ ++ e :: l₂).map fun e => e.id).Nodup) :
    ∀ e' ∈ l₁ ++ l₂, e'.id ≠ e.id := by
  rw [List.map_append, List.map_cons, List.nodup_middle] at h
  intro e' he' hid
  refine (List.nodup_cons.mp h).1 ?_
  rw [← List.map_append, ← hid]
  exact List.mem_map_of_mem he'

/-- A queued or scanned event has a history, an owed one has none. -/
theorem taskHistory_ne_nil (id : Nat) (v : Option (A6oFileStatus × Option A6oReport)) :
    taskHistory id v ≠ [] := by
  cases v <;> simp [taskHistory]

theorem Untouched.not_holds {t : Task} (hu : Untouched m e) {e' : FanotifyEventMetadata}
    (h : Holds m t e') : t.fileContext.fd ≠ e.fd := by
  intro hfd
  rw [h.fd] at hfd
  have hid : e'.id = e.id := by
    have := h.fds
    rw [hfd, hu.fds] at this
    injection this with this
    injection this with this
    exact this.symm
  have := h.history
  rw [hid, hu.history] at this
  exact taskHistory_ne_nil _ _ this.symm

section Owed

variable {l₁ l₂ : List FanotifyEventMetadata}

/-- The step takes an event off the owed ones and puts it into the thread
pool (`new`) or answers it. -/
theorem Inv.settle (h : Inv f (l₁ ++ e :: l₂) delivered m) {acts : List Action}
    (new : Option Task) (hacts : ∀ a ∈ acts, a.target = some (.event e.id))
    (hpool : m'.threadPool = m.threadPool ++ new.toList) (hlog : m'.log = m.log ++ acts)
    (hfds : m'.fds = m.fds ∨ m'.fds = Function.update m.fds e.fd none)
    (hnew : ∀ t ∈ new, e.pid ≠ f.myPid ∧ Holds m' t e)
    (hans : e.isPerm → new.isSome ∨ Answered f e acts) :
    Inv f (l₁ ++ l₂) delivered m' := by
  obtain ⟨he, huntouched⟩ := h.owedMem e (by simp)
  have hgone := id_ne_of_owed h.owedNodup
  -- an owed event is untouched, so no task has its number
  have hpoolFd : ∀ t ∈ m.threadPool, t.fileContext.fd ≠ e.fd := by
    intro t ht
    obtain ⟨e', -, -, hholds⟩ := h.pool t ht
    exact huntouched.not_holds hholds
  have hhistory : history e.id m'.log = acts := by
    rw [hlog, history_append, huntouched.history, history_self hacts, List.nil_append]
  have hsame := SameElsewhere.of_log (onlyAbout_self hacts) hlog hfds
  refine h.update he huntouched.fds hsame ?_ hgone ?_ ?_ ?_ ?_ ?_
  · exact List.Sublist.append_left (List.sublist_cons_self e l₂) l₁
  · intro e' he' hid
    have : e' ≠ e := fun heq => hid (by rw [heq])
    simpa [this] using he'
  · intro t ht
    rw [hpool] at ht
    rcases List.mem_append.mp ht with ht | ht
    · exact .inl ⟨ht, hpoolFd t ht⟩
    · exact .inr (hnew t (Option.mem_toList.mp ht))
  · intro t ht _
    rw [hpool]
    exact List.mem_append_left _ ht
  · rw [hpool]
    cases new with
    | none => simpa using h.poolNodup
    | some t =>
      have htfd : t.fileContext.fd = e.fd := (hnew t rfl).2.fd
      rw [List.map_append, List.nodup_append]
      refine ⟨h.poolNodup, by simp, ?_⟩
      intro a ha b hb
      obtain ⟨u, hu, rfl⟩ := List.mem_map.mp ha
      simp only [Option.toList_some, List.map_cons, List.map_nil, List.mem_singleton] at hb
      rw [hb, htfd]
      exact hpoolFd u hu
  · intro hperm
    rw [hhistory]
    rcases hans hperm with hsome | hans
    · obtain ⟨t, rfl⟩ := Option.isSome_iff_exists.mp hsome
      exact .inl ⟨t, by simp [hpool], (hnew t rfl).2⟩
    · exact .inr hans

/-- An iteration of the first pass: the daemon's own event is answered, the
others stay owed. -/
theorem Inv.pass1 {seen todo : List FanotifyEventMetadata}
    (h : Inv f (owed f (.pass1 seen (e :: todo))) delivered m) :
    Inv f (owed f (.pass1 (seen ++ [e]) todo)) delivered (fanotifyPass1Event f m e) := by
  have hsplit : owed f (.pass1 seen (e :: todo)) =
      (seen.filter fun e => e.pid ≠ f.myPid) ++ e :: todo := rfl
  by_cases hpid : e.pid = f.myPid
  · have howed : owed f (.pass1 (seen ++ [e]) todo) =
        (seen.filter fun e => e.pid ≠ f.myPid) ++ todo := by
      simp [owed, hpid]
    rw [howed, fanotifyPass1Event]
    rw [hsplit] at h
    by_cases hperm : e.isPerm
    · obtain ⟨-, huntouched⟩ := h.owedMem e (by simp)
      rw [if_pos hperm, if_pos hpid, responseWrite_eq huntouched.fds]
      exact h.settle none (by simp [Action.target]) (by simp) rfl (.inr rfl)
        (by simp) fun _ => .inr .allowed
    · rw [if_neg hperm]
      refine h.drop (List.Sublist.append_left (List.sublist_cons_self e todo) _) ?_
      intro e' he' hperm'
      have : e' ≠ e := fun heq => hperm (heq ▸ hperm')
      simpa [this] using he'
  · have howed : owed f (.pass1 (seen ++ [e]) todo) = owed f (.pass1 seen (e :: todo)) := by
      simp [owed, hpid]
    have hsame : fanotifyPass1Event f m e = m := by
      simp [fanotifyPass1Event, hpid, watchdogAdd]
    rw [howed, hsame]
    exact h

/-- An iteration of the second pass. -/
theorem Inv.pass2 {todo : List FanotifyEventMetadata} {sys : EventCalls}
    (h : Inv f (owed f (.pass2 (e :: todo))) delivered m)
    (hm : fanotifyPass2Event f sys m e = .ok m') :
    Inv f (owed f (.pass2 todo)) delivered m' := by
  by_cases hpid : e.pid = f.myPid
  · rw [fanotifyPass2Event, if_pos hpid] at hm
    cases hm
    have : owed f (.pass2 (e :: todo)) = owed f (.pass2 todo) := by simp [owed, hpid]
    rwa [this] at h
  · have howed : owed f (.pass2 (e :: todo)) = [] ++ e :: owed f (.pass2 todo) := by
      simp [owed, hpid]
    rw [howed] at h
    obtain ⟨he, huntouched⟩ := h.owedMem e (by simp)
    -- it is left alone, answered at once, or queued
    rcases fanotifyPass2Event_cases hpid (h.fdNonneg e he) huntouched.fds hm with
      ⟨hperm, rfl⟩ | ⟨scanConf, acts, rfl, hacts⟩ | ⟨scanConf, ctx, hctx, rfl⟩
    · refine h.drop (List.sublist_cons_self e _) ?_
      intro e' he' hperm'
      have : e' ≠ e := fun heq => hperm (heq ▸ hperm')
      simpa [this] using he'
    · refine h.settle none ?_ (by simp) rfl (.inr rfl) (by simp) ?_
      · rcases hacts with rfl | ⟨-, rfl⟩ <;> simp [Action.target]
      · intro hperm
        rcases hacts with rfl | ⟨hnot, -⟩
        · exact .inr .allowed
        · exact absurd hperm hnot
    · have hpush : ∀ a ∈ [Action.threadPoolPush (some (.event e.id))],
          a.target = some (.event e.id) := by
        simp [Action.target]
      refine h.settle (some ⟨ctx, none⟩) hpush rfl rfl (.inl rfl) ?_ (by simp)
      intro t ht
      cases ht
      refine ⟨hpid, hctx, huntouched.fds, ?_⟩
      rw [history_append, huntouched.history]
      exact history_self hpush

end Owed

section ThreadPool

variable {t : Task} {a b : List Task} {owed : List FanotifyEventMetadata}

/-- The step replaces a task of the thread pool by its next state (`new`),
or takes it out of the pool and answers its event. -/
theorem Inv.advance (h : Inv f owed delivered m) {acts : List Action} (new : Option Task)
    (he : e ∈ delivered) (hpid : e.pid ≠ f.myPid) (hholds : Holds m t e)
    (hpool : m.threadPool = a ++ t :: b) (hpool' : m'.threadPool = a ++ (new.toList ++ b))
    (honly : OnlyAbout e acts) (hlog : m'.log = m.log ++ acts)
    (hfds : m'.fds = m.fds ∨ m'.fds = Function.update m.fds e.fd none)
    (hnew : ∀ t' ∈ new, Holds m' t' e)
    (hans : e.isPerm → new.isSome ∨ Answered f e (history e.id m'.log)) :
    Inv f owed delivered m' := by
  have hnodup := h.poolNodup
  rw [hpool, List.map_append, List.map_cons, List.nodup_middle] at hnodup
  -- the numbers tell the tasks apart
  have hother : ∀ u ∈ a ++ b, u.fileContext.fd ≠ e.fd := by
    intro u hu heq
    refine (List.nodup_cons.mp hnodup).1 ?_
    rw [← List.map_append, hholds.fd, ← heq]
    exact List.mem_map_of_mem (f := fun t : Task => t.fileContext.fd) hu
  have hrest := (List.nodup_cons.mp hnodup).2
  rw [← List.map_append] at hrest
  refine h.update he hholds.fds (.of_log honly hlog hfds) (List.Sublist.refl owed) ?_
    (fun e' he' _ => he') ?_ ?_ ?_ ?_
  · intro e' he' hid
    obtain ⟨hdel, huntouched⟩ := h.owedMem e' he'
    have heq : e' = e := h.eq_of_id_eq hdel he hid
    rw [heq] at huntouched
    exact huntouched.not_holds hholds hholds.fd
  · intro u hu
    rw [hpool', List.mem_append, List.mem_append, Option.mem_toList] at hu
    by_cases hnew' : u ∈ new
    · exact .inr ⟨hpid, hnew u hnew'⟩
    · have hu' : u ∈ a ++ b := by
        rw [List.mem_append]
        tauto
      refine .inl ⟨?_, hother u hu'⟩
      rw [hpool]
      rcases List.mem_append.mp hu' with hu | hu <;> simp [hu]
  · intro u hu hne
    rw [hpool, List.mem_append, List.mem_cons] at hu
    rw [hpool', List.mem_append, List.mem_append]
    rcases hu with hu | rfl | hu
    · exact .inl hu
    · exact absurd hholds.fd hne
    · exact .inr (.inr hu)
  · rw [hpool']
    cases new with
    | none => exact hrest
    | some t' =>
      have hfd' : t'.fileContext.fd = t.fileContext.fd := by
        rw [(hnew t' rfl).fd, hholds.fd]
      rw [Option.toList_some, List.singleton_append, List.map_append, List.map_cons,
        List.nodup_middle, hfd']
      exact hnodup
  · intro hperm
    refine (hans hperm).imp_left fun hsome => ?_
    obtain ⟨t', rfl⟩ := Option.isSome_iff_exists.mp hsome
    exact ⟨t', by simp [hpool'], hnew t' rfl⟩

/-- A scan in the thread pool comes to its end. -/
theorem Inv.scan (h : Inv f owed delivered m) {ctx : A6oScanContext} {calls : ScanCalls}
    {task : Task} {acts : List Action} (hpool : m.threadPool = a ++ ⟨ctx, none⟩ :: b)
    (hscan : scanFileThreadScan calls m ctx = .ok (task, acts)) :
    Inv f owed delivered
      { m with threadPool := a ++ task :: b, log := m.log ++ acts } := by
  obtain ⟨run, -, hscan⟩ := bind_eq_ok.mp hscan
  cases hscan
  obtain ⟨e, he, hpid, hholds⟩ := h.pool ⟨ctx, none⟩ (by simp [hpool])
  have htarget : m.fds ctx.fd = some (.event e.id) := by
    have hctx : ctx.fd = e.fd := hholds.fd
    rw [hctx, hholds.fds]
  have hacts : ∀ x ∈ [Action.scanned (m.fds ctx.fd) run.status],
      x.target = some (.event e.id) := by
    simp [Action.target, htarget]
  refine h.advance (some ⟨ctx, some (run.status, run.report)⟩) he hpid hholds hpool
    (by simp) (onlyAbout_self hacts) rfl (.inl rfl) ?_ (by simp)
  intro t' ht'
  cases ht'
  refine ⟨hholds.fd, hholds.fds, ?_⟩
  show history e.id (m.log ++ _) = _
  rw [history_append, hholds.history, history_self hacts, htarget]
  rfl

/-- A scan thread answers and ends. -/
theorem Inv.answer (hf : f.enablePermission = true) (h : Inv f owed delivered m)
    {ctx : A6oScanContext} {status : A6oFileStatus} {report : Option A6oReport}
    (hpool : m.threadPool = a ++ ⟨ctx, some (status, report)⟩ :: b) :
    Inv f owed delivered
      (scanFileThreadAnswer f { m with threadPool := a ++ b } ctx status report) := by
  obtain ⟨e, he, hpid, hholds⟩ := h.pool ⟨ctx, some (status, report)⟩ (by simp [hpool])
  obtain ⟨events, htarget, heq⟩ := scanFileThreadAnswer_eq (m := { m with threadPool := a ++ b })
    hf hholds.fds hholds.fd status report
  have hacts : ∀ x ∈ [Action.responseWrite (some (.event e.id)) (fanResponse status),
      .close (some (.event e.id))], x.target = some (.event e.id) := by
    simp [Action.target]
  rw [heq]
  refine h.advance none he hpid hholds hpool rfl (onlyAbout_of_target hacts htarget)
    rfl (.inr rfl) (by simp) fun _ => .inr ?_
  show Answered f e (history e.id (m.log ++ _))
  rw [history_append, hholds.history, history_own hacts htarget]
  exact .scanned status hpid

end ThreadPool

section Read

variable {fds : Int → Option Descriptor} {buf : List FanotifyEventMetadata}

theorem openBatch_mem (hbuf : (buf.map fun e => e.fd).Nodup) (he : e ∈ buf) :
    openBatch fds buf e.fd = some (.event e.id) := by
  unfold openBatch
  split
  · next e' hfind =>
    have hmem := List.mem_of_find?_eq_some hfind
    have hfd : e'.fd = e.fd := by simpa using List.find?_some hfind
    rw [List.inj_on_of_nodup_map hbuf hmem he hfd]
  · next hnone =>
    have := List.find?_eq_none.mp hnone e he
    simp at this

theorem openBatch_cases {fd : Int} {d : Descriptor} (h : openBatch fds buf fd = some d) :
    (∃ e ∈ buf, e.fd = fd ∧ d = .event e.id) ∨ fds fd = some d := by
  unfold openBatch at h
  split at h
  · next e' hfind =>
    have hfd : e'.fd = fd := by simpa using List.find?_some hfind
    cases h
    exact .inl ⟨e', List.mem_of_find?_eq_some hfind, hfd, rfl⟩
  · exact .inr h

/-- When the descriptors of events are those of the events read so far, this
goes on with the batch. -/
theorem openBatch_delivered {delivered : List FanotifyEventMetadata}
    (htable : ∀ fd id, fds fd = some (.event id) → ∃ e ∈ delivered, e.id = id ∧ e.fd = fd) :
    ∀ fd id, openBatch fds buf fd = some (.event id) →
      ∃ e ∈ delivered ++ buf, e.id = id ∧ e.fd = fd := by
  intro fd id hopen
  rcases openBatch_cases hopen with ⟨e, he, rfl, heq⟩ | hold
  · injection heq with heq
    exact ⟨e, List.mem_append_right _ he, heq.symm, rfl⟩
  · obtain ⟨e, he, hrest⟩ := htable fd id hold
    exact ⟨e, List.mem_append_left _ he, hrest⟩

/-- Descriptors in use stay as they are. -/
theorem openBatch_inUse {fd : Int} {d : Descriptor} (hbuf : ∀ e ∈ buf, fds e.fd = none)
    (h : fds fd = some d) : openBatch fds buf fd = some d := by
  unfold openBatch
  split
  · next e' hfind =>
    have hfd : e'.fd = fd := by simpa using List.find?_some hfind
    have := hbuf e' (List.mem_of_find?_eq_some hfind)
    rw [hfd, h] at this
    cases this
  · exact h

/-- A number that is closed, or opened for something else, refers to no event. -/
theorem event_of_update {fd : Int} {d : Option Descriptor} (hd : ∀ id, d ≠ some (.event id))
    {fd' : Int} {id : Nat} (h : Function.update fds fd d fd' = some (.event id)) :
    fds fd' = some (.event id) := by
  by_cases heq : fd' = fd
  · rw [heq, Function.update_self] at h
    exact absurd h (hd id)
  · rwa [Function.update_of_ne heq] at h

/-- A batch is read: its events are owed. -/
theorem Inv.read {s : State} (h : Inv f [] s.delivered s.monitor)
    (hfresh : FreshBatch s buf) :
    Inv f (owed f (.pass1 [] buf)) (s.delivered ++ buf)
      { s.monitor with fds := openBatch s.monitor.fds buf } := by
  obtain ⟨hfd, hid, hfree⟩ := hfresh
  have howed : owed f (.pass1 [] buf) = buf := rfl
  have hnew : ∀ e ∈ buf, ∀ e' ∈ s.delivered, e'.id ≠ e.id := by
    intro e he e' he'
    rw [List.map_append, List.nodup_append] at hid
    exact hid.2.2 _ (List.mem_map_of_mem he') _ (List.mem_map_of_mem he)
  -- the kernel gives out free numbers only, so nothing that is held changes
  have huse : ∀ {fd : Int} {d : Descriptor}, s.monitor.fds fd = some d →
      openBatch s.monitor.fds buf fd = some d :=
    openBatch_inUse fun e he => (hfree e he).2
  have hholds : ∀ {t : Task} {e : FanotifyEventMetadata}, Holds s.monitor t e →
      Holds { s.monitor with fds := openBatch s.monitor.fds buf } t e :=
    fun hh => ⟨hh.fd, huse hh.fds, hh.history⟩
  rw [howed]
  constructor
  case table => exact openBatch_delivered h.table
  case unread =>
    intro id hunread
    exact h.unread id fun e he => hunread e (List.mem_append_left _ he)
  case ids => exact hid
  case fdNonneg =>
    intro e he
    rcases List.mem_append.mp he with he | he
    · exact h.fdNonneg e he
    · exact (hfree e he).1
  case owedMem =>
    intro e he
    exact ⟨List.mem_append_right _ he, openBatch_mem hfd he, h.unread e.id (hnew e he)⟩
  case owedNodup =>
    rw [List.map_append, List.nodup_append] at hid
    exact hid.2.1
  case pool =>
    intro t ht
    obtain ⟨e, he, hpid, hh⟩ := h.pool t ht
    exact ⟨e, List.mem_append_left _ he, hpid, hholds hh⟩
  case poolNodup => exact h.poolNodup
  case settled =>
    intro e he hperm
    rcases List.mem_append.mp he with he | he
    · rcases h.settled e he hperm with hnil | ⟨t, ht, hh⟩ | hans
      · cases hnil
      · exact .inr (.inl ⟨t, ht, hholds hh⟩)
      · exact .inr (.inr hans)
    · exact .inl he

/-- The rest of the process opens or closes a descriptor that is not an
event's. -/
theorem Inv.osUpdate {owed : List FanotifyEventMetadata} (h : Inv f owed delivered m)
    {fd : Int} {d : Option Descriptor} (hbefore : ∀ id, m.fds fd ≠ some (.event id))
    (hafter : ∀ id, d ≠ some (.event id)) :
    Inv f owed delivered { m with fds := Function.update m.fds fd d } := by
  -- no event has this number, before or after
  have huse : ∀ {fd' : Int} {id : Nat}, m.fds fd' = some (.event id) →
      Function.update m.fds fd d fd' = some (.event id) := by
    intro fd' id hfd'
    have hne : fd' ≠ fd := fun heq => hbefore id (heq ▸ hfd')
    rw [Function.update_of_ne hne, hfd']
  have hholds : ∀ {t : Task} {e : FanotifyEventMetadata}, Holds m t e →
      Holds { m with fds := Function.update m.fds fd d } t e :=
    fun hh => ⟨hh.fd, huse hh.fds, hh.history⟩
  refine { h with table := ?_, owedMem := ?_, pool := ?_, settled := ?_ }
  · exact fun fd' id hfd' => h.table fd' id (event_of_update hafter hfd')
  · intro e he
    obtain ⟨hdel, huntouched⟩ := h.owedMem e he
    exact ⟨hdel, huse huntouched.fds, huntouched.history⟩
  · intro t ht
    obtain ⟨e, he, hpid, hh⟩ := h.pool t ht
    exact ⟨e, he, hpid, hholds hh⟩
  · intro e he hperm
    rcases h.settled e he hperm with howes | ⟨t, ht, hh⟩ | hans
    · exact .inl howes
    · exact .inr (.inl ⟨t, ht, hholds hh⟩)
    · exact .inr (.inr hans)

end Read

/-! ## Every step, every run -/

theorem getElem?_split {α : Type} {l : List α} {n : Nat} {x : α} (h : l[n]? = some x) :
    ∃ a b, l = a ++ x :: b ∧ (∀ y, l.set n y = a ++ y :: b) ∧ l.eraseIdx n = a ++ b := by
  obtain ⟨hn, hx⟩ := List.getElem?_eq_some_iff.mp h
  refine ⟨l.take n, l.drop (n + 1), ?_, ?_, List.eraseIdx_eq_take_drop_succ l n⟩
  · rw [← hx, List.getElem_cons_drop, List.take_append_drop]
  · intro y
    rw [List.set_eq_take_append_cons_drop, if_pos hn]

/-- The steps of the monitor. -/
inductive Stepped (f : FanotifyMonitor) (s : State) : Label → State → Prop where
  | read {buf : List FanotifyEventMetadata} (hcontrol : s.control = .idle)
      (hfresh : FreshBatch s buf) :
      Stepped f s (.read buf)
        { control := .pass1 [] buf
          delivered := s.delivered ++ buf
          monitor := { s.monitor with fds := openBatch s.monitor.fds buf } }
  | pass1 {seen todo : List FanotifyEventMetadata} {e : FanotifyEventMetadata}
      (hcontrol : s.control = .pass1 seen (e :: todo)) :
      Stepped f s .pass1
        { s with
          control := .pass1 (seen ++ [e]) todo
          monitor := fanotifyPass1Event f s.monitor e }
  | pass1Done {seen : List FanotifyEventMetadata} (hcontrol : s.control = .pass1 seen []) :
      Stepped f s .pass1Done { s with control := .pass2 seen }
  | pass2 {sys : EventCalls} {todo : List FanotifyEventMetadata} {e : FanotifyEventMetadata}
      {m : MonitorState} (hcontrol : s.control = .pass2 (e :: todo))
      (hm : fanotifyPass2Event f sys s.monitor e = .ok m) :
      Stepped f s (.pass2 sys) { s with control := .pass2 todo, monitor := m }
  | pass2Done (hcontrol : s.control = .pass2 []) :
      Stepped f s .pass2Done { s with control := .idle }
  | scan {n : Nat} {calls : ScanCalls} {a b : List Task} {ctx : A6oScanContext} {task : Task}
      {acts : List Action} (hget : s.monitor.threadPool[n]? = some ⟨ctx, none⟩)
      (hpool : s.monitor.threadPool = a ++ ⟨ctx, none⟩ :: b)
      (hscan : scanFileThreadScan calls s.monitor ctx = .ok (task, acts)) :
      Stepped f s (.scan n calls)
        { s with monitor := { s.monitor with
            threadPool := a ++ task :: b
            log := s.monitor.log ++ acts } }
  | answer {n : Nat} {a b : List Task} {ctx : A6oScanContext} {status : A6oFileStatus}
      {report : Option A6oReport}
      (hget : s.monitor.threadPool[n]? = some ⟨ctx, some (status, report)⟩)
      (hpool : s.monitor.threadPool = a ++ ⟨ctx, some (status, report)⟩ :: b) :
      Stepped f s (.answer n)
        { s with monitor :=
            scanFileThreadAnswer f { s.monitor with threadPool := a ++ b } ctx status report }
  | osOpen {fd : Int} (hfree : s.monitor.fds fd = none) :
      Stepped f s (.osOpen fd)
        { s with monitor := { s.monitor with
            fds := Function.update s.monitor.fds fd (some .other) } }
  | osClose {fd : Int} (hother : s.monitor.fds fd = some .other) :
      Stepped f s (.osClose fd)
        { s with monitor := { s.monitor with
            fds := Function.update s.monitor.fds fd none } }

theorem step_cases {s s' : State} {label : Label} (h : step f s label = some s') :
    Stepped f s label s' := by
  cases label with
  | read buf =>
    simp only [step] at h
    split at h
    · next hidle =>
      split at h
      · next hfresh =>
        cases h
        exact .read hidle hfresh
      · cases h
    · cases h
  | pass1 =>
    simp only [step] at h
    split at h
    · next seen e todo hcontrol =>
      cases h
      exact .pass1 hcontrol
    · cases h
  | pass1Done =>
    simp only [step] at h
    split at h
    · next seen hcontrol =>
      cases h
      exact .pass1Done hcontrol
    · cases h
  | pass2 sys =>
    simp only [step] at h
    split at h
    · next e todo hcontrol =>
      split at h
      · next m hm =>
        cases h
        exact .pass2 hcontrol hm
      · cases h
    · cases h
  | pass2Done =>
    simp only [step] at h
    split at h
    · next hcontrol =>
      cases h
      exact .pass2Done hcontrol
    · cases h
  | scan n calls =>
    simp only [step] at h
    split at h
    · next ctx hget =>
      obtain ⟨a, b, hpool, hset, -⟩ := getElem?_split hget
      split at h
      · next task acts hscan =>
        cases h
        rw [hset]
        exact .scan hget hpool hscan
      · cases h
    · cases h
  | answer n =>
    simp only [step] at h
    split at h
    · next ctx status report hget =>
      obtain ⟨a, b, hpool, -, herase⟩ := getElem?_split hget
      cases h
      rw [herase]
      exact .answer hget hpool
    · cases h
  | osOpen fd =>
    simp only [step] at h
    split at h
    · next hfree =>
      cases h
      exact .osOpen hfree
    · cases h
  | osClose fd =>
    simp only [step] at h
    split at h
    · next hother =>
      cases h
      exact .osClose hother
    · cases h

theorem step_inv (hf : f.enablePermission = true) (s : State) (a : Label) (s' : State)
    (h : Inv f (owed f s.control) s.delivered s.monitor) (hstep : step f s a = some s') :
    Inv f (owed f s'.control) s'.delivered s'.monitor := by
  cases step_cases hstep with
  | read hcontrol hfresh =>
    rw [hcontrol] at h
    exact h.read hfresh
  | pass1 hcontrol =>
    rw [hcontrol] at h
    exact h.pass1
  | pass1Done hcontrol =>
    rw [hcontrol] at h
    simpa [owed] using h
  | pass2 hcontrol hm =>
    rw [hcontrol] at h
    exact h.pass2 hm
  | pass2Done hcontrol =>
    rw [hcontrol] at h
    simpa [owed] using h
  | scan _ hpool hscan => exact h.scan hpool hscan
  | answer _ hpool => exact h.answer hf hpool
  | osOpen hfree => exact h.osUpdate (by simp [hfree]) (by simp)
  | osClose hother => exact h.osUpdate (by simp [hother]) (by simp)

theorem start_inv {s : State} (h : IsStart s) :
    Inv f (owed f s.control) s.delivered s.monitor := by
  obtain ⟨hidle, hdel, hpool, hlog, hfds⟩ := h
  rw [hidle, hdel]
  constructor <;> simp [owed, hpool, hlog, hfds, history]

theorem run_inv (hf : f.enablePermission = true) {s s' : State} {labels : List Label}
    (hs : IsStart s) (h : Transition.run (step f) s labels = some s') :
    Inv f (owed f s'.control) s'.delivered s'.monitor :=
  Transition.run_invariant (P := fun s => Inv f (owed f s.control) s.delivered s.monitor)
    (step_inv hf) labels s s' (start_inv hs) h

/-! ## The answers -/

/-- The answers given to an event. -/
def responses (id : Nat) (log : List Action) : List FanResponse :=
  log.filterMap fun
    | .responseWrite target r => if target = some (.event id) then some r else none
    | _ => none

/-- How often an event's descriptor was closed. -/
def closes (id : Nat) (log : List Action) : Nat :=
  log.count (.close (some (.event id)))

/-- The batch that is in the two passes. -/
def batch : Control → List FanotifyEventMetadata
  | .idle => []
  | .pass1 seen todo => seen ++ todo
  | .pass2 todo => todo

/-- The event is still being dealt with: it is of the batch in the two
passes, or a scan thread holds its descriptor. -/
def InProgress (s : State) (e : FanotifyEventMetadata) : Prop :=
  e ∈ batch s.control ∨
  ∃ t ∈ s.monitor.threadPool, s.monitor.fds t.fileContext.fd = some (.event e.id)

theorem mem_batch_of_owed {c : Control} (h : e ∈ owed f c) : e ∈ batch c := by
  cases c with
  | idle => cases h
  | pass1 seen todo =>
    rcases List.mem_append.mp h with h | h
    · exact List.mem_append_left _ (List.mem_filter.mp h).1
    · exact List.mem_append_right _ h
  | pass2 todo => exact (List.mem_filter.mp h).1

theorem responses_history (id : Nat) (log : List Action) :
    responses id (history id log) = responses id log := by
  rw [responses, history, List.filterMap_filter, responses]
  refine List.filterMap_congr fun a _ => ?_
  cases a with
  | responseWrite target r =>
    by_cases h : target = some (.event id) <;> simp [Action.target, h]
  | _ => simp

theorem closes_history (id : Nat) (log : List Action) :
    closes id (history id log) = closes id log :=
  List.count_filter (by simp [Action.target])

theorem mem_history {id : Nat} {log : List Action} {a : Action}
    (ha : a.target = some (.event id)) : a ∈ history id log ↔ a ∈ log := by
  simp [history, ha]

/-- Where a permission event stands is read off its history. -/
theorem Inv.history_cases {owed : List FanotifyEventMetadata} (h : Inv f owed delivered m)
    (he : e ∈ delivered) (hperm : e.isPerm) :
    (e ∈ owed ∧ history e.id m.log = []) ∨
    (∃ t ∈ m.threadPool, m.fds t.fileContext.fd = some (.event e.id) ∧
      history e.id m.log = taskHistory e.id t.verdict) ∨
    Answered f e (history e.id m.log) := by
  rcases h.settled e he hperm with howes | ⟨t, ht, hh⟩ | hans
  · exact .inl ⟨howes, (h.owedMem e howes).2.history⟩
  · exact .inr (.inl ⟨t, ht, by rw [hh.fd, hh.fds], hh.history⟩)
  · exact .inr (.inr hans)

/-- **Every permission event is answered once, and denied only for malware
in its own file.** In every run of the monitor with the permission mode
enabled, a permission event is never answered or closed twice; once it is
no longer in progress it has been answered and closed exactly once; and the
answer is a denial exactly when the event is not the daemon's own, its file
was queued and the scan of that file found malware. -/
theorem permEvent_answered_once {s s' : State} {labels : List Label}
    (hf : f.enablePermission = true) (hs : IsStart s)
    (hrun : Transition.run (step f) s labels = some s')
    (he : e ∈ s'.delivered) (hperm : e.isPerm) :
    (responses e.id s'.monitor.log).length ≤ 1 ∧
    closes e.id s'.monitor.log ≤ 1 ∧
    (¬ InProgress s' e → (responses e.id s'.monitor.log).length = 1 ∧
      closes e.id s'.monitor.log = 1) ∧
    ∀ r ∈ responses e.id s'.monitor.log, (r = .deny ↔
      e.pid ≠ f.myPid ∧ .threadPoolPush (some (.event e.id)) ∈ s'.monitor.log ∧
        .scanned (some (.event e.id)) .malware ∈ s'.monitor.log) := by
  have hinv := run_inv hf hs hrun
  have hpush : Action.threadPoolPush (some (.event e.id)) ∈ history e.id s'.monitor.log ↔ _ :=
    mem_history rfl
  have hscanned : Action.scanned (some (.event e.id)) .malware ∈
      history e.id s'.monitor.log ↔ _ := mem_history rfl
  rw [← responses_history, ← closes_history, ← hpush, ← hscanned]
  -- owed and queued events are in progress; the history of an answered one is fixed
  rcases hinv.history_cases he hperm with ⟨howes, hh⟩ | ⟨t, ht, hfd, hh⟩ | hans
  · refine ⟨by simp [hh, responses], by simp [hh, closes], ?_, by simp [hh, responses]⟩
    exact fun hdone => absurd (.inl (mem_batch_of_owed howes)) hdone
  · have hnone : responses e.id (taskHistory e.id t.verdict) = [] ∧
        closes e.id (taskHistory e.id t.verdict) = 0 := by
      cases t.verdict <;> simp [taskHistory, responses, closes]
    rw [hh, hnone.1, hnone.2]
    exact ⟨by simp, by simp, fun hdone => absurd (.inr ⟨t, ht, hfd⟩) hdone, by simp⟩
  · generalize history e.id s'.monitor.log = acts at hans
    cases hans with
    | allowed => simp [responses, closes]
    | scanned status hpid =>
      cases status <;> simp [responses, closes, fanResponse, hpid]

/-! ## A file with malware in it -/

/-- One module, that detects every file. -/
def malwareConf : A6oScanConf :=
  { mimeTypes := ["*".toList]
    modules := [{ name := "m".toList, status := .ok, supportedMimeTypes := some ["*".toList],
                  scanFun := some fun _ _ _ => (.malware, some "virus".toList) }]
    mimeTypeCache := []
    directoriesWhiteList := [] }

/-- A file that is about to be opened. -/
def malwareEvent : FanotifyEventMetadata :=
  { id := 0, mask := fanOpenPerm, fd := 5, pid := 200 }

/-- No event has come. -/
def malwareStart : State :=
  { control := .idle, delivered := []
    monitor := { fds := fun _ => none, scanConf := malwareConf, threadPool := [], log := [] } }

/-- The file can be read, and is text. -/
def malwareCalls : EventCalls :=
  { fstat := fun _ => some true
    readlink := fun _ => some "/tmp/x".toList
    file := { osOpen := fun _ => -1, osMimeTypeGuessFd := fun _ => some "text/plain".toList }
    malloc := contextInit 0 }

/-- The event is read, scanned and answered. -/
def malwareRun : List Label :=
  [.read [malwareEvent], .pass1, .pass1Done, .pass2 malwareCalls, .pass2Done,
    .scan 0 { seekOk := fun _ => true, answer := fun _ _ _ _ => (.malware, some "virus".toList) },
    .answer 0]

theorem permEvent_malware_denied :
    ∃ s', Transition.run (step ⟨true, 100⟩) malwareStart malwareRun = some s' ∧
      responses 0 s'.monitor.log = [.deny] ∧
      (responses 0 s'.monitor.log).length ≤ 1 ∧
      closes 0 s'.monitor.log ≤ 1 ∧
      (¬ InProgress s' malwareEvent → (responses 0 s'.monitor.log).length = 1 ∧
        closes 0 s'.monitor.log = 1) ∧
      ∀ r ∈ responses 0 s'.monitor.log, (r = .deny ↔
        malwareEvent.pid ≠ 100 ∧ .threadPoolPush (some (.event 0)) ∈ s'.monitor.log ∧
          .scanned (some (.event 0)) .malware ∈ s'.monitor.log) := by
  have hstart : IsStart malwareStart := ⟨rfl, rfl, rfl, rfl, fun _ _ h => by cases h⟩
  obtain ⟨s', hrun⟩ : ∃ s', Transition.run (step ⟨true, 100⟩) malwareStart malwareRun = some s' :=
    ⟨_, rfl⟩
  have hlog : (Transition.run (step ⟨true, 100⟩) malwareStart malwareRun).map
      (fun s => responses 0 s.monitor.log) = some [.deny] := rfl
  have hdelivered : (Transition.run (step ⟨true, 100⟩) malwareStart malwareRun).map
      (fun s => s.delivered) = some [malwareEvent] := rfl
  rw [hrun, Option.map_some, Option.some.injEq] at hlog hdelivered
  have hmem : malwareEvent ∈ s'.delivered := by
    rw [hdelivered]
    exact List.mem_singleton_self malwareEvent
  have hperm : malwareEvent.isPerm := by decide
  exact ⟨s', hrun, hlog, permEvent_answered_once rfl hstart hrun hmem hperm⟩

end Armadito.OnAccess
