import Armadito.OnAccess.Answers
import Armadito.OnAccess.Watchdog

/-!
# OnAccess.WatchdogAnswers

Who answers which event when the watchdog is compiled in.

A number that is due (in the queue, in the watchdog's array, or taken out
by a thread that is about to answer) refers to one permission event that
has no answer yet. Every answer takes a number off the due ones and closes
it, so no event is answered twice, whoever answers.

A scan thread holds on to its number after the event was answered for it.
When the kernel gives the number to a new event, the thread takes the new
event out of the queue.
-/

namespace Armadito.OnAccess.Watchdog

open Armadito.Core DoublyLinked

/-! ## Responses to an event -/

/-- How many responses were written for the event. -/
def responses (id : Nat) (log : List Response) : Nat :=
  log.countP fun r => r.target = some (.event id)

theorem responses_append (id : Nat) (log : List Response) (r : Response) :
    responses id (log ++ [r])
      = responses id log + if r.target = some (.event id) then 1 else 0 := by
  by_cases h : r.target = some (.event id) <;> simp [responses, h]

/-- A permission event of another process that has no answer yet, with its
descriptor open. -/
structure Waits (f : FanotifyMonitor) (fds : Int → Option Descriptor) (log : List Response)
    (e : FanotifyEventMetadata) : Prop where
  isPerm : e.isPerm
  pid : e.pid ≠ f.myPid
  fds : fds e.fd = some (.event e.id)
  responses : responses e.id log = 0

/-! ## The invariant -/

/-- `todo` is what is left to the first pass, `later` what is left to the
second, `due` the numbers whose answer somebody owes. -/
structure Core (f : FanotifyMonitor) (fds : Int → Option Descriptor) (log : List Response)
    (delivered todo later : List FanotifyEventMetadata) (due : List Int) : Prop where
  table : ∀ fd id, fds fd = some (.event id) → ∃ e ∈ delivered, e.id = id ∧ e.fd = fd
  ids : (delivered.map fun e => e.id).Nodup
  fdNonneg : ∀ e ∈ delivered, 0 ≤ e.fd
  unread : ∀ id, (∀ e ∈ delivered, e.id ≠ id) → responses id log = 0
  dueNodup : due.Nodup
  dueWaits : ∀ fd ∈ due, ∃ e ∈ delivered, e.fd = fd ∧ Waits f fds log e
  todoNodup : (todo.map fun e => e.id).Nodup
  todoOpen : ∀ e ∈ todo, e ∈ delivered ∧ fds e.fd = some (.event e.id) ∧
    responses e.id log = 0 ∧ e.fd ∉ due
  laterNodup : (later.map fun e => e.id).Nodup
  laterOpen : ∀ e ∈ later, e ∈ delivered ∧ (¬ e.isPerm → fds e.fd = some (.event e.id))
  settled : ∀ e ∈ delivered, e.isPerm →
    e ∈ todo ∨ (e.fd ∈ due ∧ Waits f fds log e) ∨ responses e.id log = 1

section

variable {f : FanotifyMonitor} {fds : Int → Option Descriptor} {log : List Response}
  {delivered todo later : List FanotifyEventMetadata} {due : List Int}
  {e : FanotifyEventMetadata}

theorem Core.eq_of_id_eq (h : Core f fds log delivered todo later due)
    {e e' : FanotifyEventMetadata} (he : e ∈ delivered) (he' : e' ∈ delivered)
    (hid : e.id = e'.id) : e = e' :=
  List.inj_on_of_nodup_map h.ids he he' hid

/-- An open number tells which event it is. -/
theorem Core.eq_of_fd_eq (h : Core f fds log delivered todo later due)
    {e e' : FanotifyEventMetadata} (he : e ∈ delivered) (he' : e' ∈ delivered)
    (hfd : fds e.fd = some (.event e.id)) (hfd' : fds e'.fd = some (.event e'.id))
    (heq : e.fd = e'.fd) : e = e' := by
  refine h.eq_of_id_eq he he' ?_
  rw [heq, hfd'] at hfd
  injection hfd with hfd
  injection hfd with hfd
  exact hfd.symm

theorem Core.perm {due' : List Int} (hperm : due.Perm due')
    (h : Core f fds log delivered todo later due) :
    Core f fds log delivered todo later due' :=
  { h with
    dueNodup := hperm.nodup_iff.mp h.dueNodup
    dueWaits := fun fd hfd => h.dueWaits fd (hperm.mem_iff.mpr hfd)
    todoOpen := fun e he => by
      obtain ⟨hmem, hopen, hnone, hnot⟩ := h.todoOpen e he
      exact ⟨hmem, hopen, hnone, fun hfd => hnot (hperm.mem_iff.mpr hfd)⟩
    settled := fun e he hp => by
      rcases h.settled e he hp with htodo | ⟨hfd, hw⟩ | hone
      · exact .inl htodo
      · exact .inr (.inl ⟨hperm.mem_iff.mp hfd, hw⟩)
      · exact .inr (.inr hone) }

/-- **An answer**: the event is off the lists, its number is closed. -/
theorem Core.answer {todo' : List FanotifyEventMetadata} {due' : List Int}
    (h : Core f fds log delivered todo later due) (he : e ∈ delivered) (hperm : e.isPerm)
    (hfd : fds e.fd = some (.event e.id)) (hnone : responses e.id log = 0)
    (htodo : todo'.Sublist todo) (hdue : due'.Sublist due)
    (hgoneTodo : e ∉ todo') (hgoneDue : e.fd ∉ due')
    (hstayTodo : ∀ e' ∈ todo, e' ≠ e → e' ∈ todo')
    (hstayDue : ∀ fd ∈ due, fd ≠ e.fd → fd ∈ due') (writer : Writer) (r : FanResponse) :
    Core f (Function.update fds e.fd none) (log ++ [⟨writer, fds e.fd, r⟩]) delivered todo'
      later due' := by
  -- an event with an open number is `e`, or untouched by the step
  have hother : ∀ e' ∈ delivered, fds e'.fd = some (.event e'.id) → e' ≠ e →
      Function.update fds e.fd none e'.fd = some (.event e'.id) := by
    intro e' he' hopen hne
    rw [Function.update_of_ne fun heq => hne (h.eq_of_fd_eq he' he hopen hfd heq)]
    exact hopen
  have hcount : ∀ id, id ≠ e.id →
      responses id (log ++ [⟨writer, fds e.fd, r⟩]) = responses id log := by
    intro id hne
    rw [responses_append, hfd, if_neg, Nat.add_zero]
    intro heq
    injection heq with heq
    injection heq with heq
    exact hne heq.symm
  have hone : responses e.id (log ++ [⟨writer, fds e.fd, r⟩]) = 1 := by
    rw [responses_append, hnone, if_pos hfd]
  have hidne : ∀ e' ∈ delivered, e' ≠ e → e'.id ≠ e.id :=
    fun e' he' hne heq => hne (h.eq_of_id_eq he' he heq)
  refine ⟨?_, h.ids, h.fdNonneg, ?_, hdue.nodup h.dueNodup, ?_,
    (htodo.map _).nodup h.todoNodup, ?_, h.laterNodup, ?_, ?_⟩
  · exact fun fd id hopen => h.table fd id (event_of_update (by simp) hopen)
  · intro id hid
    rw [hcount id fun heq => hid e he heq.symm]
    exact h.unread id hid
  · intro fd hmem
    obtain ⟨e', he', heq, hw⟩ := h.dueWaits fd (hdue.subset hmem)
    have hne : e' ≠ e := by
      rintro rfl
      exact hgoneDue (heq ▸ hmem)
    exact ⟨e', he', heq, hw.isPerm, hw.pid, hother e' he' hw.fds hne,
      (hcount _ (hidne e' he' hne)).trans hw.responses⟩
  · intro e' he'
    obtain ⟨hmem, hopen, hzero, hnot⟩ := h.todoOpen e' (htodo.subset he')
    have hne : e' ≠ e := by
      rintro rfl
      exact hgoneTodo he'
    exact ⟨hmem, hother e' hmem hopen hne, (hcount _ (hidne e' hmem hne)).trans hzero,
      fun hd => hnot (hdue.subset hd)⟩
  · intro e' he'
    obtain ⟨hmem, hopen⟩ := h.laterOpen e' he'
    refine ⟨hmem, fun hnot => hother e' hmem (hopen hnot) ?_⟩
    rintro rfl
    exact hnot hperm
  · intro e' he' hp
    by_cases hne : e' = e
    · exact .inr (.inr (hne ▸ hone))
    · rcases h.settled e' he' hp with hmem | ⟨hmem, hw⟩ | hans
      · exact .inl (hstayTodo e' hmem hne)
      · refine .inr (.inl ⟨hstayDue _ hmem ?_, hw.isPerm, hw.pid, hother e' he' hw.fds hne,
          (hcount _ (hidne e' he' hne)).trans hw.responses⟩)
        exact fun heq => hne (h.eq_of_fd_eq he' he hw.fds hfd heq)
      · exact .inr (.inr ((hcount _ (hidne e' he' hne)).trans hans))

/-- Somebody answers for a due number. -/
theorem Core.write {fd : Int} (h : Core f fds log delivered todo later (fd :: due))
    (writer : Writer) (r : FanResponse) :
    Core f (Function.update fds fd none) (log ++ [⟨writer, fds fd, r⟩]) delivered todo later
      due := by
  obtain ⟨e, he, rfl, hw⟩ := h.dueWaits fd List.mem_cons_self
  have hnodup := List.nodup_cons.mp h.dueNodup
  refine h.answer he hw.isPerm hw.fds hw.responses (List.Sublist.refl _)
    (List.sublist_cons_self _ _) ?_ hnodup.1 (fun _ hmem _ => hmem) ?_ writer r
  · intro hmem
    exact (h.todoOpen e hmem).2.2.2 List.mem_cons_self
  · intro fd' hmem hne
    exact (List.mem_cons.mp hmem).resolve_left hne

/-- The first pass answers an event of the daemon itself. -/
theorem Core.writeOwn (h : Core f fds log delivered (e :: todo) later due) (hperm : e.isPerm)
    (writer : Writer) (r : FanResponse) :
    Core f (Function.update fds e.fd none) (log ++ [⟨writer, fds e.fd, r⟩]) delivered todo
      later due := by
  obtain ⟨he, hfd, hnone, hnot⟩ := h.todoOpen e List.mem_cons_self
  have hnodup := h.todoNodup
  rw [List.map_cons, List.nodup_cons] at hnodup
  refine h.answer he hperm hfd hnone (List.sublist_cons_self _ _) (List.Sublist.refl _) ?_ hnot
    ?_ (fun _ hmem _ => hmem) writer r
  · intro hmem
    exact hnodup.1 (List.mem_map_of_mem hmem)
  · intro e' hmem hne
    exact (List.mem_cons.mp hmem).resolve_left hne

/-- The first pass puts an event into the queue. -/
theorem Core.add (h : Core f fds log delivered (e :: todo) later due) (hperm : e.isPerm)
    (hpid : e.pid ≠ f.myPid) : Core f fds log delivered todo later (e.fd :: due) := by
  obtain ⟨he, hfd, hnone, hnot⟩ := h.todoOpen e List.mem_cons_self
  have hnodup := h.todoNodup
  rw [List.map_cons, List.nodup_cons] at hnodup
  have hw : Waits f fds log e := ⟨hperm, hpid, hfd, hnone⟩
  refine ⟨h.table, h.ids, h.fdNonneg, h.unread, List.nodup_cons.mpr ⟨hnot, h.dueNodup⟩, ?_,
    hnodup.2, ?_, h.laterNodup, h.laterOpen, ?_⟩
  · intro fd hmem
    rcases List.mem_cons.mp hmem with rfl | hmem
    · exact ⟨e, he, rfl, hw⟩
    · exact h.dueWaits fd hmem
  · intro e' hmem
    obtain ⟨he', hopen, hzero, hnot'⟩ := h.todoOpen e' (List.mem_cons_of_mem e hmem)
    refine ⟨he', hopen, hzero, ?_⟩
    intro hdue
    rcases List.mem_cons.mp hdue with heq | hdue
    · have := h.eq_of_fd_eq he' he hopen hfd heq
      exact hnodup.1 (this ▸ List.mem_map_of_mem hmem)
    · exact hnot' hdue
  · intro e' he' hp
    rcases h.settled e' he' hp with hmem | ⟨hmem, hw'⟩ | hans
    · rcases List.mem_cons.mp hmem with rfl | hmem
      · exact .inr (.inl ⟨List.mem_cons_self, hw⟩)
      · exact .inl hmem
    · exact .inr (.inl ⟨List.mem_cons_of_mem _ hmem, hw'⟩)
    · exact .inr (.inr hans)

/-- The first pass leaves a notification alone. -/
theorem Core.skip (h : Core f fds log delivered (e :: todo) later due) (hperm : ¬ e.isPerm) :
    Core f fds log delivered todo later due := by
  have hnodup := h.todoNodup
  rw [List.map_cons, List.nodup_cons] at hnodup
  refine { h with todoNodup := hnodup.2, todoOpen := ?_, settled := ?_ }
  · exact fun e' hmem => h.todoOpen e' (List.mem_cons_of_mem e hmem)
  · intro e' he' hp
    rcases h.settled e' he' hp with hmem | hrest
    · rcases List.mem_cons.mp hmem with rfl | hmem
      · exact absurd hp hperm
      · exact .inl hmem
    · exact .inr hrest

/-- The second pass is done with an event. -/
theorem Core.dropLater (h : Core f fds log delivered todo (e :: later) due) :
    Core f fds log delivered todo later due := by
  have hnodup := h.laterNodup
  rw [List.map_cons, List.nodup_cons] at hnodup
  exact { h with
    laterNodup := hnodup.2
    laterOpen := fun e' hmem => h.laterOpen e' (List.mem_cons_of_mem e hmem) }

/-- A number that is not that of an event still looked after changes what
it refers to. -/
theorem Core.setFd {fd : Int} {d : Option Descriptor}
    (h : Core f fds log delivered todo later due)
    (hd : ∀ id, d ≠ some (.event id))
    (htodo : ∀ e ∈ todo, e.fd ≠ fd) (hlater : ∀ e ∈ later, ¬ e.isPerm → e.fd ≠ fd)
    (hwaits : ∀ e ∈ delivered, Waits f fds log e → e.fd ≠ fd) :
    Core f (Function.update fds fd d) log delivered todo later due := by
  have hkeep : ∀ e ∈ delivered, Waits f fds log e →
      Waits f (Function.update fds fd d) log e := by
    intro e he hw
    refine ⟨hw.isPerm, hw.pid, ?_, hw.responses⟩
    rw [Function.update_of_ne (hwaits e he hw), hw.fds]
  refine ⟨?_, h.ids, h.fdNonneg, h.unread, h.dueNodup, ?_, h.todoNodup, ?_, h.laterNodup, ?_,
    ?_⟩
  · exact fun fd' id hopen => h.table fd' id (event_of_update hd hopen)
  · intro fd' hmem
    obtain ⟨e, he, heq, hw⟩ := h.dueWaits fd' hmem
    exact ⟨e, he, heq, hkeep e he hw⟩
  · intro e he
    obtain ⟨hmem, hopen, hzero, hnot⟩ := h.todoOpen e he
    refine ⟨hmem, ?_, hzero, hnot⟩
    rw [Function.update_of_ne (htodo e he), hopen]
  · intro e he
    obtain ⟨hmem, hopen⟩ := h.laterOpen e he
    refine ⟨hmem, fun hnot => ?_⟩
    rw [Function.update_of_ne (hlater e he hnot), hopen hnot]
  · intro e he hp
    rcases h.settled e he hp with hmem | ⟨hmem, hw⟩ | hans
    · exact .inl hmem
    · exact .inr (.inl ⟨hmem, hkeep e he hw⟩)
    · exact .inr (.inr hans)

/-- A batch is read: the kernel gives out free numbers only. -/
theorem Core.read {buf : List FanotifyEventMetadata}
    (h : Core f fds log delivered [] [] due) (hfd : (buf.map fun e => e.fd).Nodup)
    (hid : ((delivered ++ buf).map fun e => e.id).Nodup)
    (hfree : ∀ e ∈ buf, 0 ≤ e.fd ∧ fds e.fd = none) :
    Core f (openBatch fds buf) log (delivered ++ buf) buf buf due := by
  have hnew : ∀ e ∈ buf, ∀ e' ∈ delivered, e'.id ≠ e.id := by
    intro e he e' he'
    rw [List.map_append, List.nodup_append] at hid
    exact hid.2.2 _ (List.mem_map_of_mem he') _ (List.mem_map_of_mem he)
  have huse : ∀ {fd : Int} {d : Descriptor}, fds fd = some d →
      openBatch fds buf fd = some d :=
    openBatch_inUse fun e he => (hfree e he).2
  have hwaits : ∀ {e : FanotifyEventMetadata}, Waits f fds log e →
      Waits f (openBatch fds buf) log e :=
    fun hw => ⟨hw.isPerm, hw.pid, huse hw.fds, hw.responses⟩
  have hbuf : (buf.map fun e => e.id).Nodup := by
    rw [List.map_append, List.nodup_append] at hid
    exact hid.2.1
  refine ⟨?_, hid, ?_, ?_, h.dueNodup, ?_, hbuf, ?_, hbuf, ?_, ?_⟩
  · exact openBatch_delivered h.table
  · intro e he
    rcases List.mem_append.mp he with he | he
    · exact h.fdNonneg e he
    · exact (hfree e he).1
  · intro id hunread
    exact h.unread id fun e he => hunread e (List.mem_append_left _ he)
  · intro fd hmem
    obtain ⟨e, he, heq, hw⟩ := h.dueWaits fd hmem
    exact ⟨e, List.mem_append_left _ he, heq, hwaits hw⟩
  · intro e he
    refine ⟨List.mem_append_right _ he, openBatch_mem hfd he, h.unread e.id (hnew e he), ?_⟩
    intro hdue
    obtain ⟨e', -, heq, hw⟩ := h.dueWaits _ hdue
    have := hw.fds
    rw [heq, (hfree e he).2] at this
    cases this
  · intro e he
    exact ⟨List.mem_append_right _ he, fun _ => openBatch_mem hfd he⟩
  · intro e he hp
    rcases List.mem_append.mp he with he | he
    · rcases h.settled e he hp with hnil | ⟨hmem, hw⟩ | hans
      · cases hnil
      · exact .inr (.inl ⟨hmem, hwaits hw⟩)
      · exact .inr (.inr hans)
    · exact .inl he

end

/-! ## The queue under the watchdog -/

theorem orFault_eq_ok {α : Type} {x : Option α} {a : α} : orFault x = .ok a ↔ x = some a := by
  cases x <;> simp [orFault]

theorem watchdogAdd_spec {malloc : Malloc Nat} {now : Timespec} {s s' : MonitorState}
    {fd : Int} {l : List QueueEntry} (hq : QueueHolds s.queue l)
    (h : watchdogAdd malloc now s fd = .ok s') :
    ∃ queue, s' = { s with queue } ∧ QueueHolds queue (l ++ [⟨fd, now⟩]) := by
  obtain ⟨q, hq', hholds⟩ := queuePush_holds hq malloc fd now
  obtain ⟨queue, hpush, h⟩ := bind_eq_ok.mp h
  rw [orFault_eq_ok, hq'] at hpush
  cases hpush
  cases h
  exact ⟨q, rfl, hholds⟩

/-- Who is let through has taken an entry with its number out of the queue. -/
theorem watchdogRemove_spec {s s' : MonitorState} {fd : Int} {due : Bool}
    {l : List QueueEntry} (hq : QueueHolds s.queue l)
    (h : watchdogRemove s fd = .ok (due, s')) :
    ∃ queue l', s' = { s with queue } ∧ QueueHolds queue l' ∧
      (due = false ∧ l' = l ∨
        due = true ∧ (l.map fun e => e.fd).Perm (fd :: l'.map fun e => e.fd)) := by
  obtain ⟨ret, q, l', happly, hstep, hholds⟩ := queuePopFd_holds hq fd
  obtain ⟨⟨r, entry, queue⟩, hpop, h⟩ := bind_eq_ok.mp h
  rw [orFault_eq_ok] at hpop
  rw [QueueOp.apply, hpop] at happly
  cases happly
  cases h
  refine ⟨queue, l', rfl, hholds, ?_⟩
  cases hstep with
  | popFdAbsent _ => exact .inl ⟨rfl, rfl⟩
  | popFd hfd _ =>
    refine .inr ⟨rfl, ?_⟩
    rw [List.map_append, List.map_cons, hfd, List.map_append]
    exact List.perm_middle

/-- What the watchdog thread takes out moves to its array. -/
theorem watchdogThreadPop_spec {s s' : MonitorState} {before : Timespec}
    {l : List QueueEntry} (hq : QueueHolds s.queue l)
    (h : watchdogThreadPop s before = .ok s') :
    ∃ queue popEntries l', s' = { s with queue, popEntries } ∧ QueueHolds queue l' ∧
      (popEntries ++ l').Perm l := by
  obtain ⟨q, hpop, hholds⟩ := queuePopTimeout_holds hq before nFd
  obtain ⟨r, hr, h⟩ := bind_eq_ok.mp h
  rw [orFault_eq_ok, hpop] at hr
  cases hr
  cases h
  exact ⟨q, _, _, rfl, hholds, takeFirst_perm (isDue before) nFd l⟩

end Armadito.OnAccess.Watchdog
