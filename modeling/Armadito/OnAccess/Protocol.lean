import Mathlib.Data.List.Nodup
import Armadito.Lib.Run
import Armadito.OnAccess.FaMonitor

/-!
# OnAccess.Protocol

The on-access monitor as a transition system: batches of events are read
and go through the two passes of the listening thread, scans run and end in
the thread pool in any order, and the rest of the process opens and closes
descriptors of its own in between.

A step in which the code would abort has no successor. The one exception is
a detection without a text: the process ends when the event is copied, after
the answer and the close, and here the run goes on.
-/

namespace Armadito.OnAccess

open Armadito.Core

/-- Where the listening thread is: between two reads, or in one of the two
passes over a batch. The first pass keeps the events it has seen. -/
inductive Control where
  | idle
  | pass1 (seen todo : List FanotifyEventMetadata)
  | pass2 (todo : List FanotifyEventMetadata)

/-- The monitor thread, what it was sent, and what it shares with the pool. -/
structure State where
  control : Control
  delivered : List FanotifyEventMetadata
  monitor : MonitorState

/-- The steps of the monitor thread and of the pool. -/
inductive Label where
  | read (buf : List FanotifyEventMetadata)
  | pass1
  | pass1Done
  | pass2 (sys : EventCalls)
  | pass2Done
  | scan (n : Nat) (calls : ScanCalls)
  | answer (n : Nat)
  | osOpen (fd : Int)
  | osClose (fd : Int)

/-- The kernel hands out pairwise distinct descriptors that are not in use. -/
def FreshBatch (s : State) (buf : List FanotifyEventMetadata) : Prop :=
  (buf.map fun e => e.fd).Nodup ∧
  ((s.delivered ++ buf).map fun e => e.id).Nodup ∧
  ∀ e ∈ buf, 0 ≤ e.fd ∧ s.monitor.fds e.fd = none

instance (s : State) (buf : List FanotifyEventMetadata) : Decidable (FreshBatch s buf) :=
  inferInstanceAs (Decidable (_ ∧ _ ∧ _))

/-- The descriptor table with the descriptors of a batch opened. -/
def openBatch (fds : Int → Option Descriptor) (buf : List FanotifyEventMetadata) :
    Int → Option Descriptor :=
  fun fd =>
    match buf.find? fun e => e.fd = fd with
    | some e => some (.event e.id)
    | none => fds fd

/-- A step is there when the state allows it. -/
def step (f : FanotifyMonitor) (s : State) : Label → Option State
  | .read buf =>
    match s.control with
    | .idle =>
      if FreshBatch s buf then
        some { control := .pass1 [] buf
               delivered := s.delivered ++ buf
               monitor := { s.monitor with fds := openBatch s.monitor.fds buf } }
      else none
    | _ => none
  | .pass1 =>
    match s.control with
    | .pass1 seen (e :: todo) =>
      some { s with
        control := .pass1 (seen ++ [e]) todo
        monitor := fanotifyPass1Event f s.monitor e }
    | _ => none
  | .pass1Done =>
    match s.control with
    | .pass1 seen [] => some { s with control := .pass2 seen }
    | _ => none
  | .pass2 sys =>
    match s.control with
    | .pass2 (e :: todo) =>
      match fanotifyPass2Event f sys s.monitor e with
      | .ok m => some { s with control := .pass2 todo, monitor := m }
      | .error _ => none
    | _ => none
  | .pass2Done =>
    match s.control with
    | .pass2 [] => some { s with control := .idle }
    | _ => none
  | .scan n calls =>
    match s.monitor.threadPool[n]? with
    | some ⟨ctx, none⟩ =>
      match scanFileThreadScan calls s.monitor ctx with
      | .ok (task, actions) =>
        some { s with monitor := { s.monitor with
          threadPool := s.monitor.threadPool.set n task
          log := s.monitor.log ++ actions } }
      | .error _ => none
    | _ => none
  | .answer n =>
    match s.monitor.threadPool[n]? with
    | some ⟨ctx, some (status, report)⟩ =>
      let m := { s.monitor with threadPool := s.monitor.threadPool.eraseIdx n }
      some { s with monitor := scanFileThreadAnswer f m ctx status report }
    | _ => none
  | .osOpen fd =>
    if s.monitor.fds fd = none then
      some { s with monitor := { s.monitor with
        fds := Function.update s.monitor.fds fd (some .other) } }
    else none
  | .osClose fd =>
    if s.monitor.fds fd = some .other then
      some { s with monitor := { s.monitor with
        fds := Function.update s.monitor.fds fd none } }
    else none

/-- The monitor at its start: nothing read, nothing done; the process may
hold descriptors, none of them of an event. -/
def IsStart (s : State) : Prop :=
  s.control = .idle ∧ s.delivered = [] ∧ s.monitor.threadPool = [] ∧
  s.monitor.log = [] ∧ ∀ fd id, s.monitor.fds fd ≠ some (.event id)

/-! ## What an event must still get -/

/-- The actions that concern an event, in order. -/
def history (id : Nat) (log : List Action) : List Action :=
  log.filter fun a => a.target = some (.event id)

theorem history_append (id : Nat) (log log' : List Action) :
    history id (log ++ log') = history id log ++ history id log' := by
  rw [history, List.filter_append]
  rfl

/-- The events the listening thread still has to deal with. -/
def owed (f : FanotifyMonitor) : Control → List FanotifyEventMetadata
  | .idle => []
  | .pass1 seen todo => (seen.filter fun e => e.pid ≠ f.myPid) ++ todo
  | .pass2 todo => todo.filter fun e => e.pid ≠ f.myPid

/-- Nothing was done about the event yet, and its number refers to it. -/
structure Untouched (m : MonitorState) (e : FanotifyEventMetadata) : Prop where
  fds : m.fds e.fd = some (.event e.id)
  history : history e.id m.log = []

/-- What was done for an event by the time its scan is where it is. -/
def taskHistory (id : Nat) : Option (A6oFileStatus × Option A6oReport) → List Action
  | none => [.threadPoolPush (some (.event id))]
  | some (status, _) =>
    [.threadPoolPush (some (.event id)), .scanned (some (.event id)) status]

/-- The task holds the event's descriptor. -/
structure Holds (m : MonitorState) (t : Task) (e : FanotifyEventMetadata) : Prop where
  fd : t.fileContext.fd = e.fd
  fds : m.fds e.fd = some (.event e.id)
  history : history e.id m.log = taskHistory e.id t.verdict

/-- The answered events: allowed at once, or scanned and then answered with
the verdict of that scan. -/
inductive Answered (f : FanotifyMonitor) (e : FanotifyEventMetadata) : List Action → Prop
  | allowed :
    Answered f e [.responseWrite (some (.event e.id)) .allow, .close (some (.event e.id))]
  | scanned (status : A6oFileStatus) (hpid : e.pid ≠ f.myPid) :
    Answered f e
      [.threadPoolPush (some (.event e.id)), .scanned (some (.event e.id)) status,
        .responseWrite (some (.event e.id)) (fanResponse status),
        .close (some (.event e.id))]

/-- The invariant, with the events that are owed by the listening thread. -/
structure Inv (f : FanotifyMonitor) (owed delivered : List FanotifyEventMetadata)
    (m : MonitorState) : Prop where
  /-- an event's number refers to it -/
  table : ∀ fd id, m.fds fd = some (.event id) → ∃ e ∈ delivered, e.id = id ∧ e.fd = fd
  unread : ∀ id, (∀ e ∈ delivered, e.id ≠ id) → history id m.log = []
  ids : (delivered.map fun e => e.id).Nodup
  fdNonneg : ∀ e ∈ delivered, 0 ≤ e.fd
  owedMem : ∀ e ∈ owed, e ∈ delivered ∧ Untouched m e
  owedNodup : (owed.map fun e => e.id).Nodup
  pool : ∀ t ∈ m.threadPool, ∃ e ∈ delivered, e.pid ≠ f.myPid ∧ Holds m t e
  poolNodup : (m.threadPool.map fun t => t.fileContext.fd).Nodup
  settled : ∀ e ∈ delivered, e.isPerm → e ∈ owed ∨
    (∃ t ∈ m.threadPool, Holds m t e) ∨ Answered f e (history e.id m.log)

/-! ## What one step changes -/

/-- A step about one event leaves the rest as it is. -/
structure SameElsewhere (m m' : MonitorState) (e : FanotifyEventMetadata) : Prop where
  fds : ∀ fd, fd ≠ e.fd → m'.fds fd = m.fds fd
  history : ∀ id, id ≠ e.id → history id m'.log = history id m.log
  /-- its number is as before, or free -/
  own : m'.fds e.fd = m.fds e.fd ∨ m'.fds e.fd = none

/-- Two numbers that refer to two events are different. -/
theorem fd_ne_of_id_ne {m : MonitorState} {e e' : FanotifyEventMetadata}
    (h : m.fds e.fd = some (.event e.id)) (h' : m.fds e'.fd = some (.event e'.id))
    (hne : e'.id ≠ e.id) : e'.fd ≠ e.fd := by
  intro hfd
  rw [hfd, h] at h'
  injection h' with h'
  injection h' with h'
  exact hne h'.symm

theorem Untouched.elsewhere {m m' : MonitorState} {e e' : FanotifyEventMetadata}
    (h : Untouched m e') (hs : SameElsewhere m m' e) (hfd : e'.fd ≠ e.fd)
    (hid : e'.id ≠ e.id) : Untouched m' e' := by
  refine ⟨?_, ?_⟩
  · rw [hs.fds _ hfd, h.fds]
  · rw [hs.history _ hid, h.history]

theorem Holds.elsewhere {m m' : MonitorState} {t : Task} {e e' : FanotifyEventMetadata}
    (h : Holds m t e') (hs : SameElsewhere m m' e) (hfd : e'.fd ≠ e.fd)
    (hid : e'.id ≠ e.id) : Holds m' t e' := by
  refine ⟨h.fd, ?_, ?_⟩
  · rw [hs.fds _ hfd, h.fds]
  · rw [hs.history _ hid, h.history]

theorem Inv.eq_of_id_eq {f : FanotifyMonitor} {owed delivered : List FanotifyEventMetadata}
    {m : MonitorState} (h : Inv f owed delivered m) {e e' : FanotifyEventMetadata}
    (he : e ∈ delivered) (he' : e' ∈ delivered) (hid : e.id = e'.id) : e = e' :=
  List.inj_on_of_nodup_map h.ids he he' hid

/-- The invariant after a step about the event `e`, which is owed no longer
afterwards: it is in the thread pool or answered. -/
theorem Inv.update {f : FanotifyMonitor} {owed owed' delivered : List FanotifyEventMetadata}
    {m m' : MonitorState} {e : FanotifyEventMetadata} (h : Inv f owed delivered m)
    (he : e ∈ delivered) (hfd : m.fds e.fd = some (.event e.id))
    (hsame : SameElsewhere m m' e)
    (howed : owed'.Sublist owed) (hgone : ∀ e' ∈ owed', e'.id ≠ e.id)
    (hstay : ∀ e' ∈ owed, e'.id ≠ e.id → e' ∈ owed')
    (hpool : ∀ t ∈ m'.threadPool, (t ∈ m.threadPool ∧ t.fileContext.fd ≠ e.fd) ∨
      (e.pid ≠ f.myPid ∧ Holds m' t e))
    (hkeep : ∀ t ∈ m.threadPool, t.fileContext.fd ≠ e.fd → t ∈ m'.threadPool)
    (hnodup : (m'.threadPool.map fun t => t.fileContext.fd).Nodup)
    (hown : e.isPerm → (∃ t ∈ m'.threadPool, Holds m' t e) ∨
      Answered f e (history e.id m'.log)) :
    Inv f owed' delivered m' where
  table := by
    intro fd id hfd'
    by_cases hne : fd = e.fd
    · subst hne
      rcases hsame.own with hkept | hfree
      · exact h.table _ _ (hkept ▸ hfd')
      · rw [hfree] at hfd'
        cases hfd'
    · rw [hsame.fds _ hne] at hfd'
      exact h.table _ _ hfd'
  unread := by
    intro id hid
    rw [hsame.history id fun heq => hid e he heq.symm]
    exact h.unread id hid
  ids := h.ids
  fdNonneg := h.fdNonneg
  owedMem := by
    intro e' he'
    have hold := h.owedMem e' (howed.subset he')
    have hid := hgone e' he'
    exact ⟨hold.1, hold.2.elsewhere hsame (fd_ne_of_id_ne hfd hold.2.fds hid) hid⟩
  owedNodup := (howed.map _).nodup h.owedNodup
  pool := by
    intro t ht
    rcases hpool t ht with ⟨hold, hne⟩ | ⟨hpid, hholds⟩
    · obtain ⟨e', he', hpid, hholds⟩ := h.pool t hold
      have hfd' : e'.fd ≠ e.fd := hholds.fd ▸ hne
      have hid : e'.id ≠ e.id := by
        intro heq
        exact hfd' (by rw [h.eq_of_id_eq he' he heq])
      exact ⟨e', he', hpid, hholds.elsewhere hsame hfd' hid⟩
    · exact ⟨e, he, hpid, hholds⟩
  poolNodup := hnodup
  settled := by
    intro e' he' hperm
    by_cases hid : e'.id = e.id
    · have heq : e' = e := h.eq_of_id_eq he' he hid
      subst heq
      exact .inr (hown hperm)
    · rcases h.settled e' he' hperm with howes | ⟨t, ht, hholds⟩ | hans
      · exact .inl (hstay e' howes hid)
      · have hne := fd_ne_of_id_ne hfd hholds.fds hid
        refine .inr (.inl ⟨t, hkeep t ht ?_, hholds.elsewhere hsame hne hid⟩)
        rw [hholds.fd]
        exact hne
      · refine .inr (.inr ?_)
        rw [hsame.history _ hid]
        exact hans

/-- An event that needs no answer may be left alone. -/
theorem Inv.drop {f : FanotifyMonitor} {owed owed' delivered : List FanotifyEventMetadata}
    {m : MonitorState} (h : Inv f owed delivered m) (howed : owed'.Sublist owed)
    (hdrop : ∀ e ∈ owed, e.isPerm → e ∈ owed') : Inv f owed' delivered m :=
  { h with
    owedMem := fun e he => h.owedMem e (howed.subset he)
    owedNodup := (howed.map _).nodup h.owedNodup
    settled := fun e he hperm =>
      (h.settled e he hperm).imp_left fun howes => hdrop e howes hperm }

end Armadito.OnAccess
