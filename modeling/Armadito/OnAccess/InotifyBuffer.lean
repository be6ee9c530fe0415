import Armadito.Lib.Bytes
import Armadito.Lib.Terminated
import Armadito.OnAccess.Monitor

/-!
# OnAccess.InotifyBuffer

`inotify_cb` on the bytes that `read(2)` returns: the events that were read
wait in the buffer while directories are marked and other processes go on,
and the pointer moves on by the length that each event holds.

The monitor of `OnAccess.Monitor` takes the events from the kernel one by
one. The one that reads them into a buffer does nothing else: each of its
runs is one of that monitor, for which the events in the buffer are still
with the kernel.
-/

namespace Armadito.OnAccess.InotifyBuffer

open Bytes Monitor

/-! ## What the kernel writes -/

/-- `sizeof(struct inotify_event)`. -/
def inotifyEventSize : Nat := 16

/-- `INOTIFY_BUFFER_SIZE`. -/
def inotifyBufferSize : Nat := 8192

/-- A byte of a name. -/
def charOf (b : UInt8) : Char := Char.ofNat b.toNat

/-- An event as it is written; a name is followed by terminators up to a
length that the kernel chooses. -/
structure EventRecord where
  wd : Nat
  mask : Nat
  cookie : Nat
  name : Option (List UInt8)
  padding : Nat
  wd_lt : wd < 256 ^ 4
  mask_lt : mask < 256 ^ 4
  name_bytes : ∀ n ∈ name, 0 ∉ n

/-- `struct inotify_event` as `OnAccess.Monitor` has it. -/
def EventRecord.event (r : EventRecord) : InotifyEvent where
  wd := r.wd
  mask := r.mask
  name := r.name.map fun n => n.map charOf

/-- The name with the terminators behind it. -/
def EventRecord.nameBytes (r : EventRecord) : List UInt8 :=
  match r.name with
  | none => []
  | some n => n ++ List.replicate (r.padding + 1) 0

variable (o : Order)

/-- The bytes of an event. -/
def EventRecord.bytes (r : EventRecord) : List UInt8 :=
  o.encode 4 r.wd ++ (o.encode 4 r.mask ++ (o.encode 4 r.cookie ++
    (o.encode 4 r.nameBytes.length ++ r.nameBytes)))

/-- Events one behind the other. -/
def recordBytes (records : List EventRecord) : List UInt8 := records.flatMap (·.bytes o)

/-- The events of the records. -/
def recordEvents (records : List EventRecord) : List InotifyEvent :=
  records.map EventRecord.event

/-- What one `read(2)` returns: whole events that fit in the buffer. -/
structure Batch where
  records : List EventRecord
  fits : (recordBytes o records).length ≤ inotifyBufferSize

/-! ## The loop over the buffer -/

/-- `event->name`, for a function that reads a string. -/
def eventName (event : List UInt8) : Option CString :=
  (Terminated.string 0 (event.drop inotifyEventSize)).map fun n => n.map charOf

/-- The result is missing when the event reaches past the bytes; the path
is, when the watch is not known. -/
def inotifyEventFullPath (s : Monitor.State) (event : List UInt8) :
    Option (Option CString) := do
  let wd ← readUInt o event 0 4
  match s.wd2path wd with
  | none => return none
  | some dir =>
    let len ← readUInt o event 12 4
    if len ≠ 0 then
      let name ← eventName event
      return some (Os.joinPath dir name)
    else return some dir

/-- The call that the event leads to. -/
def inotifyEventProcess (s : Monitor.State) (event : List UInt8) : Option (List Frame) := do
  let mask ← readUInt o event 4 4
  if mask &&& inIsdir = 0 then return []
  else
    match ← inotifyEventFullPath o s event with
    | none => return []
    | some fullPath =>
      if mask &&& inCreate ≠ 0 ∨ mask &&& inMovedTo ≠ 0 then return [.markFan fullPath]
      else if mask &&& inDelete ≠ 0 ∨ mask &&& inMovedFrom ≠ 0 then
        return [.unmarkFan fullPath]
      else return []

/-- `p += sizeof(struct inotify_event) + event->len`. -/
def nextEvent (event : List UInt8) : Option (List UInt8) :=
  (readUInt o event 12 4).map fun len => event.drop (inotifyEventSize + len)

/-- The monitor, and what is left of its buffer from the pointer on. -/
structure State where
  monitor : Monitor.State
  event : List UInt8

/-- The steps of the monitor, with a read of the buffer. -/
inductive Label where
  | read (batch : Batch o)
  | monitor (label : Monitor.Label)

/-- The thread reads when the buffer is done, and takes the next event when
the calls of the last one are. -/
def step (s : State) : Label o → Option State
  | .read batch =>
    let pending := s.monitor.kernel.pending
    let events := recordEvents batch.records
    if s.monitor.stack = [] ∧ s.event = [] ∧ events <+: pending then
      some { monitor := { s.monitor with
               kernel := { s.monitor.kernel with pending := pending.drop events.length } }
             event := recordBytes o batch.records }
    else none
  | .monitor .inotifyEvent =>
    if s.monitor.stack = [] ∧ s.event ≠ [] then do
      let stack ← inotifyEventProcess o s.monitor s.event
      let event ← nextEvent o s.event
      return { monitor := { s.monitor with stack }, event }
    else none
  | .monitor label => (Monitor.step s.monitor label).map fun monitor => { s with monitor }

/-! ## Reading what was written -/

section Reading

variable {o}

theorem EventRecord.length_bytes (r : EventRecord) :
    (r.bytes o).length = inotifyEventSize + r.nameBytes.length := by
  simp only [EventRecord.bytes, List.length_append, Order.length_encode, inotifyEventSize]
  omega

theorem Batch.length_le (batch : Batch o) {r : EventRecord} (hr : r ∈ batch.records) :
    (r.bytes o).length ≤ inotifyBufferSize := by
  have hfits := batch.fits
  obtain ⟨before, after, hsplit⟩ := List.append_of_mem hr
  rw [hsplit, recordBytes, List.flatMap_append, List.flatMap_cons, List.length_append,
    List.length_append] at hfits
  omega

theorem readUInt_wd (r : EventRecord) (rest : List UInt8) :
    readUInt o (r.bytes o ++ rest) 0 4 = some r.wd := by
  have hfield := readUInt_field o [] (o.encode 4 r.mask ++ (o.encode 4 r.cookie ++
    (o.encode 4 r.nameBytes.length ++ (r.nameBytes ++ rest)))) r.wd_lt
  simpa [EventRecord.bytes] using hfield

theorem readUInt_mask (r : EventRecord) (rest : List UInt8) :
    readUInt o (r.bytes o ++ rest) 4 4 = some r.mask := by
  have hfield := readUInt_field o (o.encode 4 r.wd) (o.encode 4 r.cookie ++
    (o.encode 4 r.nameBytes.length ++ (r.nameBytes ++ rest))) r.mask_lt
  simpa [EventRecord.bytes] using hfield

theorem readUInt_len {r : EventRecord} (h : (r.bytes o).length ≤ inotifyBufferSize)
    (rest : List UInt8) :
    readUInt o (r.bytes o ++ rest) 12 4 = some r.nameBytes.length := by
  have hlt : r.nameBytes.length < 256 ^ 4 := by
    rw [r.length_bytes, inotifyBufferSize] at h
    omega
  have hfield := readUInt_field o (o.encode 4 r.wd ++ (o.encode 4 r.mask ++
    o.encode 4 r.cookie)) (r.nameBytes ++ rest) hlt
  simpa [EventRecord.bytes] using hfield

theorem drop_bytes (r : EventRecord) (rest : List UInt8) :
    (r.bytes o ++ rest).drop inotifyEventSize = r.nameBytes ++ rest := by
  have hsplit : r.bytes o ++ rest = (o.encode 4 r.wd ++ (o.encode 4 r.mask ++
      (o.encode 4 r.cookie ++ o.encode 4 r.nameBytes.length))) ++ (r.nameBytes ++ rest) := by
    simp [EventRecord.bytes]
  rw [hsplit]
  exact List.drop_left' (by simp [inotifyEventSize])

theorem eventName_record {r : EventRecord} {n : List UInt8} (hname : r.name = some n)
    (rest : List UInt8) : eventName (r.bytes o ++ rest) = some (n.map charOf) := by
  have hn : (0 : UInt8) ∉ n := r.name_bytes n hname
  have hbytes : r.nameBytes ++ rest = n ++ 0 :: (List.replicate r.padding 0 ++ rest) := by
    rw [EventRecord.nameBytes, hname]
    simp [List.replicate_succ]
  rw [eventName, drop_bytes, hbytes, Terminated.string_append hn, Option.map_some]

theorem nextEvent_record {r : EventRecord} (h : (r.bytes o).length ≤ inotifyBufferSize)
    (rest : List UInt8) : nextEvent o (r.bytes o ++ rest) = some rest := by
  rw [nextEvent, readUInt_len h, Option.map_some, ← r.length_bytes (o := o), List.drop_left]

/-- The calls that an event leads to are those of `OnAccess.Monitor`. -/
theorem inotifyEventProcess_record {r : EventRecord}
    (h : (r.bytes o).length ≤ inotifyBufferSize) (s : Monitor.State) (rest : List UInt8) :
    inotifyEventProcess o s (r.bytes o ++ rest) =
      some (Monitor.inotifyEventProcess s r.event) := by
  have hpath : inotifyEventFullPath o s (r.bytes o ++ rest) =
      some (Monitor.inotifyEventFullPath s r.event) := by
    rw [inotifyEventFullPath, readUInt_wd, Monitor.inotifyEventFullPath]
    simp only [EventRecord.event, Option.bind_eq_bind, Option.bind_some]
    cases s.wd2path r.wd with
    | none => rfl
    | some dir =>
      simp only [readUInt_len h, Option.bind_some]
      cases hname : r.name with
      | none =>
        have hlen : r.nameBytes.length = 0 := by simp [EventRecord.nameBytes, hname]
        rw [hlen]
        rfl
      | some n =>
        have hlen : r.nameBytes.length ≠ 0 := by simp [EventRecord.nameBytes, hname]
        rw [if_pos hlen, eventName_record hname]
        rfl
  have hmask : r.event.mask = r.mask := rfl
  rw [inotifyEventProcess, readUInt_mask, Monitor.inotifyEventProcess, hmask, hpath]
  simp only [Option.bind_eq_bind, Option.bind_some]
  by_cases hdir : r.mask &&& inIsdir = 0
  · rw [if_pos hdir, if_pos hdir]
    rfl
  · rw [if_neg hdir, if_neg hdir]
    cases Monitor.inotifyEventFullPath s r.event with
    | none => rfl
    | some fullPath =>
      dsimp only
      split_ifs
      · rfl
      · rfl
      · rfl

end Reading

/-! ## Events that were read too early -/

/-- The kernel with events that were read already put back. -/
def putBack (events : List InotifyEvent) (k : Kernel) : Kernel :=
  { k with pending := events ++ k.pending }

section PutBack

variable (events : List InotifyEvent)

theorem notify_putBack (k : Kernel) (dir mask : Nat) (name : CString) :
    (putBack events k).notify dir mask name = putBack events (k.notify dir mask name) := by
  simp only [Kernel.notify, putBack]
  cases k.watches dir with
  | none => rfl
  | some wd => simp only [List.append_assoc]

theorem mkdir_putBack (k : Kernel) (path : List CString) (name : CString) :
    (putBack events k).mkdir path name = (k.mkdir path name).map (putBack events) := by
  have htree : (putBack events k).tree = k.tree := rfl
  rw [Kernel.mkdir, Kernel.mkdir, htree]
  cases k.tree.walk 0 path with
  | none => rfl
  | some dir =>
    simp only [Option.bind_eq_bind, Option.bind_some]
    split_ifs
    · exact congrArg some (notify_putBack events { k with tree := _ } _ _ _)
    · rfl

theorem rmdir_putBack (k : Kernel) (path : List CString) (name : CString) :
    (putBack events k).rmdir path name = (k.rmdir path name).map (putBack events) := by
  have htree : (putBack events k).tree = k.tree := rfl
  rw [Kernel.rmdir, Kernel.rmdir, htree]
  cases k.tree.walk 0 path with
  | none => rfl
  | some dir =>
    simp only [Option.bind_eq_bind, Option.bind_some]
    cases k.tree.lookup dir name with
    | none => rfl
    | some sub =>
      simp only [Option.bind_some]
      split_ifs
      · exact congrArg some (notify_putBack events (Kernel.forget { k with tree := _ } _) _ _ _)
      · rfl

theorem rename_putBack (k : Kernel) (path : List CString) (name : CString)
    (path' : List CString) (name' : CString) :
    (putBack events k).rename path name path' name' =
      (k.rename path name path' name').map (putBack events) := by
  have htree : (putBack events k).tree = k.tree := rfl
  have htwo : ∀ (k : Kernel) dir mask name dir' mask' name',
      ((putBack events k).notify dir mask name).notify dir' mask' name' =
        putBack events ((k.notify dir mask name).notify dir' mask' name') := by
    intro k dir mask name dir' mask' name'
    rw [notify_putBack, notify_putBack]
  rw [Kernel.rename, Kernel.rename, htree]
  cases k.tree.walk 0 path with
  | none => rfl
  | some dir =>
    simp only [Option.bind_eq_bind, Option.bind_some]
    cases k.tree.lookup dir name with
    | none => rfl
    | some sub =>
      simp only [Option.bind_some]
      cases k.tree.walk 0 path' with
      | none => rfl
      | some dir' =>
        simp only [Option.bind_some]
        split_ifs
        · cases k.tree.lookup dir' name' with
          | none => exact congrArg some (htwo { k with tree := _ } _ _ _ _ _ _)
          | some old =>
            dsimp only
            split_ifs
            · exact congrArg some (htwo (Kernel.forget { k with tree := _ } _) _ _ _ _ _ _)
            · rfl
        · rfl

/-- The monitor with events that were read already put back. -/
def stateBack (s : Monitor.State) : Monitor.State :=
  { s with kernel := putBack events s.kernel }

theorem resolve_putBack (k : Kernel) (path : CString) :
    (putBack events k).resolve path = k.resolve path := rfl

/-- A step after which the events are put back is the step before which they
are. -/
def Blind (label : Monitor.Label) : Prop :=
  ∀ s, Monitor.step (stateBack events s) label = (Monitor.step s label).map (stateBack events)

/-! One step a label. Where the top of the stack is no call of the step, there
is none in both. -/

theorem withKernel_stateBack (s : Monitor.State) (k : Option Kernel) :
    (stateBack events s).withKernel (k.map (putBack events)) =
      (s.withKernel k).map (stateBack events) := by
  cases k with
  | none => rfl
  | some k => rfl

theorem fileEvent_blind (event : InotifyEvent) : Blind events (.fileEvent event) := by
  intro s
  simp only [Monitor.step, stateBack, putBack]
  split_ifs
  · simp only [Option.map_some, stateBack, putBack, List.append_assoc]
  · rfl

theorem nextEntry_blind : Blind events .nextEntry := by
  rintro ⟨kernel, wd2path, path2wd, _ | ⟨frame, stack⟩⟩
  · rfl
  · cases frame with
    | markEntries entries =>
      cases entries with
      | nil => rfl
      | cons e entries =>
        simp only [Monitor.step, stateBack]
        cases e.flag with
        | mount => rfl
        | dir => rfl
    | _ => rfl

theorem fanotifyMark_blind (ok : Bool) : Blind events (.fanotifyMark ok) := by
  rintro ⟨kernel, wd2path, path2wd, _ | ⟨frame, stack⟩⟩
  · rfl
  · cases frame with
    | markFan path =>
      simp only [Monitor.step, stateBack, resolve_putBack]
      cases kernel.resolve path with
      | none => rfl
      | some dir => cases ok <;> rfl
    | _ => rfl

theorem inotifyAddWatch_blind (ok : Bool) : Blind events (.inotifyAddWatch ok) := by
  rintro ⟨kernel, wd2path, path2wd, _ | ⟨frame, stack⟩⟩
  · rfl
  · cases frame with
    | addWatch path =>
      simp only [Monitor.step, stateBack, resolve_putBack]
      cases kernel.resolve path with
      | none => rfl
      | some dir =>
        cases ok with
        | false => rfl
        | true =>
          simp only [if_true, putBack]
          cases kernel.watches dir with
          | none => rfl
          | some wd => rfl
    | _ => rfl

theorem opendir_blind (ok : Bool) : Blind events (.opendir ok) := by
  rintro ⟨kernel, wd2path, path2wd, _ | ⟨frame, stack⟩⟩
  · rfl
  · cases frame with
    | openDir path =>
      simp only [Monitor.step, stateBack, resolve_putBack]
      cases kernel.resolve path with
      | none => rfl
      | some dir => cases ok <;> rfl
    | _ => rfl

theorem readdir_blind (name : CString) (dType : Os.DType) :
    Blind events (.readdir name dType) := by
  rintro ⟨kernel, wd2path, path2wd, _ | ⟨frame, stack⟩⟩
  · rfl
  · cases frame with
    | listing path dir due =>
      simp only [Monitor.step, stateBack]
      split_ifs
      · rfl
      · rfl
      · rfl
      · rfl
    | _ => rfl

theorem closedir_blind : Blind events .closedir := by
  rintro ⟨kernel, wd2path, path2wd, _ | ⟨frame, stack⟩⟩
  · rfl
  · cases frame with
    | listing path dir due => cases due <;> rfl
    | _ => rfl

theorem fanotifyUnmark_blind (ok : Bool) : Blind events (.fanotifyUnmark ok) := by
  rintro ⟨kernel, wd2path, path2wd, _ | ⟨frame, stack⟩⟩
  · rfl
  · cases frame with
    | unmarkFan path =>
      have hmarks : (putBack events kernel).fanMarks = kernel.fanMarks := rfl
      simp only [Monitor.step, stateBack, resolve_putBack, hmarks]
      cases kernel.resolve path with
      | none => rfl
      | some dir =>
        dsimp only
        by_cases hmarked : ok = true ∧ kernel.fanMarks dir = true
        · rw [if_pos hmarked, if_pos hmarked]
          rfl
        · rw [if_neg hmarked, if_neg hmarked]
          rfl
    | _ => rfl

theorem inotifyRmWatch_blind : Blind events .inotifyRmWatch := by
  rintro ⟨kernel, wd2path, path2wd, _ | ⟨frame, stack⟩⟩
  · rfl
  · cases frame with
    | rmWatch path =>
      simp only [Monitor.step, stateBack, inotifyMonitorUnmarkDirectory]
      cases path2wd path with
      | none => rfl
      | some wd =>
        dsimp only
        split_ifs
        · rfl
        · rfl
    | _ => rfl

/-- Nothing but the next event depends on the events that wait. -/
theorem step_stateBack {label : Monitor.Label} (hlabel : label ≠ .inotifyEvent) :
    Blind events label := by
  cases label with
  | inotifyEvent => exact absurd rfl hlabel
  | mkdir path name =>
    intro s
    have hcall := mkdir_putBack events s.kernel path name
    exact (congrArg _ hcall).trans (withKernel_stateBack events s _)
  | rmdir path name =>
    intro s
    have hcall := rmdir_putBack events s.kernel path name
    exact (congrArg _ hcall).trans (withKernel_stateBack events s _)
  | rename path name path' name' =>
    intro s
    have hcall := rename_putBack events s.kernel path name path' name'
    exact (congrArg _ hcall).trans (withKernel_stateBack events s _)
  | fileEvent event => exact fileEvent_blind events event
  | nextEntry => exact nextEntry_blind events
  | fanotifyMark ok => exact fanotifyMark_blind events ok
  | inotifyAddWatch ok => exact inotifyAddWatch_blind events ok
  | opendir ok => exact opendir_blind events ok
  | readdir name dType => exact readdir_blind events name dType
  | closedir => exact closedir_blind events
  | fanotifyUnmark ok => exact fanotifyUnmark_blind events ok
  | inotifyRmWatch => exact inotifyRmWatch_blind events

end PutBack

/-! ## The two systems -/

/-- The steps of the monitor that a step with the buffer is: to read is
none. -/
def Label.protocol : Label o → List Monitor.Label
  | .read _ => []
  | .monitor label => [label]

/-- The pointer stands where the records begin that are still to do, and the
events of these are put back. -/
def Same (s : State) (t : Monitor.State) : Prop :=
  ∃ records : List EventRecord, (∀ r ∈ records, (r.bytes o).length ≤ inotifyBufferSize) ∧
    s.event = recordBytes o records ∧ t = stateBack (recordEvents records) s.monitor

/-- The kernel can write the event that is next. -/
def Written (t : Monitor.State) (label : Monitor.Label) : Prop :=
  label = .inotifyEvent → ∀ e ∈ t.kernel.pending.head?, ∃ r : EventRecord,
    r.event = e ∧ (r.bytes o).length ≤ inotifyBufferSize

section Steps

variable {o}

/-- With an event in the buffer, the loop goes on to the one behind. -/
theorem step_inotifyEvent {s : State} {r : EventRecord} {records : List EventRecord}
    (hstack : s.monitor.stack = []) (hevent : s.event = recordBytes o (r :: records))
    (hfits : (r.bytes o).length ≤ inotifyBufferSize) :
    step o s (.monitor .inotifyEvent) = some
      { monitor := { s.monitor with
          stack := Monitor.inotifyEventProcess s.monitor r.event }
        event := recordBytes o records } := by
  have hbytes : s.event = r.bytes o ++ recordBytes o records := hevent
  have hne : s.event ≠ [] := by
    intro hnil
    have hlen := congrArg List.length (hbytes.symm.trans hnil)
    rw [List.length_append, r.length_bytes, inotifyEventSize, List.length_nil] at hlen
    omega
  rw [step, if_pos ⟨hstack, hne⟩, hbytes, inotifyEventProcess_record hfits,
    nextEvent_record hfits]
  rfl

theorem step_monitor {label : Monitor.Label} (hlabel : label ≠ .inotifyEvent) (s : State) :
    step o s (.monitor label) =
      (Monitor.step s.monitor label).map fun monitor => { s with monitor } := by
  cases label with
  | inotifyEvent => exact absurd rfl hlabel
  | _ => rfl

theorem recordBytes_eq_nil {records : List EventRecord} :
    recordBytes o records = [] ↔ records = [] := by
  constructor
  · intro h
    cases records with
    | nil => rfl
    | cons r records =>
      have hlen := congrArg List.length h
      rw [recordBytes, List.flatMap_cons, List.length_append, r.length_bytes,
        inotifyEventSize, List.length_nil] at hlen
      omega
  · rintro rfl
    rfl

theorem one_step (t : Monitor.State) (label : Monitor.Label) :
    Transition.run Monitor.step t [label] = Monitor.step t label := by
  rw [Transition.run]
  cases Monitor.step t label <;> rfl

/-- What is read is still there when it is put back. -/
theorem stateBack_read {m : Monitor.State} {events : List InotifyEvent}
    (h : events <+: m.kernel.pending) :
    stateBack events { m with
      kernel := { m.kernel with pending := m.kernel.pending.drop events.length } } = m := by
  obtain ⟨rest, hrest⟩ := h
  have hpending : events ++ m.kernel.pending.drop events.length = m.kernel.pending := by
    rw [← hrest, List.drop_left]
  simp only [stateBack, putBack, hpending]

theorem step_simulation {s s' : State} {t : Monitor.State} {label : Label o} (h : Same o s t)
    (hstep : step o s label = some s') :
    ∃ t', Transition.run Monitor.step t label.protocol = some t' ∧ Same o s' t' := by
  obtain ⟨records, hfits, hevent, rfl⟩ := h
  cases label with
  | read batch =>
    simp only [step] at hstep
    split_ifs at hstep with hidle
    obtain ⟨-, hnil, hprefix⟩ := hidle
    cases hstep
    obtain rfl : records = [] := recordBytes_eq_nil.mp (hevent.symm.trans hnil)
    refine ⟨_, rfl, batch.records, fun r hr => batch.length_le hr, rfl, ?_⟩
    exact (stateBack_read hprefix).symm
  | monitor label =>
    rw [Label.protocol, one_step]
    by_cases hlabel : label = .inotifyEvent
    · subst hlabel
      have hidle : s.monitor.stack = [] ∧ s.event ≠ [] := by
        by_contra hnot
        rw [step, if_neg hnot] at hstep
        cases hstep
      cases records with
      | nil => exact absurd hevent hidle.2
      | cons r records =>
        rw [step_inotifyEvent hidle.1 hevent (hfits r List.mem_cons_self)] at hstep
        cases hstep
        refine ⟨_, ?_, records, fun r' hr' => hfits r' (List.mem_cons_of_mem r hr'), rfl, rfl⟩
        simp only [Monitor.step, stateBack, putBack, recordEvents, List.map_cons, hidle.1,
          List.cons_append]
        rfl
    · rw [step_monitor hlabel] at hstep
      obtain ⟨monitor, hmonitor, rfl⟩ := Option.map_eq_some_iff.mp hstep
      refine ⟨stateBack (recordEvents records) monitor, ?_, records, hfits, hevent, rfl⟩
      rw [step_stateBack _ hlabel, hmonitor, Option.map_some]

/-- The loop never stops in the middle of the buffer. -/
theorem Same.next {s : State} {t : Monitor.State} (h : Same o s t)
    (hstack : s.monitor.stack = []) (hne : s.event ≠ []) :
    ∃ s', step o s (.monitor .inotifyEvent) = some s' := by
  obtain ⟨records, hfits, hevent, -⟩ := h
  cases records with
  | nil => exact absurd hevent hne
  | cons r records =>
    exact ⟨_, step_inotifyEvent hstack hevent (hfits r List.mem_cons_self)⟩

/-! ## Every run of the monitor is one with the buffer -/

theorem inotifyEvent_cases {t u : Monitor.State}
    (h : Monitor.step t .inotifyEvent = some u) :
    ∃ e pending, t.stack = [] ∧ t.kernel.pending = e :: pending ∧
      u = { t with
        kernel := { t.kernel with pending }
        stack := Monitor.inotifyEventProcess t e } := by
  simp only [Monitor.step] at h
  split at h
  · next e pending hstack hpending =>
    cases h
    exact ⟨e, pending, hstack, hpending, rfl⟩
  · cases h

/-- The events are read one by one. -/
theorem run_buffered {t t' : Monitor.State} (labels : List Monitor.Label)
    (hrun : Transition.run Monitor.step t labels = some t')
    (hwritten : Transition.AllSteps Monitor.step (Written o) t labels) :
    ∃ buffered : List (Label o), buffered.flatMap (Label.protocol o) = labels ∧
      Transition.run (step o) ⟨t, []⟩ buffered = some ⟨t', []⟩ := by
  induction labels generalizing t with
  | nil =>
    cases hrun
    exact ⟨[], rfl, rfl⟩
  | cons label labels ih =>
    obtain ⟨u, hstep, hrest⟩ := Transition.run_cons_eq_some.mp hrun
    obtain ⟨buffered, hlabels, hbuffered⟩ := ih hrest (hwritten.2 u hstep)
    by_cases hlabel : label = .inotifyEvent
    · subst hlabel
      obtain ⟨e, pending, hstack, hpending, rfl⟩ := inotifyEvent_cases hstep
      obtain ⟨r, rfl, hfits⟩ := hwritten.1 rfl e (by rw [hpending]; rfl)
      have hbatch : recordBytes o [r] = r.bytes o := List.append_nil _
      let batch : Batch o := ⟨[r], hbatch ▸ hfits⟩
      have hread : step o ⟨t, []⟩ (.read batch) =
          some ⟨{ t with kernel := { t.kernel with pending } }, recordBytes o [r]⟩ := by
        have hprefix : recordEvents [r] <+: t.kernel.pending := ⟨pending, hpending.symm⟩
        rw [step, if_pos ⟨hstack, rfl, hprefix⟩, hpending]
        rfl
      refine ⟨.read batch :: .monitor .inotifyEvent :: buffered, ?_, ?_⟩
      · rw [List.flatMap_cons, List.flatMap_cons, hlabels]
        rfl
      · refine Transition.run_cons_eq_some.mpr ⟨_, hread, ?_⟩
        exact Transition.run_cons_eq_some.mpr
          ⟨_, step_inotifyEvent hstack rfl hfits, hbuffered⟩
    · refine ⟨.monitor label :: buffered, by rw [List.flatMap_cons, hlabels]; rfl, ?_⟩
      refine Transition.run_cons_eq_some.mpr ⟨⟨u, []⟩, ?_, hbuffered⟩
      rw [step_monitor hlabel, hstep, Option.map_some]

end Steps

/-- **The buffer changes nothing.** Each run of the monitor with the buffer
is one of the monitor that takes the events one by one, in whose last state
the events in the buffer are still with the kernel, and the loop never stops
in the middle of the buffer; and each run of that monitor in which the
kernel can write the events is one with the buffer. -/
theorem buffered_runs (monitor : Monitor.State) :
    (∀ (labels : List (Label o)) s',
      Transition.run (step o) ⟨monitor, []⟩ labels = some s' →
      (∃ t', Transition.run Monitor.step monitor (labels.flatMap (Label.protocol o)) = some t' ∧
        Same o s' t') ∧
      (s'.monitor.stack = [] → s'.event ≠ [] →
        ∃ s'', step o s' (.monitor .inotifyEvent) = some s'')) ∧
    ∀ (labels : List Monitor.Label) t',
      Transition.run Monitor.step monitor labels = some t' →
      Transition.AllSteps Monitor.step (Written o) monitor labels →
      ∃ buffered : List (Label o), buffered.flatMap (Label.protocol o) = labels ∧
        Transition.run (step o) ⟨monitor, []⟩ buffered = some ⟨t', []⟩ := by
  constructor
  · intro labels s' hrun
    have hstart : Same o ⟨monitor, []⟩ monitor := ⟨[], by simp, rfl, rfl⟩
    obtain ⟨t', ht', hsame⟩ := Transition.run_simulation
      (fun _ _ _ _ h hs => step_simulation h hs) labels _ _ s' hstart hrun
    exact ⟨⟨t', ht', hsame⟩, hsame.next⟩
  · intro labels t' hrun hwritten
    exact run_buffered labels hrun hwritten


/-- An event of a directory `ab`, padded to 16 bytes. -/
def subdirRecord (mask : Nat) (h : mask < 256 ^ 4) : EventRecord where
  wd := 1
  mask := mask
  cookie := 0
  name := some [97, 98]
  padding := 13
  wd_lt := by decide
  mask_lt := h
  name_bytes := by decide

/-- `/s/ab` was created and deleted again before the thread read. -/
def createdDeleted : Batch .little where
  records := [subdirRecord (inCreate ||| inIsdir) (by decide),
    subdirRecord (inDelete ||| inIsdir) (by decide)]
  fits := by decide

/-- The directory `/s` is marked, and two events wait. -/
def marked : Monitor.State where
  kernel :=
    { tree := ⟨fun _ => [], 1⟩, cwd := 0, fanMarks := fun _ => false, watches := fun _ => none
      nextWd := 2, pending := recordEvents createdDeleted.records }
  wd2path := Function.update (fun _ => none) 1 (some ['/', 's'])
  path2wd := Function.update (fun _ => none) ['/', 's'] (some 1)
  stack := []

/-- The thread marks the directory while the second event is in its buffer. -/
theorem buffered_runs_created :
    ∃ s t, s.monitor.stack = [.markFan ['/', 's', '/', 'a', 'b']] ∧ s.event.length = 32 ∧
      Transition.run Monitor.step marked [.inotifyEvent] = some t ∧ Same .little s t := by
  have hrun : (Transition.run (step .little) ⟨marked, []⟩
      [.read createdDeleted, .monitor .inotifyEvent]).map (fun s =>
        (s.monitor.stack, s.event.length)) = some ([.markFan ['/', 's', '/', 'a', 'b']], 32) :=
    rfl
  obtain ⟨s, hs, hend⟩ := Option.map_eq_some_iff.mp hrun
  rw [Prod.mk.injEq] at hend
  obtain ⟨⟨t, ht, hsame⟩, -⟩ := (buffered_runs .little marked).1 _ s hs
  exact ⟨s, t, hend.1, hend.2, ht, hsame⟩

end Armadito.OnAccess.InotifyBuffer
