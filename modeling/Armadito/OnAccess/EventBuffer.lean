import Armadito.Lib.Bytes
import Armadito.OnAccess.Protocol

/-!
# OnAccess.EventBuffer

`fanotify_cb` on the bytes that `read(2)` returns. Both passes go over the
buffer with `FAN_EVENT_OK` and `FAN_EVENT_NEXT`, which follow the lengths in
the buffer itself; the scan threads and the rest of the process are those
of `OnAccess.Protocol`, and so is what the passes do about an event.

The result is that the two systems have the same runs: the passes see the
events that the kernel wrote, each once in each pass and in their order.
-/

namespace Armadito.OnAccess.EventBuffer

open Bytes

/-! ## What the kernel writes -/

/-- `FAN_EVENT_METADATA_LEN`. -/
def fanEventMetadataLen : Nat := 24

/-- `FANOTIFY_BUFFER_SIZE`. -/
def fanotifyBufferSize : Nat := 8192

/-- An event as it is written, with the fields that the monitor does not
read; a kernel may put more information behind the structure. -/
structure EventRecord where
  event : FanotifyEventMetadata
  vers : UInt8
  reserved : UInt8
  metadataLen : UInt16
  info : List UInt8
  mask_lt : event.mask < 256 ^ 8
  fd_range : -2147483648 ≤ event.fd ∧ event.fd < 2147483648
  pid_range : -2147483648 ≤ event.pid ∧ event.pid < 2147483648

variable (o : Order)

/-- The fields up to `mask`. -/
def EventRecord.head (r : EventRecord) : List UInt8 :=
  o.encode 4 (fanEventMetadataLen + r.info.length) ++ ([r.vers, r.reserved] ++
    o.encode 2 r.metadataLen.toNat)

/-- `struct fanotify_event_metadata` and what is behind it. -/
def EventRecord.bytes (r : EventRecord) : List UInt8 :=
  r.head o ++ (o.encode 8 r.event.mask ++ (int32Bytes o r.event.fd ++
    (int32Bytes o r.event.pid ++ r.info)))

/-- Records one behind the other. -/
def recordBytes (records : List EventRecord) : List UInt8 := records.flatMap (·.bytes o)

/-- The events of the records. -/
def recordEvents (records : List EventRecord) : List FanotifyEventMetadata :=
  records.map EventRecord.event

/-- What one `read(2)` returns: whole events that fit in the buffer. -/
structure Batch where
  records : List EventRecord
  fits : (recordBytes o records).length ≤ fanotifyBufferSize

/-! ## The loops over the buffer -/

/-- `FAN_EVENT_OK`, for what is left of the buffer. -/
def fanEventOk (event : List UInt8) : Bool :=
  decide (fanEventMetadataLen ≤ event.length) &&
    (readUInt o event 0 4).any fun eventLen =>
      decide (fanEventMetadataLen ≤ eventLen) && decide (eventLen ≤ event.length)

/-- `FAN_EVENT_NEXT`. -/
def fanEventNext (event : List UInt8) : Option (List UInt8) :=
  (readUInt o event 0 4).map fun eventLen => event.drop eventLen

/-- The fields that the passes read. -/
def eventFields (event : List UInt8) : Option FanotifyEventMetadata := do
  let mask ← readUInt o event 8 8
  let fd ← readInt32 o event 16
  let pid ← readInt32 o event 20
  return { id := 0, mask, fd, pid }

/-- Where the listening thread is, with its pointers into the buffer. -/
inductive Control where
  | idle
  | pass1 (buf event : List UInt8)
  | pass2 (event : List UInt8)

/-- The monitor, with the events of a read still to be taken from its buffer. -/
structure State where
  control : Control
  delivered : List FanotifyEventMetadata
  monitor : MonitorState

/-- The steps of the monitor, with a read of bytes. -/
inductive Label where
  | read (batch : Batch o)
  | pass1
  | pass1Done
  | pass2 (sys : EventCalls)
  | pass2Done
  | scan (n : Nat) (calls : ScanCalls)
  | answer (n : Nat)
  | osOpen (fd : Int)
  | osClose (fd : Int)

/-- What the other threads see of the state. -/
def State.outside (s : State) : OnAccess.State := ⟨.idle, s.delivered, s.monitor⟩

/-- A step that leaves the buffer alone. -/
def State.withOutside (s : State) (s' : Option OnAccess.State) : Option State :=
  s'.map fun s' => ⟨s.control, s'.delivered, s'.monitor⟩

/-- A step that would read outside of the bytes has no successor. A read
that fails leaves everything as it is. -/
def step (f : FanotifyMonitor) (s : State) : Label o → Option State
  | .read batch =>
    match s.control with
    | .idle =>
      let events := recordEvents batch.records
      if FreshBatch s.outside events then
        let buf := recordBytes o batch.records
        some { control := if buf = [] then .idle else .pass1 buf buf
               delivered := s.delivered ++ events
               monitor := { s.monitor with fds := openBatch s.monitor.fds events } }
      else none
    | _ => none
  | .pass1 =>
    match s.control with
    | .pass1 buf event =>
      if fanEventOk o event then do
        let e ← eventFields o event
        let next ← fanEventNext o event
        return { s with
          control := .pass1 buf next
          monitor := fanotifyPass1Event f s.monitor e }
      else none
    | _ => none
  | .pass1Done =>
    match s.control with
    | .pass1 buf event =>
      if fanEventOk o event then none else some { s with control := .pass2 buf }
    | _ => none
  | .pass2 sys =>
    match s.control with
    | .pass2 event =>
      if fanEventOk o event then do
        let e ← eventFields o event
        let next ← fanEventNext o event
        match fanotifyPass2Event f sys s.monitor e with
        | .ok m => return { s with control := .pass2 next, monitor := m }
        | .error _ => none
      else none
    | _ => none
  | .pass2Done =>
    match s.control with
    | .pass2 event => if fanEventOk o event then none else some { s with control := .idle }
    | _ => none
  | .scan n calls => s.withOutside (OnAccess.step f s.outside (.scan n calls))
  | .answer n => s.withOutside (OnAccess.step f s.outside (.answer n))
  | .osOpen fd => s.withOutside (OnAccess.step f s.outside (.osOpen fd))
  | .osClose fd => s.withOutside (OnAccess.step f s.outside (.osClose fd))

/-! ## Reading what was written -/

section Reading

variable {o}

theorem EventRecord.length_head (r : EventRecord) : (r.head o).length = 8 := by
  simp [EventRecord.head]

theorem EventRecord.length_bytes (r : EventRecord) :
    (r.bytes o).length = fanEventMetadataLen + r.info.length := by
  simp only [EventRecord.bytes, List.length_append, r.length_head, Order.length_encode,
    length_int32Bytes, fanEventMetadataLen]
  omega

theorem Batch.length_le (batch : Batch o) {r : EventRecord} (hr : r ∈ batch.records) :
    (r.bytes o).length ≤ fanotifyBufferSize := by
  have hfits := batch.fits
  obtain ⟨before, after, hsplit⟩ := List.append_of_mem hr
  rw [hsplit, recordBytes, List.flatMap_append, List.flatMap_cons, List.length_append,
    List.length_append] at hfits
  omega

/-- The length that is written is the one of the record. -/
theorem readUInt_eventLen {r : EventRecord} (h : (r.bytes o).length ≤ fanotifyBufferSize)
    (rest : List UInt8) :
    readUInt o (r.bytes o ++ rest) 0 4 = some (r.bytes o).length := by
  have hlt : fanEventMetadataLen + r.info.length < 256 ^ 4 := by
    rw [r.length_bytes] at h
    exact Nat.lt_of_le_of_lt h (by decide)
  have hfield := readUInt_field o [] (([r.vers, r.reserved] ++
    o.encode 2 r.metadataLen.toNat) ++ (o.encode 8 r.event.mask ++ (int32Bytes o r.event.fd ++
      (int32Bytes o r.event.pid ++ (r.info ++ rest))))) hlt
  rw [r.length_bytes]
  simpa [EventRecord.bytes, EventRecord.head] using hfield

theorem fanEventOk_record {r : EventRecord} (h : (r.bytes o).length ≤ fanotifyBufferSize)
    (rest : List UInt8) : fanEventOk o (r.bytes o ++ rest) = true := by
  have hlen := r.length_bytes (o := o)
  rw [fanEventOk, readUInt_eventLen h]
  simp only [Option.any_some, Bool.and_eq_true, decide_eq_true_eq, List.length_append]
  omega

theorem fanEventNext_record {r : EventRecord} (h : (r.bytes o).length ≤ fanotifyBufferSize)
    (rest : List UInt8) : fanEventNext o (r.bytes o ++ rest) = some rest := by
  rw [fanEventNext, readUInt_eventLen h, Option.map_some, List.drop_left]

theorem eventFields_record (r : EventRecord) (rest : List UInt8) :
    eventFields o (r.bytes o ++ rest) = some { r.event with id := 0 } := by
  have hmask := readUInt_field o (r.head o) (int32Bytes o r.event.fd ++
    (int32Bytes o r.event.pid ++ (r.info ++ rest))) r.mask_lt
  have hfd := readInt32_field o (r.head o ++ o.encode 8 r.event.mask)
    (int32Bytes o r.event.pid ++ (r.info ++ rest)) r.fd_range.1 r.fd_range.2
  have hpid := readInt32_field o (r.head o ++ (o.encode 8 r.event.mask ++
    int32Bytes o r.event.fd)) (r.info ++ rest) r.pid_range.1 r.pid_range.2
  simp only [List.length_append, r.length_head, Order.length_encode, length_int32Bytes,
    Nat.reduceAdd, List.append_assoc] at hmask hfd hpid
  simp only [eventFields, EventRecord.bytes, List.append_assoc, hmask, hfd, hpid]
  rfl

/-- Whatever the bytes are, a loop whose condition holds reads inside of
them and goes on with fewer. -/
theorem fanEventOk_reads {event : List UInt8} (h : fanEventOk o event = true) :
    ∃ e next, eventFields o event = some e ∧ fanEventNext o event = some next ∧
      next.length < event.length := by
  rw [fanEventOk, Bool.and_eq_true, decide_eq_true_eq] at h
  obtain ⟨hroom, hlen⟩ := h
  simp only [fanEventMetadataLen] at hroom
  have hread : ∀ offset n, offset + n ≤ 24 → ∃ k, readUInt o event offset n = some k :=
    fun offset n hle => ⟨_, if_pos (Nat.le_trans hle hroom)⟩
  obtain ⟨mask, hmask⟩ := hread 8 8 (by decide)
  obtain ⟨fd, hfd⟩ := hread 16 4 (by decide)
  obtain ⟨pid, hpid⟩ := hread 20 4 (by decide)
  obtain ⟨eventLen, hnext, hrange⟩ := (Option.any_eq_true _ _).mp hlen
  rw [Bool.and_eq_true, decide_eq_true_eq, decide_eq_true_eq, fanEventMetadataLen] at hrange
  refine ⟨⟨0, mask, Int.bmod fd 4294967296, Int.bmod pid 4294967296⟩, event.drop eventLen,
    ?_, ?_, ?_⟩
  · simp only [eventFields, readInt32, hmask, hfd, hpid]
    rfl
  · rw [fanEventNext, hnext]
    rfl
  · rw [List.length_drop]
    omega

end Reading

/-! ## The two systems -/

/-- The steps of the protocol that a step over the bytes is. When nothing is
read, there are no passes. -/
def Label.protocol : Label o → List OnAccess.Label
  | .read batch =>
    if batch.records.isEmpty then [.read [], .pass1Done, .pass2Done]
    else [.read (recordEvents batch.records)]
  | .pass1 => [.pass1]
  | .pass1Done => [.pass1Done]
  | .pass2 sys => [.pass2 sys]
  | .pass2Done => [.pass2Done]
  | .scan n calls => [.scan n calls]
  | .answer n => [.answer n]
  | .osOpen fd => [.osOpen fd]
  | .osClose fd => [.osClose fd]

/-- The pointers stand where the records begin that are still to do. -/
inductive SameControl : Control → OnAccess.Control → Prop
  | idle : SameControl .idle .idle
  | pass1 (seen todo : List EventRecord)
      (fits : ∀ r ∈ seen ++ todo, (r.bytes o).length ≤ fanotifyBufferSize) :
      SameControl (.pass1 (recordBytes o (seen ++ todo)) (recordBytes o todo))
        (.pass1 (recordEvents seen) (recordEvents todo))
  | pass2 (todo : List EventRecord)
      (fits : ∀ r ∈ todo, (r.bytes o).length ≤ fanotifyBufferSize) :
      SameControl (.pass2 (recordBytes o todo)) (.pass2 (recordEvents todo))

/-- Nothing else differs. -/
structure Same (s : State) (t : OnAccess.State) : Prop where
  control : SameControl o s.control t.control
  delivered : s.delivered = t.delivered
  monitor : s.monitor = t.monitor

section Steps

variable {o} {f : FanotifyMonitor}

theorem recordBytes_eq_nil {records : List EventRecord} :
    recordBytes o records = [] ↔ records = [] := by
  constructor
  · intro h
    cases records with
    | nil => rfl
    | cons r records =>
      have hlen := congrArg List.length h
      rw [recordBytes, List.flatMap_cons, List.length_append, r.length_bytes] at hlen
      simp only [fanEventMetadataLen, List.length_nil] at hlen
      omega
  · rintro rfl
    rfl

theorem fanotifyPass2Event_id (sys : EventCalls) (s : MonitorState)
    (e : FanotifyEventMetadata) (id : Nat) :
    fanotifyPass2Event f sys s { e with id } = fanotifyPass2Event f sys s e := rfl

/-- The other threads do not look at where the listener is. -/
theorem step_outside {label : OnAccess.Label} (hlabel : match label with
      | .scan _ _ | .answer _ | .osOpen _ | .osClose _ => True
      | _ => False) {s : State} {t : OnAccess.State} (h : Same o s t) :
    Option.Rel (Same o) (s.withOutside (OnAccess.step f s.outside label))
      (OnAccess.step f t label) := by
  obtain ⟨control, delivered, monitor⟩ := s
  obtain ⟨control', delivered', monitor'⟩ := t
  obtain ⟨hcontrol, hdelivered, hmonitor⟩ := h
  obtain rfl : delivered = delivered' := hdelivered
  obtain rfl : monitor = monitor' := hmonitor
  have houtside : State.outside ⟨control, delivered, monitor⟩ = ⟨.idle, delivered, monitor⟩ :=
    rfl
  rw [houtside]
  cases label with
  | scan n calls =>
    simp only [OnAccess.step]
    split
    · split
      · exact .some ⟨hcontrol, rfl, rfl⟩
      · exact .none
    · exact .none
  | answer n =>
    simp only [OnAccess.step]
    split
    · exact .some ⟨hcontrol, rfl, rfl⟩
    · exact .none
  | osOpen fd =>
    simp only [OnAccess.step]
    by_cases hfd : monitor.fds fd = none
    · rw [if_pos hfd, if_pos hfd]
      exact .some ⟨hcontrol, rfl, rfl⟩
    · rw [if_neg hfd, if_neg hfd]
      exact .none
  | osClose fd =>
    simp only [OnAccess.step]
    by_cases hfd : monitor.fds fd = some .other
    · rw [if_pos hfd, if_pos hfd]
      exact .some ⟨hcontrol, rfl, rfl⟩
    · rw [if_neg hfd, if_neg hfd]
      exact .none
  | _ => exact hlabel.elim

/-! ### The passes -/

theorem pass1_same {s : State} {t : OnAccess.State} (h : Same o s t) :
    Option.Rel (Same o) (step o f s .pass1) (OnAccess.step f t .pass1) := by
  obtain ⟨control, delivered, monitor⟩ := s
  obtain ⟨control', delivered', monitor'⟩ := t
  obtain ⟨hcontrol, rfl, rfl⟩ := h
  cases hcontrol with
  | idle => exact .none
  | pass2 todo fits => exact .none
  | pass1 seen todo fits =>
    cases todo with
    | nil => exact .none
    | cons r todo =>
      have hfits : (r.bytes o).length ≤ fanotifyBufferSize := fits r (by simp)
      have hcontrol : SameControl o (.pass1 (recordBytes o (seen ++ r :: todo))
          (recordBytes o todo)) (.pass1 (recordEvents seen ++ [r.event]) (recordEvents todo)) := by
        have hseen := SameControl.pass1 (o := o) (seen ++ [r]) todo (by simpa using fits)
        rw [List.append_assoc, recordEvents, List.map_append] at hseen
        exact hseen
      simp only [step, recordBytes, List.flatMap_cons, fanEventOk_record hfits, if_true,
        eventFields_record, fanEventNext_record hfits]
      exact .some ⟨hcontrol, rfl, rfl⟩

theorem pass1Done_same {s : State} {t : OnAccess.State} (h : Same o s t) :
    Option.Rel (Same o) (step o f s .pass1Done) (OnAccess.step f t .pass1Done) := by
  obtain ⟨control, delivered, monitor⟩ := s
  obtain ⟨control', delivered', monitor'⟩ := t
  obtain ⟨hcontrol, rfl, rfl⟩ := h
  cases hcontrol with
  | idle => exact .none
  | pass2 todo fits => exact .none
  | pass1 seen todo fits =>
    cases todo with
    | nil =>
      rw [List.append_nil] at fits ⊢
      exact .some ⟨.pass2 seen fits, rfl, rfl⟩
    | cons r todo =>
      have hfits : (r.bytes o).length ≤ fanotifyBufferSize := fits r (by simp)
      simp only [step, recordBytes, List.flatMap_cons, fanEventOk_record hfits, if_true]
      exact .none

theorem pass2_same (sys : EventCalls) {s : State} {t : OnAccess.State} (h : Same o s t) :
    Option.Rel (Same o) (step o f s (.pass2 sys)) (OnAccess.step f t (.pass2 sys)) := by
  obtain ⟨control, delivered, monitor⟩ := s
  obtain ⟨control', delivered', monitor'⟩ := t
  obtain ⟨hcontrol, rfl, rfl⟩ := h
  cases hcontrol with
  | idle => exact .none
  | pass1 seen todo fits => exact .none
  | pass2 todo fits =>
    cases todo with
    | nil => exact .none
    | cons r todo =>
      have hfits : (r.bytes o).length ≤ fanotifyBufferSize := fits r (by simp)
      simp only [step, recordBytes, List.flatMap_cons, fanEventOk_record hfits, if_true,
        eventFields_record, fanEventNext_record hfits, OnAccess.step, recordEvents,
        List.map_cons, Option.bind_eq_bind, Option.bind_some, fanotifyPass2Event_id]
      cases fanotifyPass2Event f sys monitor r.event with
      | error fault => exact .none
      | ok m =>
        exact .some ⟨.pass2 todo fun r' hr' => fits r' (List.mem_cons_of_mem r hr'), rfl, rfl⟩

theorem pass2Done_same {s : State} {t : OnAccess.State} (h : Same o s t) :
    Option.Rel (Same o) (step o f s .pass2Done) (OnAccess.step f t .pass2Done) := by
  obtain ⟨control, delivered, monitor⟩ := s
  obtain ⟨control', delivered', monitor'⟩ := t
  obtain ⟨hcontrol, rfl, rfl⟩ := h
  cases hcontrol with
  | idle => exact .none
  | pass1 seen todo fits => exact .none
  | pass2 todo fits =>
    cases todo with
    | nil => exact .some ⟨.idle, rfl, rfl⟩
    | cons r todo =>
      have hfits : (r.bytes o).length ≤ fanotifyBufferSize := fits r (by simp)
      simp only [step, recordBytes, List.flatMap_cons, fanEventOk_record hfits, if_true]
      exact .none

/-! ### Reading a batch -/

theorem read_same (batch : Batch o) {s : State} {t : OnAccess.State} (h : Same o s t) :
    Option.Rel (Same o) (step o f s (.read batch))
      (Transition.run (OnAccess.step f) t (Label.protocol o (.read batch))) := by
  obtain ⟨control, delivered, monitor⟩ := s
  obtain ⟨control', delivered', monitor'⟩ := t
  obtain ⟨hcontrol, rfl, rfl⟩ := h
  rw [Label.protocol]
  cases hcontrol with
  | pass1 seen todo fits =>
    split
    · exact .none
    · exact .none
  | pass2 todo fits =>
    split
    · exact .none
    · exact .none
  | idle =>
    obtain ⟨records, fits⟩ := batch
    cases records with
    | nil =>
      by_cases hfresh : FreshBatch ⟨.idle, delivered, monitor⟩ []
      · simp only [step, State.outside, recordEvents, List.map_nil, if_pos hfresh,
          List.isEmpty_nil, if_true, Transition.run, OnAccess.step]
        exact .some ⟨.idle, rfl, rfl⟩
      · simp only [step, State.outside, recordEvents, List.map_nil, if_neg hfresh,
          List.isEmpty_nil, if_true, Transition.run, OnAccess.step]
        exact .none
    | cons r records =>
      have hfits : ∀ r' ∈ r :: records, (r'.bytes o).length ≤ fanotifyBufferSize :=
        fun r' hr' => Batch.length_le ⟨r :: records, fits⟩ hr'
      have hne : recordBytes o (r :: records) ≠ [] := fun hnil => by
        cases recordBytes_eq_nil.mp hnil
      by_cases hfresh : FreshBatch ⟨.idle, delivered, monitor⟩ (recordEvents (r :: records))
      · simp only [step, State.outside, if_pos hfresh, if_neg hne, List.isEmpty_cons,
          Bool.false_eq_true, if_false, Transition.run, OnAccess.step]
        exact .some ⟨.pass1 [] (r :: records) hfits, rfl, rfl⟩
      · simp only [step, State.outside, if_neg hfresh, List.isEmpty_cons, Bool.false_eq_true,
          if_false, Transition.run, OnAccess.step]
        exact .none

/-- **One step over the bytes is the steps of the protocol** it stands for. -/
theorem step_same (label : Label o) {s : State} {t : OnAccess.State} (h : Same o s t) :
    Option.Rel (Same o) (step o f s label)
      (Transition.run (OnAccess.step f) t label.protocol) := by
  have hone : ∀ l : OnAccess.Label,
      Transition.run (OnAccess.step f) t [l] = OnAccess.step f t l := by
    intro l
    rw [Transition.run]
    cases OnAccess.step f t l <;> rfl
  cases label with
  | scan n calls =>
    rw [Label.protocol, hone]
    exact step_outside trivial h
  | answer n =>
    rw [Label.protocol, hone]
    exact step_outside trivial h
  | osOpen fd =>
    rw [Label.protocol, hone]
    exact step_outside trivial h
  | osClose fd =>
    rw [Label.protocol, hone]
    exact step_outside trivial h
  | read batch => exact read_same batch h
  | pass1 =>
    rw [Label.protocol, hone]
    exact pass1_same h
  | pass1Done =>
    rw [Label.protocol, hone]
    exact pass1Done_same h
  | pass2 sys =>
    rw [Label.protocol, hone]
    exact pass2_same sys h
  | pass2Done =>
    rw [Label.protocol, hone]
    exact pass2Done_same h

end Steps

/-! ## Runs -/

/-- **The monitor over the bytes has the runs of the protocol**: from the
same start, a list of labels is a run if and only if the labels of the
protocol are, and in the states they lead to the listener is at the same
event of the same pass and nothing else differs. -/
theorem run_same (f : FanotifyMonitor) (delivered : List FanotifyEventMetadata)
    (monitor : MonitorState) (labels : List (Label o)) :
    Option.Rel (Same o) (Transition.run (step o f) ⟨.idle, delivered, monitor⟩ labels)
      (Transition.run (OnAccess.step f) ⟨.idle, delivered, monitor⟩
        (labels.flatMap (Label.protocol o))) :=
  Transition.run_rel (fun _ _ label h => step_same label h) labels _ _ ⟨.idle, rfl, rfl⟩

end Armadito.OnAccess.EventBuffer
