import Armadito.OnAccess.Protocol
import Armadito.OnAccess.Queue

/-!
# OnAccess.Watchdog

The on-access monitor with `ENABLE_WATCHDOG`: `watchdog.c` holds the
descriptors that wait for an answer, and whoever takes a descriptor out of
its queue writes the answer. The watchdog thread takes out those that have
waited too long.

The functions of `famonitor.c` are those of `OnAccess.FaMonitor`, compiled
the other way. What the log records here is the responses, each with the
thread that wrote it.
-/

namespace Armadito.OnAccess.Watchdog

open Armadito.Core

/-! ## The state -/

/-- Who writes a response. A scan thread is told by what its descriptor
number referred to each time the file was read. -/
inductive Writer where
  | listener
  | watchdog
  | scanThread (files : List (Option Descriptor))
  deriving DecidableEq, Repr

/-- A response, with what the number it was written for referred to. -/
structure Response where
  writer : Writer
  target : Option Descriptor
  response : FanResponse
  deriving DecidableEq, Repr

/-- How far `scan_file_thread_fun` has come: not started, inside the scan,
with the verdict, or let through by `watchdog_remove` with the response
still to be written. -/
inductive Progress where
  | queued
  | scanning
  | scanned (status : A6oFileStatus)
  | removed (status : A6oFileStatus)

/-- A file context in the thread pool. `files` is what its number referred
to at each read so far, the one for the MIME type first. -/
structure Task where
  fileContext : A6oScanContext
  files : List (Option Descriptor)
  progress : Progress

/-- What the threads of the monitor share. `popEntries` is what is left of
the array of the watchdog thread. -/
structure MonitorState where
  fds : Int → Option Descriptor
  scanConf : A6oScanConf
  queue : Queue Nat
  popEntries : List QueueEntry
  threadPool : List Task
  log : List Response

/-! ## Watchdog and responses -/

/-- Writes the answer, then closes the descriptor. -/
def responseWrite (s : MonitorState) (writer : Writer) (fd : Int) (r : FanResponse) :
    MonitorState :=
  { s with
    fds := Function.update s.fds fd none
    log := s.log ++ [⟨writer, s.fds fd, r⟩] }

/-- The queue operations fail when they read memory that is not theirs. -/
def orFault {α : Type} : Option α → Except Fault α
  | some a => .ok a
  | none => .error .useAfterFree

/-- `watchdog_add`. -/
def watchdogAdd (malloc : Malloc Nat) (now : Timespec) (s : MonitorState) (fd : Int) :
    Except Fault MonitorState := do
  let queue ← orFault (queuePush malloc s.queue fd now)
  return { s with queue }

/-- Nonzero when the descriptor was still in the queue. -/
def watchdogRemove (s : MonitorState) (fd : Int) : Except Fault (Bool × MonitorState) := do
  let (ret, _, queue) ← orFault (queuePopFd s.queue fd)
  return (ret ≠ 0, { s with queue })

/-- `N_FD`. -/
def nFd : Nat := 100

/-- One round of the loop of `watchdog_thread_fun`, up to the answers. -/
def watchdogThreadPop (s : MonitorState) (before : Timespec) :
    Except Fault MonitorState := do
  let (popEntries, queue) ← orFault (queuePopTimeout s.queue before nFd)
  return { s with queue, popEntries }

/-! ## The listening thread -/

/-- `g_thread_pool_push`. The MIME type of the context was read from its
number. -/
def threadPoolPush (s : MonitorState) (ctx : A6oScanContext) : MonitorState :=
  { s with threadPool := s.threadPool ++ [⟨ctx, [s.fds ctx.fd], .queued⟩] }

/-- `a6o_scan_context_destroy`, which closes the descriptor the context
still holds. -/
def a6oScanContextDestroy (s : MonitorState) (ctx : A6oScanContext) : MonitorState :=
  if ctx.fd < 0 then s else { s with fds := Function.update s.fds ctx.fd none }

/-- Up to the response, which is due when the first component is true. -/
def fanotifyPermEventProcess (sys : EventCalls) (s : MonitorState)
    (event : FanotifyEventMetadata) (path : Option CString) :
    Except Fault (Bool × MonitorState) :=
  if statCheck sys event.fd then
    watchdogRemove s event.fd
  else do
    let (fileContext, scanConf, _) ←
      a6oScanContextGet sys.file sys.malloc event.fd path s.scanConf none
    let s := { s with scanConf }
    if fileContext.status ≠ .mustScan then
      watchdogRemove s event.fd
    else
      return (false, threadPoolPush s fileContext)

/-- `fanotify_notify_event_process`; whether a scan was pushed. -/
def fanotifyNotifyEventProcess (sys : EventCalls) (s : MonitorState)
    (event : FanotifyEventMetadata) (path : Option CString) :
    Except Fault (Bool × MonitorState) :=
  if statCheck sys event.fd then
    .ok (false, s)
  else do
    let (fileContext, scanConf, _) ←
      a6oScanContextGet sys.file sys.malloc event.fd path s.scanConf none
    let s := { s with scanConf }
    if fileContext.status ≠ .mustScan then
      return (false, a6oScanContextDestroy s fileContext)
    else
      return (false, threadPoolPush s fileContext)

/-- The body of the loop of `fanotify_pass_1`. -/
def fanotifyPass1Event (f : FanotifyMonitor) (malloc : Malloc Nat) (now : Timespec)
    (s : MonitorState) (event : FanotifyEventMetadata) : Except Fault MonitorState :=
  if event.isPerm then
    if event.pid = f.myPid then .ok (responseWrite s .listener event.fd .allow)
    else watchdogAdd malloc now s event.fd
  else .ok s

/-- The body of the loop of `fanotify_pass_2`. -/
def fanotifyPass2Event (f : FanotifyMonitor) (sys : EventCalls) (s : MonitorState)
    (event : FanotifyEventMetadata) : Except Fault (Bool × MonitorState) :=
  if event.pid = f.myPid then .ok (false, s)
  else
    let p := getFilePathFromFd sys event.fd
    if event.isPerm then fanotifyPermEventProcess sys s event p
    else if event.isOpen then fanotifyNotifyEventProcess sys s event p
    else .ok (false, s)

/-! ## The scan threads -/

/-- The first lines of `scan_file_thread_fun`. -/
def scanFileThreadStart (t : Task) : Task :=
  { t with progress := .scanning }

/-- A module reads: the file that the number refers to now. -/
def scanFileThreadRead (s : MonitorState) (t : Task) : Task :=
  { t with files := t.files ++ [s.fds t.fileContext.fd] }

/-- `a6o_scan_context_scan` comes back with the verdict. -/
def scanFileThreadScan (calls : ScanCalls) (t : Task) : Except Fault Task := do
  let run ← a6oScanContextScan calls.seekOk (withAnswers calls t.fileContext)
    (a6oReportInit t.fileContext.path)
  return { t with progress := .scanned run.status }

/-- `if (watchdog_remove(..))`: the task goes on to its response, or ends
without one. Without the permission mode no response is due, and the
context is destroyed with its descriptor. -/
def scanFileThreadRemove (f : FanotifyMonitor) (s : MonitorState) (n : Nat) (t : Task)
    (status : A6oFileStatus) : Except Fault MonitorState :=
  if f.enablePermission then do
    let (due, s) ← watchdogRemove s t.fileContext.fd
    if due then
      return { s with threadPool := s.threadPool.set n { t with progress := .removed status } }
    else
      return { s with threadPool := s.threadPool.eraseIdx n }
  else
    .ok (a6oScanContextDestroy { s with threadPool := s.threadPool.eraseIdx n } t.fileContext)

/-- The response, after which the task is over. -/
def scanFileThreadAnswer (s : MonitorState) (n : Nat) (t : Task) (status : A6oFileStatus) :
    MonitorState :=
  responseWrite { s with threadPool := s.threadPool.eraseIdx n } (.scanThread t.files)
    t.fileContext.fd (fanResponse status)

/-! ## Steps -/

/-- Where the listening thread is; `answer` is inside the second pass,
between `watchdog_remove` and the response for the number. -/
inductive Control where
  | idle
  | pass1 (seen todo : List FanotifyEventMetadata)
  | pass2 (todo : List FanotifyEventMetadata)
  | answer (fd : Int) (todo : List FanotifyEventMetadata)

/-- The listening thread, the events it was given so far, and what the
threads share. -/
structure State where
  control : Control
  delivered : List FanotifyEventMetadata
  monitor : MonitorState

/-- One step of one of the threads, with what the system and the modules
answer in it, or of the rest of the process. A scan is a start, any number
of reads, and the verdict; the other threads come in between. -/
inductive Label where
  | read (buf : List FanotifyEventMetadata)
  | pass1 (malloc : Malloc Nat) (now : Timespec)
  | pass1Done
  | pass2 (sys : EventCalls)
  | pass2Answer
  | pass2Done
  | scanStart (n : Nat)
  | scanRead (n : Nat)
  | scan (n : Nat) (calls : ScanCalls)
  | remove (n : Nat)
  | answer (n : Nat)
  | timeout (before : Timespec)
  | timeoutAnswer
  | osOpen (fd : Int)
  | osClose (fd : Int)

/-- The kernel hands out pairwise distinct descriptors that are not in use;
one that was closed may come again. -/
def FreshBatch (s : State) (buf : List FanotifyEventMetadata) : Prop :=
  (buf.map fun e => e.fd).Nodup ∧
  ((s.delivered ++ buf).map fun e => e.id).Nodup ∧
  ∀ e ∈ buf, 0 ≤ e.fd ∧ s.monitor.fds e.fd = none

instance (s : State) (buf : List FanotifyEventMetadata) : Decidable (FreshBatch s buf) :=
  inferInstanceAs (Decidable (_ ∧ _ ∧ _))

/-- The state with a task changed. -/
def State.setTask (s : State) (n : Nat) (t : Task) : State :=
  { s with monitor := { s.monitor with threadPool := s.monitor.threadPool.set n t } }

/-- The state after a function of the monitor; none after a fault. -/
def State.withMonitor (s : State) : Except Fault MonitorState → Option State
  | .ok m => some { s with monitor := m }
  | .error _ => none

/-- A step in which the code would abort has no successor. -/
def step (f : FanotifyMonitor) (s : State) : Label → Option State
  | .read buf =>
    match s.control with
    | .idle =>
      if FreshBatch s buf then
        some { control := .pass1 [] buf
               delivered := s.delivered ++ buf
               monitor := { s.monitor with fds := openBatch s.monitor.fds buf } }
      else none
    | _ => none
  | .pass1 malloc now =>
    match s.control with
    | .pass1 seen (e :: todo) =>
      State.withMonitor { s with control := .pass1 (seen ++ [e]) todo }
        (fanotifyPass1Event f malloc now s.monitor e)
    | _ => none
  | .pass1Done =>
    match s.control with
    | .pass1 seen [] => some { s with control := .pass2 seen }
    | _ => none
  | .pass2 sys =>
    match s.control with
    | .pass2 (e :: todo) =>
      match fanotifyPass2Event f sys s.monitor e with
      | .ok (due, m) =>
        some { s with
          control := if due then .answer e.fd todo else .pass2 todo
          monitor := m }
      | .error _ => none
    | _ => none
  | .pass2Answer =>
    match s.control with
    | .answer fd todo =>
      some { s with
        control := .pass2 todo
        monitor := responseWrite s.monitor .listener fd .allow }
    | _ => none
  | .pass2Done =>
    match s.control with
    | .pass2 [] => some { s with control := .idle }
    | _ => none
  | .scanStart n =>
    match s.monitor.threadPool[n]? with
    | some t@⟨_, _, .queued⟩ => some (s.setTask n (scanFileThreadStart t))
    | _ => none
  | .scanRead n =>
    match s.monitor.threadPool[n]? with
    | some t@⟨_, _, .scanning⟩ => some (s.setTask n (scanFileThreadRead s.monitor t))
    | _ => none
  | .scan n calls =>
    match s.monitor.threadPool[n]? with
    | some t@⟨_, _, .scanning⟩ =>
      match scanFileThreadScan calls t with
      | .ok t' => some (s.setTask n t')
      | .error _ => none
    | _ => none
  | .remove n =>
    match s.monitor.threadPool[n]? with
    | some t@⟨_, _, .scanned status⟩ =>
      s.withMonitor (scanFileThreadRemove f s.monitor n t status)
    | _ => none
  | .answer n =>
    match s.monitor.threadPool[n]? with
    | some t@⟨_, _, .removed status⟩ =>
      some { s with monitor := scanFileThreadAnswer s.monitor n t status }
    | _ => none
  | .timeout before =>
    match s.monitor.popEntries with
    | [] => s.withMonitor (watchdogThreadPop s.monitor before)
    | _ :: _ => none
  | .timeoutAnswer =>
    match s.monitor.popEntries with
    | entry :: popEntries =>
      some { s with monitor :=
        responseWrite { s.monitor with popEntries } .watchdog entry.fd .allow }
    | [] => none
  | .osOpen fd =>
    if s.monitor.fds fd = none then
      some { s with monitor := { s.monitor with
        fds := Function.update s.monitor.fds fd (some .other) } }
    else none
  | .osClose fd =>
    if s.monitor.fds fd = some .other then
      some { s with monitor := { s.monitor with
        fds := Function.update s.monitor.fds fd none } }
    else none

/-- Nothing read, nothing done; the process may hold descriptors, none of
them of an event. -/
def IsStart (s : State) : Prop :=
  s.control = .idle ∧ s.delivered = [] ∧ s.monitor.queue = queueNew ∧
  s.monitor.popEntries = [] ∧ s.monitor.threadPool = [] ∧ s.monitor.log = [] ∧
  ∀ fd id, s.monitor.fds fd ≠ some (.event id)

end Armadito.OnAccess.Watchdog
