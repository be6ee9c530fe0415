import Mathlib.Logic.Function.Basic
import Armadito.Core.ScanCtx

/-!
# OnAccess.FaMonitor

`famonitor.c` and `response.c`: what the on-access monitor does with one
fanotify event, in the listening thread and in the scan thread pool.

The state holds the process's descriptor table, so that an action on a
descriptor number is recorded with what the number refers to at that
moment: an answer written after the number was reused is recorded as the
answer to another event.
-/

namespace Armadito.OnAccess

open Armadito.Core

/-! ## Events and actions -/

/-- `FAN_OPEN`. -/
def fanOpen : Nat := 0x20

/-- `FAN_OPEN_PERM`. -/
def fanOpenPerm : Nat := 0x10000

/-- `FAN_ALLOW` and `FAN_DENY`. -/
inductive FanResponse where
  | allow
  | deny
  deriving DecidableEq, Repr

/-- `struct fanotify_event_metadata`. The code never sees `id`: it tells
apart two events that are given the same descriptor number in turn. -/
structure FanotifyEventMetadata where
  id : Nat
  mask : Nat
  fd : Int
  pid : Int
  deriving DecidableEq, Repr

/-- `event->mask & FAN_OPEN_PERM`. -/
def FanotifyEventMetadata.isPerm (event : FanotifyEventMetadata) : Prop :=
  event.mask &&& fanOpenPerm ≠ 0

/-- `event->mask & FAN_OPEN`. -/
def FanotifyEventMetadata.isOpen (event : FanotifyEventMetadata) : Prop :=
  event.mask &&& fanOpen ≠ 0

instance (event : FanotifyEventMetadata) : Decidable event.isPerm :=
  inferInstanceAs (Decidable (event.mask &&& fanOpenPerm ≠ 0))

instance (event : FanotifyEventMetadata) : Decidable event.isOpen :=
  inferInstanceAs (Decidable (event.mask &&& fanOpen ≠ 0))

/-- What an open descriptor of the process refers to. -/
inductive Descriptor where
  | event (id : Nat)
  | other
  deriving DecidableEq, Repr

/-- What the monitor does to the outside; `none` as target is a descriptor
number that is not open. -/
inductive Action where
  | responseWrite (target : Option Descriptor) (response : FanResponse)
  | close (target : Option Descriptor)
  | threadPoolPush (target : Option Descriptor)
  | scanned (target : Option Descriptor) (status : A6oFileStatus)
  | fireDetectionEvent (report : A6oReport)
  deriving DecidableEq, Repr

/-- What the action is done to. -/
def Action.target : Action → Option Descriptor
  | .responseWrite target _ | .close target | .threadPoolPush target
  | .scanned target _ => target
  | .fireDetectionEvent _ => none

/-- A file context in the thread pool; `verdict` is set once its scan is
over and its thread still has to answer. -/
structure Task where
  fileContext : A6oScanContext
  verdict : Option (A6oFileStatus × Option A6oReport)

/-- The fields of `struct fanotify_monitor` that do not change. -/
structure FanotifyMonitor where
  enablePermission : Bool
  myPid : Int

/-- The monitor between two events. -/
structure MonitorState where
  fds : Int → Option Descriptor
  scanConf : A6oScanConf
  threadPool : List Task
  log : List Action

/-! ## Descriptors -/

/-- `close(2)`: the number becomes free. -/
def closeFd (s : MonitorState) (fd : Int) : MonitorState :=
  { s with
    fds := Function.update s.fds fd none
    log := s.log ++ [.close (s.fds fd)] }

/-- Writes the answer, then closes the descriptor. -/
def responseWrite (s : MonitorState) (fd : Int) (r : FanResponse) : MonitorState :=
  closeFd { s with log := s.log ++ [.responseWrite (s.fds fd) r] } fd

/-- With `ENABLE_WATCHDOG` undefined the watchdog holds nothing … -/
def watchdogAdd (s : MonitorState) (_fd : Int) : MonitorState := s

/-- … and lets every answer through. -/
def watchdogRemove (_fd : Int) : Bool := true

/-- `a6o_scan_context_destroy`, which closes the descriptor the context
still holds. -/
def a6oScanContextDestroy (s : MonitorState) (ctx : A6oScanContext) : MonitorState :=
  if ctx.fd < 0 then s else closeFd s ctx.fd

/-! ## The listening thread -/

/-- What the system answers about one event: `fstat` (failed, or whether
the file is regular), `readlink` on `/proc/self/fd`, the calls of
`a6o_scan_context_get`; and the contents of the memory `malloc` returned
for the context. -/
structure EventCalls where
  fstat : Int → Option Bool
  readlink : Int → Option CString
  file : FileCalls
  malloc : A6oScanContext

/-- Nonzero when the file is not to be looked at. -/
def statCheck (sys : EventCalls) (fd : Int) : Bool :=
  match sys.fstat fd with
  | none => true
  | some isRegular => !isRegular

/-- `get_file_path_from_fd`. -/
def getFilePathFromFd (sys : EventCalls) (fd : Int) : Option CString :=
  if fd ≤ 0 then none else sys.readlink fd

/-- `g_thread_pool_push` of a scan. -/
def threadPoolPush (s : MonitorState) (ctx : A6oScanContext) : MonitorState :=
  { s with
    threadPool := s.threadPool ++ [⟨ctx, none⟩]
    log := s.log ++ [.threadPoolPush (s.fds ctx.fd)] }

/-- `fanotify_perm_event_process`. -/
def fanotifyPermEventProcess (sys : EventCalls) (s : MonitorState)
    (event : FanotifyEventMetadata) (path : Option CString) :
    Except Fault MonitorState :=
  if statCheck sys event.fd then
    .ok (if watchdogRemove event.fd then responseWrite s event.fd .allow else s)
  else do
    let (fileContext, scanConf, _) ←
      a6oScanContextGet sys.file sys.malloc event.fd path s.scanConf none
    let s := { s with scanConf }
    if fileContext.status ≠ .mustScan then
      let s := if watchdogRemove event.fd then responseWrite s event.fd .allow else s
      -- the descriptor is closed by now: keep `destroy` from closing it again
      return a6oScanContextDestroy s { fileContext with fd := -1 }
    else
      return threadPoolPush s fileContext

/-- `fanotify_notify_event_process`. -/
def fanotifyNotifyEventProcess (sys : EventCalls) (s : MonitorState)
    (event : FanotifyEventMetadata) (path : Option CString) :
    Except Fault MonitorState :=
  if statCheck sys event.fd then
    .ok s
  else do
    let (fileContext, scanConf, _) ←
      a6oScanContextGet sys.file sys.malloc event.fd path s.scanConf none
    let s := { s with scanConf }
    if fileContext.status ≠ .mustScan then
      return a6oScanContextDestroy s fileContext
    else
      return threadPoolPush s fileContext

/-- The body of the loop of `fanotify_pass_1`. -/
def fanotifyPass1Event (f : FanotifyMonitor) (s : MonitorState)
    (event : FanotifyEventMetadata) : MonitorState :=
  if event.isPerm then
    if event.pid = f.myPid then responseWrite s event.fd .allow
    else watchdogAdd s event.fd
  else s

/-- The body of the loop of `fanotify_pass_2`. -/
def fanotifyPass2Event (f : FanotifyMonitor) (sys : EventCalls) (s : MonitorState)
    (event : FanotifyEventMetadata) : Except Fault MonitorState :=
  if event.pid = f.myPid then .ok s
  else
    let p := getFilePathFromFd sys event.fd
    if event.isPerm then fanotifyPermEventProcess sys s event p
    else if event.isOpen then fanotifyNotifyEventProcess sys s event p
    else .ok s

/-! ## The scan threads -/

/-- What one scan meets: the outcomes of its seeks and the answers of the
modules' functions, which depend on the file's contents. -/
structure ScanCalls where
  seekOk : Nat → Bool
  answer : A6oModule → Int → Option CString → CString → A6oFileStatus × Option CString

/-- The context with the module functions behaving as in this scan. -/
def withAnswers (calls : ScanCalls) (ctx : A6oScanContext) : A6oScanContext :=
  { ctx with
    applicableModules := ctx.applicableModules.map fun modules =>
      modules.map fun m => { m with scanFun := m.scanFun.map fun _ => calls.answer m } }

/-- The first half of `scan_file_thread_fun`: the scan. -/
def scanFileThreadScan (calls : ScanCalls) (s : MonitorState) (ctx : A6oScanContext) :
    Except Fault (Task × List Action) := do
  let run ← a6oScanContextScan calls.seekOk (withAnswers calls ctx) (a6oReportInit ctx.path)
  return (⟨ctx, some (run.status, run.report)⟩, [.scanned (s.fds ctx.fd) run.status])

/-- The event with the report. Its copy for each listener needs the text of
the report; that a NULL text ends the process there is left out. -/
def fireDetectionEvent (s : MonitorState) (report : A6oReport) : MonitorState :=
  { s with log := s.log ++ [.fireDetectionEvent report] }

/-- The detection event at the end of the thread function. -/
def fireIfDetected (s : MonitorState) (status : A6oFileStatus)
    (report : Option A6oReport) : MonitorState :=
  match report with
  | none => s
  | some report =>
    if (status = .malware ∨ status = .suspicious) ∧ report.path ≠ none then
      fireDetectionEvent s report
    else s

/-- The response to a status. -/
def fanResponse (status : A6oFileStatus) : FanResponse :=
  if status = .malware then .deny else .allow

/-- The second half of `scan_file_thread_fun`: the answer. -/
def scanFileThreadAnswer (f : FanotifyMonitor) (s : MonitorState) (ctx : A6oScanContext)
    (status : A6oFileStatus) (report : Option A6oReport) : MonitorState :=
  let (s, ctx) :=
    if f.enablePermission then
      let s := if watchdogRemove ctx.fd then responseWrite s ctx.fd (fanResponse status)
        else s
      (s, { ctx with fd := -1 })
    else (s, ctx)
  fireIfDetected (a6oScanContextDestroy s ctx) status report

end Armadito.OnAccess
