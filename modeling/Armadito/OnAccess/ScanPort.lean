import Armadito.Core.Status
import Armadito.Lib.Run
import Armadito.Lib.Tally
import Mathlib.Algebra.Order.Group.Multiset

/-!
# OnAccess.ScanPort

The scan threads of the Windows on-access service (`scan_onaccess.c`).
`UserScanInit` creates the threads and makes a request for a message of the
driver for each of them; a completed request goes to any thread that waits,
which answers the message, and makes the request again. `UserScanFinalize`
raises the flag `Finalized`, cancels the requests, and waits for the threads.

A step is one call of a thread, of the driver or of the filter manager; what
the calls of the system return is part of the labels.
-/

namespace Armadito.OnAccess.Windows

open Armadito.Core (A6oFileStatus)

/-! ## State -/

/-- `USER_SCAN_THREAD_COUNT`. -/
def userScanThreadCount : Nat := 6

/-- `SCANNER_MESSAGE`, as far as the threads read it. -/
structure ScannerMessage where
  messageId : Nat
  fileName : CString
  deriving DecidableEq

/-- `SCANNER_REPLY_MESSAGE`. -/
structure ScannerReplyMessage where
  messageId : Nat
  scanResult : A6oFileStatus
  deriving DecidableEq

/-- What the completion port has for a thread. -/
inductive Completion where
  | received (message : ScannerMessage)
  | aborted
  deriving DecidableEq

/-- A thread in `UserScanWorker`, at the call that it makes next. -/
inductive Worker where
  /-- `Wow64DisableWow64FsRedirection` -/
  | starting
  /-- `GetQueuedCompletionStatus` -/
  | waiting
  /-- the scan and `FilterReplyMessage` -/
  | received (message : ScannerMessage)
  /-- reading `Finalized` -/
  | replied
  /-- `FilterGetMessage` -/
  | pumping
  | exited
  deriving DecidableEq

/-- How far `UserScanFinalize` is. -/
inductive Finalizing where
  | no
  | flagged
  /-- in `WaitForMultipleObjects` -/
  | cancelled
  | closed
  deriving DecidableEq

/-- The threads, the calls of `FilterGetMessage` under way, the messages of
the driver that no request has taken, the completed requests that no thread
has taken, and the answers given to `FilterReplyMessage`, with what it
returned. -/
structure PortState where
  workers : List Worker
  requests : Nat
  queue : List ScannerMessage
  completions : List Completion
  finalized : Bool
  finalizing : Finalizing
  replies : List (ScannerReplyMessage × Bool)

/-- After `UserScanInit`. -/
def userScanInit : PortState :=
  { workers := List.replicate userScanThreadCount .starting
    requests := userScanThreadCount
    queue := []
    completions := []
    finalized := false
    finalizing := .no
    replies := [] }

/-! ## Functions -/

/-- The answer to a message. The file is scanned by the name that
`ConvertDeviceNameToMsDosName` finds, if it finds one. -/
def scannerReply (message : ScannerMessage) (scan : Option A6oFileStatus) :
    ScannerReplyMessage :=
  { messageId := message.messageId, scanResult := scan.getD .einval }

/-- `GetQueuedCompletionStatus`. It fails for a request that was cancelled,
which ends the thread. -/
def Completion.worker : Completion → Worker
  | .received message => .received message
  | .aborted => .exited

/-- `CancelIoEx`. -/
def PortState.cancelIo (s : PortState) : PortState :=
  { s with
    requests := 0
    completions := s.completions ++ List.replicate s.requests .aborted }

/-- What the driver, the threads and the service do next. -/
inductive PortLabel where
  /-- the driver sends a message -/
  | send (message : ScannerMessage)
  /-- a request takes a message -/
  | deliver
  | start (i : Nat) (ok : Bool)
  | dequeue (i : Nat)
  | reply (i : Nat) (scan : Option A6oFileStatus) (ok : Bool)
  | check (i : Nat)
  | pump (i : Nat) (ok : Bool)
  | setFinalized
  | cancelIo
  | close
  deriving DecidableEq

/-- The threads, and the requests they have made. -/
def PortLabel.Internal : PortLabel → Prop
  | .send _ | .setFinalized | .cancelIo | .close => False
  | _ => True

/-- A step is there when the state allows it. -/
def portStep (s : PortState) : PortLabel → Option PortState
  | .send message =>
    if s.finalizing = .closed then none else some { s with queue := s.queue ++ [message] }
  | .deliver =>
    match s.requests, s.queue with
    | requests + 1, message :: queue =>
      some { s with requests, queue, completions := s.completions ++ [.received message] }
    | _, _ => none
  | .start i ok =>
    if s.workers[i]? = some .starting then
      some { s with workers := s.workers.set i (if ok then .waiting else .exited) }
    else none
  | .dequeue i =>
    if s.workers[i]? = some .waiting then
      match s.completions with
      | [] => none
      | c :: completions => some { s with workers := s.workers.set i c.worker, completions }
    else none
  | .reply i scan ok =>
    match s.workers[i]? with
    | some (.received message) =>
      some { s with
        workers := s.workers.set i .replied
        replies := s.replies ++ [(scannerReply message scan, ok)] }
    | _ => none
  | .check i =>
    if s.workers[i]? = some .replied then
      some { s with workers := s.workers.set i (if s.finalized then .exited else .pumping) }
    else none
  | .pump i ok =>
    if s.workers[i]? = some .pumping then
      if ok then
        some { s with workers := s.workers.set i .waiting, requests := s.requests + 1 }
      else some { s with workers := s.workers.set i .exited }
    else none
  | .setFinalized =>
    if s.finalizing = .no then some { s with finalized := true, finalizing := .flagged }
    else none
  | .cancelIo =>
    if s.finalizing = .flagged then some { s.cancelIo with finalizing := .cancelled } else none
  | .close =>
    if s.finalizing = .cancelled ∧ ∀ w ∈ s.workers, w = .exited then
      some { s with finalizing := .closed }
    else none

/-- No thread can go on, and no request is answered. -/
def AtRest (s : PortState) : Prop := ∀ l : PortLabel, l.Internal → portStep s l = none

/-! ## Tallies -/

/-- 1 for a thread that takes a completed request before it ends. -/
def Worker.needs : Worker → Nat
  | .starting | .waiting | .pumping => 1
  | _ => 0

/-- 1 for a thread that a request was made for. -/
def Worker.expects : Worker → Nat
  | .starting | .waiting => 1
  | _ => 0

/-- A bound on the steps that a thread still makes once `Finalized` is set. -/
def Worker.rank : Worker → Nat
  | .exited => 0
  | .replied => 1
  | .received _ => 2
  | .waiting => 3
  | .starting => 4
  | .pumping => 5

/-- The messages in the hands of a thread. -/
def Worker.held : Worker → Multiset Nat
  | .received message => {message.messageId}
  | _ => 0

/-- The message that a completion brings. -/
def Completion.held : Completion → Multiset Nat
  | .received message => {message.messageId}
  | .aborted => 0

end Armadito.OnAccess.Windows
