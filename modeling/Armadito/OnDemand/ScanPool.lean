import Armadito.Lib.Run
import Armadito.Lib.SlotPool
import Mathlib.Data.UInt
import Mathlib.Data.Fintype.Fin

/-!
# OnDemand.ScanPool

The scan threads of the Windows service (`scan_ondemand.c`). `MainThreadWork`
creates a thread for each client that connects, and stores what belongs to
it in a slot of `ScanThreadCtx`; the thread finds its slot again by its id,
and clears it when it ends. What the calls of the system return is part of
the labels. A failed call ends `MainThreadWork`, and the pool with it, which
is no step here.

The search for a slot stops at the first one that is in use. Nothing but
the first slot is ever taken so, and a client that connects while another
one is served takes that slot over.
-/

namespace Armadito.OnDemand

/-! ## State -/

/-- A `HANDLE` that is not NULL. -/
abbrev Handle := Nat

/-- `SCAN_THREAD_COUNT`. -/
abbrev poolSize : Nat := 3

/-- `ONDEMAND_THREAD_CONTEXT`. -/
structure OndemandThreadContext where
  handle : Option Handle
  threadId : UInt32
  hPipeInst : Option Handle
  scanId : Int
  aborted : UInt32

/-- `HEAP_ZERO_MEMORY`. -/
def OndemandThreadContext.zero : OndemandThreadContext :=
  { handle := none, threadId := 0, hPipeInst := none, scanId := 0, aborted := 0 }

/-- A running thread: its id, the pipe of the client that it was created for,
the slot that `MainThreadWork` stored it in, and the slot that it has found
itself, its local `index`. -/
structure ScanThread where
  threadId : UInt32
  pipe : Handle
  slot : Fin poolSize
  index : Option (Fin poolSize)
  deriving DecidableEq

/-- The contexts and their count, the `index` that `MainThreadWork` keeps
from one client to the next, the threads that run in no particular order, and
the handles given to `CloseHandle` so far. -/
structure PoolState where
  scanThreadCtx : Fin poolSize → OndemandThreadContext
  scanThreadCount : UInt32
  index : Fin poolSize
  threads : List ScanThread
  closed : List (Option Handle)

/-- No thread was started. -/
def newPool : PoolState :=
  { scanThreadCtx := fun _ => .zero, scanThreadCount := 0, index := 0, threads := [],
    closed := [] }

/-! ## Functions -/

/-- The first slot with the property. -/
def firstSlot (p : Fin poolSize → Bool) : Option (Fin poolSize) :=
  (List.finRange poolSize).find? p

/-- The slot for a new thread: the first one whose handle is not NULL, else
the one of the client before. -/
def selectedSlot (s : PoolState) : Fin poolSize :=
  (firstSlot fun i => (s.scanThreadCtx i).handle.isSome).getD s.index

/-- The thread is created in a slot, resumed and counted. -/
def PoolState.createThread (s : PoolState) (index : Fin poolSize) (hPipe handle : Handle)
    (threadId : UInt32) : PoolState :=
  { s with
    scanThreadCtx := Function.update s.scanThreadCtx index
      { s.scanThreadCtx index with
        hPipeInst := some hPipe, scanId := 0, handle := some handle, threadId := threadId }
    scanThreadCount := s.scanThreadCount + 1
    index := index
    threads := ⟨threadId, hPipe, index, none⟩ :: s.threads }

/-- One round of the loop of `MainThreadWork` in which a client connects;
no client is accepted when the limit is reached. -/
def mainThreadWork (s : PoolState) (hPipe handle : Handle) (threadId : UInt32) :
    Option PoolState :=
  if s.scanThreadCount.toNat = poolSize then none
  else some (s.createThread (selectedSlot s) hPipe handle threadId)

/-- The beginning of `ScanThreadWork`: a thread that does not find its
context, or cannot disable the file system redirection, returns. -/
def scanThreadStart (s : PoolState) (t : ScanThread) (redirected : Bool) : PoolState :=
  match firstSlot fun i => t.threadId = (s.scanThreadCtx i).threadId with
  | none => { s with threads := s.threads.erase t }
  | some index =>
    if redirected then { s with threads := { t with index := some index } :: s.threads.erase t }
    else { s with threads := s.threads.erase t }

/-- The end of `ScanThreadWork`: the pipe is closed, the slot is cleared. -/
def scanThreadFinish (s : PoolState) (t : ScanThread) (index : Fin poolSize) : PoolState :=
  { s with
    scanThreadCtx := Function.update s.scanThreadCtx index
      { s.scanThreadCtx index with
        aborted := 0, handle := none, hPipeInst := none, scanId := 0, threadId := 0 }
    scanThreadCount := s.scanThreadCount - 1
    threads := s.threads.erase t
    closed := s.closed ++ [(s.scanThreadCtx index).hPipeInst] }

/-- A client connects, with the pipe, the thread and its id as the system
returns them; a thread starts; a thread ends. -/
inductive PoolLabel where
  | connect (hPipe handle : Handle) (threadId : UInt32)
  | start (threadId : UInt32) (redirected : Bool)
  | finish (threadId : UInt32)

/-- The thread of an id. -/
def runningThread (s : PoolState) (threadId : UInt32) : Option ScanThread :=
  s.threads.find? fun t => t.threadId = threadId

/-- The id of a new thread is not 0, and no running thread has it. -/
def poolStep (s : PoolState) : PoolLabel → Option PoolState
  | .connect hPipe handle threadId =>
    if threadId = 0 ∨ (runningThread s threadId).isSome then none
    else mainThreadWork s hPipe handle threadId
  | .start threadId redirected =>
    match runningThread s threadId with
    | none => none
    | some t => if t.index.isSome then none else some (scanThreadStart s t redirected)
  | .finish threadId =>
    match runningThread s threadId with
    | none => none
    | some t => t.index.map (scanThreadFinish s t)

/-! ## What is expected of the pool -/

/-- Running threads have different slots, each slot keeps the pipe of its
thread, and the count is that of the threads and of the slots in use. -/
structure Consistent (s : PoolState) : Prop where
  distinct : (s.threads.map ScanThread.slot).Nodup
  keepsPipe : ∀ t ∈ s.threads, (s.scanThreadCtx t.slot).hPipeInst = some t.pipe
  count_threads : s.scanThreadCount.toNat = s.threads.length
  count_slots : s.scanThreadCount.toNat =
    (Finset.univ.filter fun i => (s.scanThreadCtx i).handle.isSome).card
  count_le : s.scanThreadCount.toNat ≤ poolSize

/-- A client connects when no slot is in use, and the redirection can be
disabled for a thread that starts. -/
def Allowed (s : PoolState) : PoolLabel → Prop
  | .connect _ _ _ => ∀ i, (s.scanThreadCtx i).handle = none
  | .start _ redirected => redirected = true
  | .finish _ => True

end Armadito.OnDemand
