import Armadito.Core.Event
import Armadito.Core.OnDemand
import Armadito.Jrpc.Marshall

/-!
# Rpc.RpcBe

`rpcbe.c`: the `scan` and `listen` methods of the daemon and the event
callbacks they register, with the parameter structures of `rpctypes.h`.

Connections and scan objects live on the heap. The model gives each one an
address that is never given out twice, so that an access after `free` can be
told from an access to a newer object at the same place.
-/

namespace Armadito.Rpc

open Armadito.Core Armadito.Jrpc

/-! ## Parameters -/

/-- `struct a6o_rpc_scan_param`. -/
structure A6oRpcScanParam where
  rootPath : CString
  sendProgress : Int
  recursive : Int
  threaded : Int
  scanId : Int
  deriving DecidableEq, Repr

/-- `struct a6o_rpc_listen_param`. -/
structure A6oRpcListenParam where
  detection : Int
  onDemand : Int
  onDemandProgress : Int
  quarantine : Int
  realTimeProt : Int
  avUpdate : Int
  deriving DecidableEq, Repr

/-- `int` has 32 bits, `time_t` 64. -/
def unmarshallScanParam (obj : Option Json) : Except Int A6oRpcScanParam := do
  let rootPath ← structFieldString obj "root_path"
  let sendProgress ← structFieldInt 32 obj "send_progress"
  let recursive ← structFieldInt 32 obj "recursive"
  let threaded ← structFieldInt 32 obj "threaded"
  let scanId ← structFieldInt 64 obj "scan_id"
  return { rootPath, sendProgress, recursive, threaded, scanId }

/-- The unmarshalling of a `struct a6o_rpc_listen_param`. -/
def unmarshallListenParam (obj : Option Json) : Except Int A6oRpcListenParam := do
  let detection ← structFieldInt 32 obj "detection"
  let onDemand ← structFieldInt 32 obj "on_demand"
  let onDemandProgress ← structFieldInt 32 obj "on_demand_progress"
  let quarantine ← structFieldInt 32 obj "quarantine"
  let realTimeProt ← structFieldInt 32 obj "real_time_prot"
  let avUpdate ← structFieldInt 32 obj "av_update"
  return { detection, onDemand, onDemandProgress, quarantine, realTimeProt, avUpdate }

/-! ## The daemon -/

/-- An event callback with its data; a pointer to a scan object may be
NULL. -/
inductive EventCb where
  | scanEventCb (conn : Nat) (onDemand : Option Nat)
  | listenEventCb (conn : Nat)
  deriving DecidableEq, Repr

/-- Connections and scan objects by their addresses, the callbacks of the
event source, and the scan threads that were started, with their argument. -/
structure Daemon where
  conns : List Nat
  onDemands : List (Nat × A6oOnDemand)
  callbacks : List (CallbackEntry EventCb)
  threads : List (Option Nat)

/-- Reading a scan object through a pointer. -/
def derefOnDemand (d : Daemon) : Option Nat → Except Fault A6oOnDemand
  | none => .error .nullDeref
  | some addr =>
    match d.onDemands.lookup addr with
    | none => .error .useAfterFree
    | some onDemand => .ok onDemand

/-- A connection that was freed is not read. -/
def derefConn (d : Daemon) (addr : Nat) : Except Fault Unit :=
  if addr ∈ d.conns then .ok () else .error .useAfterFree

/-- A notification sent to a client. -/
structure Notification where
  conn : Nat
  event : A6oEvent
  deriving DecidableEq, Repr

/-- `jrpc_notify`, on a connection that must still be there. -/
def jrpcNotify (d : Daemon) (conn : Nat) (event : A6oEvent) :
    Except Fault (Option Notification) := do
  derefConn d conn
  return some ⟨conn, event⟩

/-- The events that carry the id of a scan. -/
def eventHasScanId : A6oEventType → Bool
  | .detection | .onDemandCompleted | .onDemandProgress => true
  | _ => false

/-- `marshalled` tells whether the event could be turned into JSON. -/
def scanEventCb (d : Daemon) (ev : A6oEvent) (conn : Nat) (onDemand : Option Nat)
    (marshalled : Bool) : Except Fault (Option Notification) := do
  let scan ← derefOnDemand d onDemand
  if eventHasScanId ev.type && ev.scanId != scan.scanId then return none
  else if !marshalled then return none
  else jrpcNotify d conn ev

/-- `listen_event_cb`. -/
def listenEventCb (d : Daemon) (ev : A6oEvent) (conn : Nat) (marshalled : Bool) :
    Except Fault (Option Notification) :=
  if !marshalled then .ok none else jrpcNotify d conn ev

/-- `(*p->cb)(ev, p->data)`. -/
def runCallback (d : Daemon) (ev : A6oEvent) (marshalled : Bool) :
    EventCb → Except Fault (Option Notification)
  | .scanEventCb conn onDemand => scanEventCb d ev conn onDemand marshalled
  | .listenEventCb conn => listenEventCb d ev conn marshalled

/-- The start of `scan_thread_fun`: `a6o_on_demand_run` reads its argument
at once. -/
def scanThreadFun (d : Daemon) (onDemand : Option Nat) : Except Fault A6oOnDemand :=
  derefOnDemand d onDemand

/-! ## The methods -/

/-- The flags of a request. -/
def scanFlags (s : A6oRpcScanParam) : Nat :=
  (if s.threaded ≠ 0 then a6oScanThreaded else 0) |||
    (if s.recursive ≠ 0 then a6oScanRecurse else 0)

/-- The events a scan request subscribes to. -/
def scanEventMask (s : A6oRpcScanParam) : Nat :=
  let eventMask := A6oEventType.detection.mask ||| A6oEventType.onDemandCompleted.mask
  if s.sendProgress ≠ 0 then eventMask ||| A6oEventType.onDemandProgress.mask else eventMask

/-- The scan object a request asks for, NULL when its root is not found. -/
def scanOnDemand (realpath : Option (CString → Option CString)) (s : A6oRpcScanParam) :
    Option A6oOnDemand :=
  a6oOnDemandNew realpath s.rootPath s.scanId (scanFlags s) s.sendProgress

/-- The part of `scan_method` behind the decoding. `addr` is the address
the scan object gets, when it is created. -/
def startScan (realpath : Option (CString → Option CString)) (d : Daemon) (conn addr : Nat)
    (s : A6oRpcScanParam) : Daemon :=
  let onDemand := (scanOnDemand realpath s).map fun _ => addr
  { d with
    onDemands := match scanOnDemand realpath s with
      | some scan => (addr, scan) :: d.onDemands
      | none => d.onDemands
    callbacks := a6oEventSourceAddCb d.callbacks (scanEventMask s) (.scanEventCb conn onDemand)
    threads := d.threads ++ [onDemand] }

/-- `scan_method`. -/
def scanMethod (realpath : Option (CString → Option CString)) (d : Daemon) (conn addr : Nat)
    (params : Option Json) : Except Fault (Int × Daemon) :=
  match jrpcUnmarshallStructPtr params unmarshallScanParam with
  | .error ret => .ok (ret, d)
  | .ok none => .error .nullDeref -- the log message reads `s_param->root_path`
  | .ok (some s) => .ok (jrpcOk, startScan realpath d conn addr s)

/-- The events a listen request subscribes to. -/
def listenEventMask (l : A6oRpcListenParam) : Nat :=
  let bit (flag : Int) (mask : Nat) : Nat := if flag ≠ 0 then mask else 0
  bit l.detection A6oEventType.detection.mask |||
  bit l.onDemand (A6oEventType.onDemandStart.mask ||| A6oEventType.onDemandCompleted.mask) |||
  bit l.onDemandProgress A6oEventType.onDemandProgress.mask |||
  bit l.quarantine A6oEventType.quarantine.mask |||
  bit l.realTimeProt A6oEventType.realTimeProt.mask |||
  bit l.avUpdate A6oEventType.avUpdate.mask

/-- The end of `listen_method`. -/
def startListen (d : Daemon) (conn : Nat) (l : A6oRpcListenParam) : Daemon :=
  { d with
    callbacks := a6oEventSourceAddCb d.callbacks (listenEventMask l) (.listenEventCb conn) }

/-- `listen_method`. -/
def listenMethod (d : Daemon) (conn : Nat) (params : Option Json) : Except Fault (Int × Daemon) :=
  match jrpcUnmarshallStructPtr params unmarshallListenParam with
  | .error ret => .ok (ret, d)
  | .ok none => .error .nullDeref -- `l_param->detection`
  | .ok (some l) => .ok (jrpcOk, startListen d conn l)

end Armadito.Rpc
