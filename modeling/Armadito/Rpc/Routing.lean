import Armadito.Core.Producers
import Armadito.Rpc.EventWire
import Armadito.Rpc.Listeners

/-!
# Rpc.Routing

Which events reach which client. On-demand scans and the on-access monitor
fire events in any order; every event is offered to every callback that
asked for its type, and a callback of a scan request compares the scan id of
the event with the one of its scan. That tells the scans apart, but not a
scan from the on-access monitor, whose events have no scan id.
-/

namespace Armadito.Rpc.Routing

open Armadito.Core Armadito.Core.Producers Armadito.Jrpc

/-! ## Firing an event -/

/-- What a callback looks at. -/
def header (e : EventNew.A6oEvent) : A6oEvent :=
  { type := e.type, scanId := (e.u.scanId.map Int64.toInt).getD 0 }

/-- A notification with its connection. -/
structure Sent where
  conn : Nat
  event : EventNew.A6oEvent
  deriving DecidableEq

/-- `a6o_event_source_fire_event`: the callbacks run one after the other,
until one of them reads through a bad pointer. -/
def notify (d : Daemon) (e : EventNew.A6oEvent) : List EventCb → List Sent × Bool
  | [] => ([], false)
  | cb :: cbs =>
    match runCallback d (header e) (marshalled e) cb with
    | .error _ => ([], true)
    | .ok sent =>
      let rest := notify d e cbs
      (sent.toList.map (fun n => ⟨n.conn, e⟩) ++ rest.1, rest.2)

/-! ## The daemon with its history -/

/-- Who fired an event. -/
inductive Origin where
  | onDemand (addr : Nat)
  | onAccess
  deriving DecidableEq, Repr

/-- An event with its origin. -/
structure Fired where
  origin : Origin
  event : EventNew.A6oEvent

/-- A scan request: its connection, its scan object, its parameters. -/
structure Request where
  conn : Nat
  addr : Nat
  param : A6oRpcScanParam

/-- `requests` has the newest first, as the list of callbacks does; `fired`
and `sent` have the oldest first. -/
structure State where
  base : Rpc.State
  requests : List Request
  fired : List Fired
  sent : List Sent
  crashed : Bool

/-- No client is connected. -/
def start : State :=
  { base := Rpc.start, requests := [], fired := [], sent := [], crashed := false }

/-- `onDemandFires` has the scan object as it is then, `onAccessFires` what
the unset field holds. -/
inductive Label where
  | daemon (l : Rpc.Label)
  | onDemandFires (addr : Nat) (onDemand : A6oOnDemand) (fire : OnDemandFire) (now : Int64)
  | onAccessFires (unset : Int64) (status : A6oFileStatus) (report : A6oReport) (now : Int64)

/-- The request a step of the daemon adds. -/
def newRequests : Rpc.Label → List Request
  | .scanRequest conn addr params =>
    match jrpcUnmarshallStructPtr params unmarshallScanParam with
    | .ok (some param) => [⟨conn, addr, param⟩]
    | _ => []
  | _ => []

/-- The event is made and fired. None is made of a structure with a NULL
string. -/
def fireEvent (s : State) (origin : Origin) (ev : EventNew.A6oEventUnion) (now : Int64) :
    Option State :=
  match EventNew.a6oEventNew now ev with
  | .error _ => none
  | .ok e =>
    let outcome := notify s.base.daemon e (firedCallbacks s.base.daemon.callbacks e.type)
    some { s with
      fired := s.fired ++ [⟨origin, e⟩]
      sent := s.sent ++ outcome.1
      crashed := outcome.2 }

/-- Events come from the two producers only. -/
def daemonStep (realpath : Option (CString → Option CString)) (s : State) :
    Rpc.Label → Option State
  | .fire _ => none
  | l => (Rpc.step realpath s.base l).map fun base =>
    { s with base, requests := newRequests l ++ s.requests }

/-- A scan fires events while its thread runs. A daemon that has crashed
takes no step. -/
def step (realpath : Option (CString → Option CString)) (s : State) : Label → Option State
  | .daemon l => if s.crashed then none else daemonStep realpath s l
  | .onDemandFires addr onDemand fire now =>
    if s.crashed then none
    else
      match s.base.daemon.onDemands.lookup addr with
      | none => none
      | some stored =>
        if s.base.daemon.threads.contains (some addr) ∧ SameScan stored onDemand then
          (onDemandEvent onDemand fire).bind fun ev => fireEvent s (.onDemand addr) ev now
        else none
  | .onAccessFires unset status report now =>
    if s.crashed then none
    else (onAccessEvent unset status report).bind fun ev => fireEvent s .onAccess ev now

/-! ## What a client is to receive -/

/-- The detection, completed and, if requested, progress events. -/
def wanted (param : A6oRpcScanParam) : A6oEventType → Bool
  | .detection | .onDemandCompleted => true
  | .onDemandProgress => param.sendProgress ≠ 0
  | _ => false

/-- The event comes from a scan that was requested on the connection. -/
def own (requests : List Request) (conn : Nat) (f : Fired) : Bool :=
  match f.origin with
  | .onAccess => false
  | .onDemand addr =>
    requests.any fun r => r.conn = conn && r.addr = addr && wanted r.param f.event.type

/-- The events of the scans that a client asked for. -/
def ownEvents (s : State) (conn : Nat) : List EventNew.A6oEvent :=
  (s.fired.filter (own s.requests conn)).map Fired.event

/-- The events that were sent to a client. -/
def sentTo (conn : Nat) (sent : List Sent) : List EventNew.A6oEvent :=
  (sent.filter fun n => n.conn = conn).map Sent.event

/-- The client has asked for the events of everyone. -/
def Listening (d : Daemon) (conn : Nat) : Prop :=
  ∃ mask, ⟨mask, .listenEventCb conn⟩ ∈ d.callbacks

/-- Every client was sent the events of its scans, in the order in which
they were fired, and nothing else. -/
def Routed (s : State) : Prop :=
  s.crashed = false ∧
    ∀ conn, ¬ Listening s.base.daemon conn → sentTo conn s.sent = ownEvents s conn

end Armadito.Rpc.Routing
