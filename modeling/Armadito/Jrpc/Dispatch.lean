import Armadito.Jrpc.Connection
import Armadito.Jrpc.History
import Armadito.Lib.Run

/-!
# Jrpc.Dispatch

Two connections joined by a channel in each direction. One side makes calls
and processes what comes back, the other one processes the calls; extra
result messages may be put into the channel at any time.

A message in a channel carries the call it belongs to, which no function
reads: it is there for the history.
-/

namespace Armadito.Jrpc

variable {β : Type}

/-! ## The system -/

/-- A client, what is on its way, and what has happened. -/
structure DispatchState (β : Type) where
  client : JrpcConnection β
  toServer : List (Nat × Json)
  toClient : List (Origin × Json)
  log : List (Event β)

/-- A new connection. -/
def DispatchState.initial : DispatchState β :=
  { client := jrpcConnectionNew none, toServer := [], toClient := [], log := [] }

/-- A step: a call, with or without a callback; the serving side processes
the next call, where `methods` are the methods as they behave now; an extra
message; the calling side processes the next message. -/
inductive Label (β : Type) where
  | call (method : CString) (params : Option Json) (cb : Option β)
  | serve (methods : CString → Option (Option Json → Json))
  | inject (result : Json) (id : Int)
  | deliver

/-- The serving side. Its methods return 0 and a result. -/
def servingConnection (methods : CString → Option (Option Json → Json)) : JrpcConnection β :=
  jrpcConnectionNew (some
    { find := fun method => (methods method).map fun f params => (0, some (f params))
      getErrorMessage := fun _ => none })

/-- The messages that are sent. -/
def sentMessages (effects : List (Effect β)) : List Json :=
  effects.filterMap fun
    | .send message => some message
    | _ => none

/-- The callbacks that are called, with their results. -/
def invokedCallbacks (effects : List (Effect β)) : List (β × Json) :=
  effects.filterMap fun
    | .callback cb result => some (cb, result)
    | _ => none

/-- The call that is made, in the history. -/
def calledEvents (id : Nat) : Option β → List (Event β)
  | none => []
  | some cb => [.called id cb]

/-- The result that the method of a request produces, in the history. -/
def servedEvents (call : Nat) (methods : CString → Option (Option Json → Json))
    (message : Json) : List (Event β) :=
  match jsonRpcUnpack message with
  | .ok (.request method _ params) =>
    match methods method with
    | some f => [.served call (f params)]
    | none => []
  | _ => []

/-- A result message that is processed, in the history. -/
def processedEvents (origin : Origin) (message : Json) (ret : Int)
    (effects : List (Effect β)) : List (Event β) :=
  match jsonRpcUnpack message with
  | .ok (.resultResponse id result) =>
    [.processed origin id result ret (invokedCallbacks effects)]
  | _ => []

/-- A call is not enabled when it would fail the assertion of the table. -/
def step (s : DispatchState β) : Label β → Option (DispatchState β)
  | .call method params cb =>
    match jrpcCall s.client method params cb with
    | .error _ => none
    | .ok (client, message) =>
      let id := if cb.isSome then s.client.currentId else 0
      some { s with
        client
        toServer := s.toServer ++ [(id, message)]
        log := s.log ++ calledEvents id cb }
  | .serve methods =>
    match s.toServer with
    | [] => none
    | (call, message) :: toServer =>
      let (_, _, effects) := jrpcProcess (servingConnection methods : JrpcConnection β) message
      some { s with
        toServer
        toClient := s.toClient ++ (sentMessages effects).map fun m => (.answer call, m)
        log := s.log ++ servedEvents call methods message }
  | .inject result id => some { s with toClient := s.toClient ++ [(.extra, resultObj result id)] }
  | .deliver =>
    match s.toClient with
    | [] => none
    | (origin, message) :: toClient =>
      let (ret, client, effects) := jrpcProcess s.client message
      some { s with
        client
        toClient
        toServer := s.toServer ++ (sentMessages effects).map fun m => (0, m)
        log := s.log ++ processedEvents origin message ret effects }

/-- A call with a callback. -/
def Label.isCall : Label β → Bool
  | .call _ _ (some _) => true
  | _ => false

/-! ## The invariant -/

/-- What may be on the way to the calling side. -/
inductive FromServer (log : List (Event β)) : Origin × Json → Prop where
  | extra (result : Json) (id : Int) : FromServer log (.extra, resultObj result id)
  | answer {call : Nat} {result : Json} {cb : β} (hserved : .served call result ∈ log)
      (hcalled : .called call cb ∈ log) :
      FromServer log (.answer call, resultObj result call)
  | error (call : Nat) (code : Int) (message : CString) :
      FromServer log (.answer call, makeErrorObj code message none call)

theorem FromServer.append {log : List (Event β)} {p : Origin × Json} (h : FromServer log p)
    (log' : List (Event β)) : FromServer (log ++ log') p := by
  cases h with
  | extra result id => exact .extra result id
  | answer hserved hcalled =>
    exact .answer (List.mem_append_left _ hserved) (List.mem_append_left _ hcalled)
  | error call code message => exact .error call code message

/-- A request on the way to the serving side. -/
def FromClient (log : List (Event β)) (p : Nat × Json) : Prop :=
  ∃ method params, p.2 = makeCallObj method params p.1 ∧
    (p.1 = 0 ∨ ∃ cb, .called p.1 cb ∈ log)

theorem FromClient.append {log : List (Event β)} {p : Nat × Json} (h : FromClient log p)
    (log' : List (Event β)) : FromClient (log ++ log') p := by
  obtain ⟨method, params, hmessage, hid⟩ := h
  refine ⟨method, params, hmessage, hid.imp_right ?_⟩
  exact fun ⟨cb, hcb⟩ => ⟨cb, List.mem_append_left _ hcb⟩

/-- The table holds what is pending; ids are given out in order, and every
request is served once. -/
structure DispatchState.Inv (s : DispatchState β) : Prop where
  table : s.client.responseTable.Inv
  positive : 1 ≤ s.client.currentId
  bound : s.client.currentId ≤ 2 ^ 31
  ids : ∀ {id cb}, .called id cb ∈ s.log → 1 ≤ id ∧ id < s.client.currentId
  pending : ∀ {id cb}, hashTableSearch s.client.responseTable id = some cb ↔ Pending s.log id cb
  toServer : ∀ p ∈ s.toServer, FromClient s.log p
  toClient : ∀ p ∈ s.toClient, FromServer s.log p
  served : ∀ id, 1 ≤ id → s.toServer.countP (fun p => p.1 = id) + (results id s.log).length ≤
    if id < s.client.currentId then 1 else 0
  explained : Explained s.log

theorem initial_inv : (DispatchState.initial : DispatchState β).Inv where
  table := hashTableNew_inv
  positive := Nat.le_refl 1
  bound := by
    show 1 ≤ 2 ^ 31
    omega
  ids := by
    intro id cb h
    cases h
  pending := by
    intro id cb
    have hnone : hashTableSearch (hashTableNew : HashTable β) id = none := by
      rw [hashTableSearch_new]
    refine iff_of_false ?_ fun h => by cases h.1
    show hashTableSearch (hashTableNew : HashTable β) id ≠ some cb
    rw [hnone]
    exact (Option.some_ne_none cb).symm
  toServer := by
    intro p hp
    cases hp
  toClient := by
    intro p hp
    cases hp
  served := fun id _ => Nat.zero_le _
  explained := explained_nil

end Armadito.Jrpc
