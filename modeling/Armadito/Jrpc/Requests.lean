import Armadito.Jrpc.Connection

/-!
# Jrpc.Requests

What a connection answers to a request, and which ids survive the way
through a message. The id of a request is read into half of its variable,
so that a request whose id is a multiple of `2 ^ 32` counts as a
notification.
-/

namespace Armadito.Jrpc

variable {β : Type} {conn : JrpcConnection β}

/-! ## Requests -/

/-- A request for `method`, with whatever id and parameters. -/
structure IsRequest (obj : Json) (method : CString) : Prop where
  version : jsonObjectGet obj "jsonrpc" = some (.string jsonrpcVersion)
  method : jsonObjectGet obj "method" = some (.string method)

theorem IsRequest.unpack {obj : Json} {method : CString} (h : IsRequest obj method) {id : Nat}
    (hid : unpackRequestId (jsonObjectGet obj "id") = some id) :
    jsonRpcUnpack obj = .ok (.request method id (jsonObjectGet obj "params")) := by
  have hrequest : jsonRpcUnpack obj = unpackRequest obj method := by
    rw [jsonRpcUnpack, h.method]
  rw [hrequest, unpackRequest, h.version, hid]
  exact if_pos rfl

/-- The method that a connection finds under a name. -/
def findMethod (conn : JrpcConnection β) (method : CString) : Option JrpcMethod :=
  conn.mapper.bind fun mapper => mapper.find method

theorem jrpcProcess_request {obj : Json} {method : CString} (h : IsRequest obj method) {id : Nat}
    (hid : unpackRequestId (jsonObjectGet obj "id") = some id) :
    (jrpcProcess conn obj).2.2 =
      (connectionProcessRequest conn method id (jsonObjectGet obj "params")).2 := by
  rw [jrpcProcess, h.unpack hid]

/-- A result or an error. -/
inductive IsReply : Json → Prop where
  | result (result : Json) (id : Int) : IsReply (resultObj result id)
  | error (code : Int) (message : CString) (id : Nat) :
      IsReply (makeErrorObj code message none id)

/-- Exactly one message leaves the connection, a reply. -/
def RepliesOnce (effects : List (Effect β)) : Prop :=
  ∃ message, effects = [.send message] ∧ IsReply message

/-- Nothing leaves the connection. -/
def Silent (effects : List (Effect β)) : Prop := ∀ message, .send message ∉ effects

theorem RepliesOnce.not_silent {effects : List (Effect β)} (h : RepliesOnce effects) :
    ¬ Silent effects := by
  obtain ⟨message, rfl, -⟩ := h
  exact fun hsilent => hsilent message List.mem_cons_self

/-- A method that is missing or fails is answered, also to a notification. -/
theorem connectionProcessRequest_fails {method : CString} {params : Option Json}
    (h : ∀ methodCb, findMethod conn method = some methodCb → (methodCb params).1 ≠ 0)
    (id : Nat) : RepliesOnce (connectionProcessRequest conn method id params).2 := by
  rw [connectionProcessRequest]
  cases hfind : findMethod conn method with
  | none =>
    rw [findMethod] at hfind
    simp only [hfind]
    exact ⟨_, rfl, .error _ _ _⟩
  | some methodCb =>
    have hret := h methodCb hfind
    rw [findMethod] at hfind
    simp only [hfind, if_pos hret]
    exact ⟨_, rfl, .error _ _ _⟩

/-- A method that succeeds is answered with its result, when there are an id
and a result. -/
theorem connectionProcessRequest_succeeds {method : CString} {methodCb : JrpcMethod}
    {params : Option Json} (h : findMethod conn method = some methodCb)
    (hret : (methodCb params).1 = 0) (id : Nat) :
    (connectionProcessRequest conn method id params).2 =
      if id ≠ 0 then (makeResultObj (methodCb params).2 id).toList.map .send else [] := by
  rw [findMethod] at h
  rw [connectionProcessRequest, h]
  simp only [hret, ne_eq, not_true_eq_false, if_false]

theorem makeResultObj_repliesOnce (result : Json) (id : Nat) :
    RepliesOnce ((makeResultObj (some result) id).toList.map (.send : Json → Effect β)) :=
  ⟨_, rfl, .result result _⟩

/-- **Every request is answered once**, unless its method succeeds without a
result or its id is read as 0. -/
theorem jrpcProcess_repliesOnce_iff (conn : JrpcConnection β) {obj : Json} {method : CString}
    (hrequest : IsRequest obj method) {id : Int}
    (hid : jsonObjectGet obj "id" = some (.integer id)) :
    RepliesOnce (jrpcProcess conn obj).2.2 ↔
      ∀ methodCb, findMethod conn method = some methodCb →
        (methodCb (jsonObjectGet obj "params")).1 = 0 →
        (methodCb (jsonObjectGet obj "params")).2 ≠ none ∧ id % 2 ^ 32 ≠ 0 := by
  rw [jrpcProcess_request hrequest (by rw [hid]; rfl)]
  by_cases hfails : ∀ methodCb, findMethod conn method = some methodCb →
      (methodCb (jsonObjectGet obj "params")).1 ≠ 0
  · refine iff_of_true (connectionProcessRequest_fails hfails _) ?_
    intro methodCb hfind hret
    exact absurd hret (hfails methodCb hfind)
  · push Not at hfails
    obtain ⟨methodCb, hfind, hret⟩ := hfails
    have hread : (id % 2 ^ 32).toNat = 0 ↔ id % 2 ^ 32 = 0 := by omega
    rw [connectionProcessRequest_succeeds hfind hret]
    constructor
    · intro hreply methodCb' hfind' _
      cases hfind.symm.trans hfind'
      refine ⟨?_, ?_⟩
      · intro hnull
        rw [hnull] at hreply
        exact hreply.not_silent (by simp [Silent, makeResultObj])
      · intro hzero
        rw [hread.mpr hzero] at hreply
        exact hreply.not_silent (by simp [Silent])
    · intro h
      obtain ⟨hnull, hzero⟩ := h methodCb hfind hret
      obtain ⟨result, hresult⟩ := Option.ne_none_iff_exists'.mp hnull
      rw [hresult, if_pos (by rwa [Ne, hread])]
      exact makeResultObj_repliesOnce result _

/-- The fields of `struct a6o_rpc_listen_param`. -/
def listenFields : List String :=
  ["detection", "on_demand", "on_demand_progress", "quarantine", "real_time_prot", "av_update"]

/-- `listen` leaves its result NULL when all the fields are there. -/
def listenOnlyMapper : JrpcMapper where
  find := fun method =>
    if method = "listen".toList then
      some fun params =>
        match listenFields.mapM (structFieldInt 32 params) with
        | .ok _ => (0, none)
        | .error ret => (ret, none)
    else none
  getErrorMessage := fun _ => none

/-- A client that asks for all events. -/
def listenParams : Json := .object (listenFields.map fun name => (name, .integer 1))

theorem isRequest_makeCallObj (method : CString) (params : Option Json) (id : Nat) :
    IsRequest (makeCallObj method params id) method := ⟨rfl, rfl⟩

theorem jrpcProcess_listen_not_repliesOnce :
    ¬ RepliesOnce (jrpcProcess (jrpcConnectionNew (some listenOnlyMapper) : JrpcConnection Unit)
      (makeCallObj "listen".toList (some listenParams) 1)).2.2 := by
  rintro ⟨message, heffects, -⟩
  cases heffects

theorem jrpcProcess_unknown_repliesOnce :
    RepliesOnce (jrpcProcess (jrpcConnectionNew (some listenOnlyMapper) : JrpcConnection Unit)
      (makeCallObj "ping".toList none 1)).2.2 := by
  have hid : jsonObjectGet (makeCallObj "ping".toList none 1) "id" = some (.integer 1) := rfl
  refine (jrpcProcess_repliesOnce_iff _ (isRequest_makeCallObj "ping".toList none 1) hid).mpr ?_
  intro methodCb hfind
  cases hfind

/-- **A notification is silent** when its method is known and succeeds, and
only then. -/
theorem jrpcProcess_silent_iff (conn : JrpcConnection β) {obj : Json} {method : CString}
    (hrequest : IsRequest obj method) (hid : jsonObjectGet obj "id" = none) :
    Silent (jrpcProcess conn obj).2.2 ↔
      ∃ methodCb, findMethod conn method = some methodCb ∧
        (methodCb (jsonObjectGet obj "params")).1 = 0 := by
  rw [jrpcProcess_request hrequest (by rw [hid]; rfl)]
  constructor
  · intro hsilent
    by_contra hno
    refine (connectionProcessRequest_fails ?_ _).not_silent hsilent
    exact fun methodCb hfind hret => hno ⟨methodCb, hfind, hret⟩
  · rintro ⟨methodCb, hfind, hret⟩
    rw [connectionProcessRequest_succeeds hfind hret]
    exact fun _ => List.not_mem_nil

theorem jrpcProcess_unknown_not_silent :
    ¬ Silent (jrpcProcess (jrpcConnectionNew (some listenOnlyMapper) : JrpcConnection Unit)
      (makeCallObj "ping".toList none 0)).2.2 :=
  fun hsilent => hsilent _ List.mem_cons_self

theorem jrpcProcess_listen_silent :
    Silent (jrpcProcess (jrpcConnectionNew (some listenOnlyMapper) : JrpcConnection Unit)
      (makeCallObj "listen".toList (some listenParams) 0)).2.2 :=
  (jrpcProcess_silent_iff _
    (isRequest_makeCallObj "listen".toList (some listenParams) 0) rfl).mpr
    ⟨_, rfl, rfl⟩

/-! ## Ids -/

/-- The three messages of one id are read as what they were made of, and a
request without id has id 0. -/
structure UnpackedAsMade (method : CString) (params : Option Json) (result : Json) (code : Int)
    (message : CString) (data : Option Json) (id : Nat) : Prop where
  request : jsonRpcUnpack (makeCallObj method params id) = .ok (.request method id params)
  result : (makeResultObj (some result) id).map jsonRpcUnpack =
    some (.ok (.resultResponse id result))
  error : jsonRpcUnpack (makeErrorObj code message data id) =
    .ok (.errorResponse id code message data)
  notification : ∀ obj, IsRequest obj method → jsonObjectGet obj "id" = none →
    jsonRpcUnpack obj = .ok (.request method 0 (jsonObjectGet obj "params"))

/-- **Decoding undoes encoding** for the ids that fit the half of a
`size_t` that a request is read into. -/
theorem unpackedAsMade_iff {id : Nat} (hmax : id < 2 ^ 63) {code : Int}
    (hcode : castInt 32 code = code) (method : CString) (params : Option Json) (result : Json)
    (message : CString) (data : Option Json) :
    UnpackedAsMade method params result code message data id ↔ id < 2 ^ 32 := by
  have hread : id % 2 ^ 64 = id := Nat.mod_eq_of_lt (by omega)
  constructor
  · intro h
    have hrequest := h.request
    rw [jsonRpcUnpack_makeCallObj] at hrequest
    have hid : id % 2 ^ 32 = id := by
      injection hrequest with hrequest
      injection hrequest
    omega
  · intro hid
    refine ⟨?_, ?_, ?_, ?_⟩
    · rw [jsonRpcUnpack_makeCallObj, Nat.mod_eq_of_lt hid]
    · rw [makeResultObj, Option.map_some, Option.map_some, jsonRpcUnpack_resultObj,
        (castInt_mod id).2, hread]
    · rw [jsonRpcUnpack_makeErrorObj, hcode, hread]
    · exact fun obj hrequest hnone => hrequest.unpack (by rw [hnone]; rfl)

theorem jsonRpcUnpack_id_lost :
    jsonRpcUnpack (makeCallObj "scan".toList none (2 ^ 32)) ≠
      .ok (.request "scan".toList (2 ^ 32) none) := by
  rw [jsonRpcUnpack_makeCallObj]
  intro h
  injection h with h
  injection h with _ hid
  omega

theorem unpackedAsMade_five :
    UnpackedAsMade "scan".toList none .null (-30001) "no such path".toList none 5 :=
  (unpackedAsMade_iff (by omega) (by decide) _ _ _ _ _).mpr (by omega)

end Armadito.Jrpc
