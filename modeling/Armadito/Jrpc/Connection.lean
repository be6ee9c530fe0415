import Armadito.Jrpc.IntTable
import Armadito.Jrpc.Marshall

/-!
# Jrpc.Connection

`jrpc.c` and `connection.c`: the messages of JSON-RPC, and a connection that
makes calls and processes what it receives. A message is the JSON value that
is sent; a callback is registered with its user data, which together are one
value of `β`.
-/

namespace Armadito.Jrpc

/-! ## Messages -/

/-- The version that every message has. -/
def jsonrpcVersion : CString := ['2', '.', '0']

/-- A member that is set when there is something to set. -/
def optMember (name : String) : Option Json → List (String × Json)
  | none => []
  | some value => [(name, value)]

/-- `json_integer` of a `size_t`. -/
def jsonSize (id : Nat) : Json := .integer (castInt 64 id)

/-- `make_call_obj`. -/
def makeCallObj (method : CString) (params : Option Json) (id : Nat) : Json :=
  .object ([("jsonrpc", .string jsonrpcVersion), ("method", .string method)] ++
    optMember "params" params ++ optMember "id" (if id ≠ 0 then some (jsonSize id) else none))

/-- A result message with any id. -/
def resultObj (result : Json) (id : Int) : Json :=
  .object [("jsonrpc", .string jsonrpcVersion), ("result", result), ("id", .integer id)]

/-- A NULL result cannot be packed. -/
def makeResultObj (result : Option Json) (id : Nat) : Option Json :=
  result.map fun r => resultObj r (castInt 64 id)

/-- `make_error_obj`. -/
def makeErrorObj (code : Int) (message : CString) (data : Option Json) (id : Nat) : Json :=
  .object [("jsonrpc", .string jsonrpcVersion),
    ("error", .object ([("code", .integer code), ("message", .string message)] ++
      optMember "data" data)),
    ("id", if id ≠ 0 then jsonSize id else .null)]

/-- `struct rpc_obj`. -/
inductive RpcObj where
  | request (method : CString) (id : Nat) (params : Option Json)
  | errorResponse (id : Nat) (code : Int) (message : CString) (data : Option Json)
  | resultResponse (id : Nat) (result : Json)

/-- The optional member `s?i` of a request: an `int`, stored to the low half
of a `size_t`. -/
def unpackRequestId : Option Json → Option Nat
  | none => some 0
  | some (.integer value) => some (value % 2 ^ 32).toNat
  | some _ => none

/-- The branch of `json_rpc_unpack` for a method. -/
def unpackRequest (obj : Json) (method : CString) : Except Int RpcObj :=
  match jsonObjectGet obj "jsonrpc", unpackRequestId (jsonObjectGet obj "id") with
  | some (.string version), some id =>
    if version = jsonrpcVersion then .ok (.request method id (jsonObjectGet obj "params"))
    else .error jrpcErrInvalidRequest
  | _, _ => .error jrpcErrInvalidRequest

/-- The error of a response, in the same function. -/
def unpackError (id : Nat) (error : Json) : Except Int RpcObj :=
  match jsonObjectGet error "code", jsonObjectGet error "message" with
  | some (.integer code), some (.string message) =>
    .ok (.errorResponse id (castInt 32 code) message (jsonObjectGet error "data"))
  | _, _ => .error jrpcErrInvalidResponse

/-- The id of a response, a `size_t`; null is 0. -/
def unpackResponseId : Option Json → Option Nat
  | some (.integer value) => some (value % 2 ^ 64).toNat
  | some .null => some 0
  | _ => none

/-- The branch of `json_rpc_unpack` for a response. -/
def unpackResponse (obj : Json) : Except Int RpcObj :=
  match unpackResponseId (jsonObjectGet obj "id"), jsonObjectGet obj "jsonrpc" with
  | some id, some (.string version) =>
    if version ≠ jsonrpcVersion then .error jrpcErrInvalidResponse
    else
      match jsonObjectGet obj "error", jsonObjectGet obj "result" with
      | some error, none => unpackError id error
      | none, some result => .ok (.resultResponse id result)
      | _, _ => .error jrpcErrInvalidResponse
  | _, _ => .error jrpcErrInvalidResponse

/-- An object with a string as `method` is a request. -/
def jsonRpcUnpack (obj : Json) : Except Int RpcObj :=
  match jsonObjectGet obj "method" with
  | some (.string method) => unpackRequest obj method
  | _ => unpackResponse obj

/-! ## Connections -/

/-- `jrpc_method_t`: the status and the result of a method. -/
abbrev JrpcMethod := Option Json → Int × Option Json

/-- What is found in the tables of a mapper. -/
structure JrpcMapper where
  find : CString → Option JrpcMethod
  getErrorMessage : Int → Option CString

/-- `struct jrpc_connection`. -/
structure JrpcConnection (β : Type) where
  mapper : Option JrpcMapper
  currentId : Nat
  responseTable : HashTable β
  errorHandler : Bool

variable {β : Type}

/-- `jrpc_connection_new`. -/
def jrpcConnectionNew (mapper : Option JrpcMapper) : JrpcConnection β :=
  { mapper, currentId := 1, responseTable := hashTableNew, errorHandler := false }

/-- The id, and the connection with the callback registered under it. -/
def connectionRegisterCallback (conn : JrpcConnection β) (cb : β) :
    Except Fault (Nat × JrpcConnection β) := do
  let responseTable ← hashTableInsert conn.responseTable conn.currentId cb
  return (conn.currentId,
    { conn with currentId := (conn.currentId + 1) % 2 ^ 64, responseTable })

/-- A callback that is found is taken out of the table. -/
def connectionFindCallback (conn : JrpcConnection β) (id : Nat) :
    Option β × JrpcConnection β :=
  match hashTableSearch conn.responseTable id with
  | none => (none, conn)
  | some entry =>
    (some entry, { conn with responseTable := (hashTableRemove conn.responseTable id).2 })

/-- The connection after the call, and the message that is sent. -/
def jrpcCall (conn : JrpcConnection β) (method : CString) (params : Option Json)
    (cb : Option β) : Except Fault (JrpcConnection β × Json) :=
  match cb with
  | none => .ok (conn, makeCallObj method params 0)
  | some cb => do
    let (id, conn) ← connectionRegisterCallback conn cb
    return (conn, makeCallObj method params id)

/-! ## Processing -/

/-- What processing a message does besides its status. -/
inductive Effect (β : Type) where
  | send (message : Json)
  | callback (cb : β) (result : Json)
  | errorHandler (id : Nat) (code : Int) (message : CString) (data : Option Json)

/-- `connection_process_request`. -/
def connectionProcessRequest (conn : JrpcConnection β) (method : CString) (id : Nat)
    (params : Option Json) : Int × List (Effect β) :=
  match conn.mapper.bind fun mapper => mapper.find method with
  | none =>
    (jrpcErrMethodNotFound,
      [.send (makeErrorObj jrpcErrMethodNotFound "method was not found".toList none id)])
  | some methodCb =>
    let (mthRet, result) := methodCb params
    if mthRet ≠ 0 then
      let errorMessage := conn.mapper.bind fun mapper => mapper.getErrorMessage (mthRet % 256)
      (jrpcErrMethodToCode mthRet,
        [.send (makeErrorObj (jrpcErrMethodToCode mthRet)
          (errorMessage.getD "method returned an unknow error".toList) none id)])
    else (jrpcOk, if id ≠ 0 then (makeResultObj result id).toList.map .send else [])

/-- `connection_process_result`. -/
def connectionProcessResult (conn : JrpcConnection β) (id : Nat) (result : Json) :
    Int × JrpcConnection β × List (Effect β) :=
  match connectionFindCallback conn id with
  | (none, conn) => (jrpcErrInvalidResponseId, conn, [])
  | (some cb, conn) => (jrpcOk, conn, [.callback cb result])

/-- `connection_process_error`: the callback of the call stays in the table. -/
def connectionProcessError (conn : JrpcConnection β) (id : Nat) (code : Int)
    (message : CString) (data : Option Json) : Int × List (Effect β) :=
  (jrpcOk, if conn.errorHandler then [.errorHandler id code message data] else [])

/-- `jrpc_process` on the message that was received. -/
def jrpcProcess (conn : JrpcConnection β) (message : Json) :
    Int × JrpcConnection β × List (Effect β) :=
  match jsonRpcUnpack message with
  | .error ret =>
    (ret, conn,
      if ret = jrpcErrInvalidRequest then
        [.send (makeErrorObj ret "invalid request".toList none 0)]
      else [])
  | .ok (.request method id params) =>
    let (ret, effects) := connectionProcessRequest conn method id params
    (ret, conn, effects)
  | .ok (.resultResponse id result) => connectionProcessResult conn id result
  | .ok (.errorResponse id code message data) =>
    let (ret, effects) := connectionProcessError conn id code message data
    (ret, conn, effects)

/-! ## Messages are understood -/

/-- The encoding of an id keeps both what is read of a request and what is
read of a response. -/
theorem castInt_mod (id : Nat) :
    (castInt 64 id % 2 ^ 32).toNat = id % 2 ^ 32 ∧
      (castInt 64 id % 2 ^ 64).toNat = id % 2 ^ 64 := by
  rw [castInt, Int.bmod_def]
  split
  · omega
  · omega

theorem unpackRequestId_jsonSize (id : Nat) :
    unpackRequestId (some (jsonSize id)) = some (id % 2 ^ 32) := by
  rw [jsonSize, unpackRequestId, (castInt_mod id).1]

/-- A request is read as it was made, with the low half of its id. -/
theorem jsonRpcUnpack_makeCallObj (method : CString) (params : Option Json) (id : Nat) :
    jsonRpcUnpack (makeCallObj method params id) =
      .ok (.request method (id % 2 ^ 32) params) := by
  have hunpack := unpackRequestId_jsonSize id
  by_cases hzero : id = 0
  · subst hzero
    cases params with
    | none => rfl
    | some p => rfl
  · cases params with
    | none => simp [makeCallObj, optMember, hzero, jsonRpcUnpack, unpackRequest, jsonObjectGet,
        List.lookup_cons, hunpack]
    | some p => simp [makeCallObj, optMember, hzero, jsonRpcUnpack, unpackRequest, jsonObjectGet,
        List.lookup_cons, hunpack]

theorem jsonRpcUnpack_resultObj (result : Json) (id : Int) :
    jsonRpcUnpack (resultObj result id) =
      .ok (.resultResponse (id % 2 ^ 64).toNat result) := rfl

theorem jsonRpcUnpack_makeErrorObj (code : Int) (message : CString) (data : Option Json)
    (id : Nat) :
    jsonRpcUnpack (makeErrorObj code message data id) =
      .ok (.errorResponse (id % 2 ^ 64) (castInt 32 code) message data) := by
  by_cases hzero : id = 0
  · subst hzero
    cases data with
    | none => rfl
    | some d => rfl
  · have hread := (castInt_mod id).2
    rw [makeErrorObj, if_pos hzero, ← hread]
    cases data with
    | none => rfl
    | some d => rfl

/-! ## Calls and results -/

/-- A call under a new id registers its callback there. -/
theorem jrpcCall_some {conn : JrpcConnection β} (hinv : conn.responseTable.Inv)
    (hid : conn.currentId ≠ 0) (hmax : conn.currentId + 1 < 2 ^ 64)
    (hnew : hashTableSearch conn.responseTable conn.currentId = none)
    (method : CString) (params : Option Json) (cb : β) :
    ∃ responseTable : HashTable β,
      jrpcCall conn method params (some cb) =
        .ok ({ conn with currentId := conn.currentId + 1, responseTable },
          makeCallObj method params conn.currentId) ∧
      responseTable.Inv ∧
      hashTableSearch responseTable =
        Function.update (hashTableSearch conn.responseTable) conn.currentId (some cb) := by
  obtain ⟨table, hinsert, hinv', hsearch⟩ := hashTableInsert_spec hinv hid hnew cb
  have hnext : (conn.currentId + 1) % 2 ^ 64 = conn.currentId + 1 := Nat.mod_eq_of_lt hmax
  have hregister : connectionRegisterCallback conn cb =
      .ok (conn.currentId,
        { conn with currentId := conn.currentId + 1, responseTable := table }) := by
    rw [connectionRegisterCallback, hinsert, hnext]
    rfl
  refine ⟨table, ?_, hinv', hsearch⟩
  rw [jrpcCall, hregister]
  rfl

/-- A request is processed with the id it was made with. -/
theorem jrpcProcess_makeCallObj (conn : JrpcConnection β) (method : CString)
    (params : Option Json) {id : Nat} (hid : id < 2 ^ 32) :
    jrpcProcess conn (makeCallObj method params id) =
      ((connectionProcessRequest conn method id params).1, conn,
        (connectionProcessRequest conn method id params).2) := by
  rw [jrpcProcess, jsonRpcUnpack_makeCallObj, Nat.mod_eq_of_lt hid]

/-- The method is not found. -/
theorem connectionProcessRequest_none {conn : JrpcConnection β} {method : CString}
    (h : (conn.mapper.bind fun mapper => mapper.find method) = none) (id : Nat)
    (params : Option Json) :
    ∃ text, (connectionProcessRequest conn method id params).2 =
      [.send (makeErrorObj jrpcErrMethodNotFound text none id)] := by
  rw [connectionProcessRequest, h]
  exact ⟨_, rfl⟩

/-- The method succeeds; a notification gets no answer. -/
theorem connectionProcessRequest_some {conn : JrpcConnection β} {method : CString}
    {methodCb : JrpcMethod} {params : Option Json} {result : Json}
    (h : (conn.mapper.bind fun mapper => mapper.find method) = some methodCb)
    (hresult : methodCb params = (0, some result)) (id : Nat) :
    (connectionProcessRequest conn method id params).2 =
      if id ≠ 0 then [.send (resultObj result (castInt 64 id))] else [] := by
  rw [connectionProcessRequest, h]
  simp only [hresult, ne_eq, not_true_eq_false, if_false]
  rfl

/-- A result for an id that is not registered. -/
theorem connectionProcessResult_none {conn : JrpcConnection β} {id : Nat} (result : Json)
    (h : hashTableSearch conn.responseTable id = none) :
    connectionProcessResult conn id result = (jrpcErrInvalidResponseId, conn, []) := by
  simp only [connectionProcessResult, connectionFindCallback, h]

/-- A result for a registered id: the callback is taken out and invoked. -/
theorem connectionProcessResult_some {conn : JrpcConnection β}
    (hinv : conn.responseTable.Inv) {id : Nat} (result : Json) {cb : β}
    (h : hashTableSearch conn.responseTable id = some cb) :
    ∃ responseTable : HashTable β,
      connectionProcessResult conn id result =
        (jrpcOk, { conn with responseTable }, [.callback cb result]) ∧
      responseTable.Inv ∧
      hashTableSearch responseTable =
        Function.update (hashTableSearch conn.responseTable) id none := by
  obtain ⟨-, hinv', hsearch⟩ := hashTableRemove_spec hinv h
  refine ⟨_, ?_, hinv', hsearch⟩
  simp only [connectionProcessResult, connectionFindCallback, h]

theorem jrpcProcess_resultObj (conn : JrpcConnection β) (result : Json) (id : Int) :
    jrpcProcess conn (resultObj result id) =
      connectionProcessResult conn (id % 2 ^ 64).toNat result := by
  have hunpack := jsonRpcUnpack_resultObj result id
  rw [jrpcProcess]
  simp only [hunpack]

end Armadito.Jrpc
