import Armadito.Jrpc.Mapper
import Armadito.Jrpc.Schema

/-!
# Jrpc.ErrorCodes

The codes of error responses. A method returns an `int`: an error number of
its own, or a status of the library such as that of a failed decoding. The
code keeps the low 8 bits of either.
-/

namespace Armadito.Jrpc

open Keyed

/-! ## Classes of codes -/

/-- `JRPC_ERR_IS_METHOD_ERROR`. -/
def jrpcErrIsMethodError (c : Int) : Prop :=
  jrpcErrMethodError < c ∧ c < jrpcErrMethodError + 256

instance (c : Int) : Decidable (jrpcErrIsMethodError c) :=
  inferInstanceAs (Decidable (_ ∧ _))

/-- `JRPC_ERR_CODE_TO_METHOD`. -/
def jrpcErrCodeToMethod (c : Int) : Int := (c - jrpcErrMethodError) % 256

/-- `JRPC_ERR_INVALID_PARAMS`. -/
def jrpcErrInvalidParams : Int := -32602

/-- The errors of `enum jrpc_status`, without the base of the method
errors. -/
def libraryStatuses : List Int :=
  [jrpcErrParseError, jrpcErrInvalidRequest, jrpcErrMethodNotFound, jrpcErrInvalidParams,
    jrpcErrInternalError, jrpcErrMarshallFieldNotFound, jrpcErrMarshallTypeMismatch,
    Schema.jrpcErrMarshallInvalidEnumString, Schema.jrpcErrMarshallInvalidEnumValue,
    jrpcErrInvalidResponseId, jrpcErrInvalidResponse]

/-- An error number of a method. -/
def OwnError (ret : Int) : Prop := 1 ≤ ret ∧ ret ≤ 255

instance (ret : Int) : Decidable (OwnError ret) := inferInstanceAs (Decidable (_ ∧ _))

/-- The code has the class of what the method returned, and the message is
the one that was registered for it. -/
structure KeepsClass (registered : Option CString) (ret code : Int) (message : CString) :
    Prop where
  isMethodError : jrpcErrIsMethodError code ↔ OwnError ret
  number : OwnError ret → jrpcErrCodeToMethod code = ret
  message : OwnError ret → ∀ text, registered = some text → message = text
  status : ret ∈ libraryStatuses → code = ret

/-! ## The code of a return value -/

theorem jrpcErrIsMethodError_methodToCode {ret : Int} :
    jrpcErrIsMethodError (jrpcErrMethodToCode ret) ↔ ret % 256 ≠ 0 := by
  simp only [jrpcErrIsMethodError, jrpcErrMethodToCode, jrpcErrMethodError]
  omega

theorem jrpcErrCodeToMethod_methodToCode (ret : Int) :
    jrpcErrCodeToMethod (jrpcErrMethodToCode ret) = ret % 256 := by
  simp only [jrpcErrCodeToMethod, jrpcErrMethodToCode]
  omega

/-- No status of the library is a multiple of 256. -/
theorem libraryStatuses_emod : ∀ ret ∈ libraryStatuses, ret < 0 ∧ ret % 256 ≠ 0 := by decide

theorem keepsClass_methodToCode_iff {registered : Option CString} {ret : Int}
    {message : CString}
    (hmessage : OwnError ret → ∀ text, registered = some text → message = text) :
    KeepsClass registered ret (jrpcErrMethodToCode ret) message ↔
      OwnError ret ∨ ret % 256 = 0 := by
  constructor
  · intro h
    have hclass := h.isMethodError
    rw [jrpcErrIsMethodError_methodToCode] at hclass
    by_cases hown : OwnError ret
    · exact .inl hown
    · exact .inr (not_not.mp (hclass.not.mpr hown))
  · intro hret
    constructor
    case isMethodError =>
      rw [jrpcErrIsMethodError_methodToCode, OwnError]
      rw [OwnError] at hret
      omega
    case number =>
      rw [jrpcErrCodeToMethod_methodToCode, OwnError]
      omega
    case message => exact hmessage
    case status =>
      intro hmem
      obtain ⟨hneg, hemod⟩ := libraryStatuses_emod ret hmem
      rw [OwnError] at hret
      omega

namespace Mapper

/-! ## Registrations -/

/-- What is registered with a mapper. -/
inductive Registration where
  | method (name : CString) (methodFun : JrpcMethod)
  | errorMessage (code : UInt8) (message : CString)

/-- The tables after a registration. -/
def register (mapper : Tables) : Registration → Except Fault Tables
  | .method name methodFun => jrpcMapperAdd mapper name methodFun
  | .errorMessage code message => jrpcMapperAddErrorMessage mapper code message

/-- The registrations on new tables. -/
def registerAll (regs : List Registration) : Except Fault Tables :=
  regs.foldlM register jrpcMapperNew

/-- The methods that are added. -/
def methodsOf (regs : List Registration) : List (CString × JrpcMethod) :=
  regs.filterMap fun
    | .method name methodFun => some (name, methodFun)
    | .errorMessage _ _ => none

/-- The messages that are added. -/
def messagesOf (regs : List Registration) : List (Nat × CString) :=
  regs.filterMap fun
    | .method _ _ => none
    | .errorMessage code message => some (code.toNat, message)

/-- The last message that was registered for the code. -/
def registeredMessage (regs : List Registration) (code : Nat) : Option CString :=
  (messagesOf regs).reverse.lookup code

/-- What a mapper has after some registrations. -/
structure Registered (regs : List Registration) (mapper : Tables) : Prop where
  methods : Holds (methodsOf regs) mapper
  fits : (methodsOf regs).length ≤ 45
  messages : Represents hashKeyInt himult64 (fun _ => True) mapper.errorMessageTable
    (registeredMessage regs)
  noneRemoved : NoneRemoved mapper.errorMessageTable

theorem jrpcMapperNew_registered : Registered [] jrpcMapperNew :=
  ⟨jrpcMapperNew_holds, Nat.zero_le 45, hashTableNew_represents, hashTableNew_noneRemoved⟩

section Steps

variable {regs : List Registration} {mapper : Tables}

theorem methodsOf_method (name : CString) (f : JrpcMethod) :
    methodsOf (regs ++ [.method name f]) = methodsOf regs ++ [(name, f)] := by
  rw [methodsOf, List.filterMap_append]
  rfl

theorem methodsOf_errorMessage (code : UInt8) (message : CString) :
    methodsOf (regs ++ [.errorMessage code message]) = methodsOf regs := by
  rw [methodsOf, List.filterMap_append]
  exact List.append_nil _

theorem registeredMessage_method (name : CString) (f : JrpcMethod) :
    registeredMessage (regs ++ [.method name f]) = registeredMessage regs := by
  have hmessages : messagesOf (regs ++ [.method name f]) = messagesOf regs := by
    rw [messagesOf, List.filterMap_append]
    exact List.append_nil _
  funext code
  rw [registeredMessage, hmessages]
  rfl

theorem registeredMessage_errorMessage (code : UInt8) (message : CString) :
    registeredMessage (regs ++ [.errorMessage code message]) =
      Function.update (registeredMessage regs) code.toNat (some message) := by
  have hmessages : messagesOf (regs ++ [.errorMessage code message]) =
      messagesOf regs ++ [(code.toNat, message)] := by
    rw [messagesOf, List.filterMap_append]
    rfl
  have hlast := lookup_reverse_concat (messagesOf regs) code.toNat message
  rw [← hmessages] at hlast
  exact hlast

/-- The 46th method is not registered. -/
theorem Registered.method (h : Registered regs mapper) {name : CString} {f : JrpcMethod}
    {mapper' : Tables} (hadd : jrpcMapperAdd mapper name f = .ok mapper') :
    Registered (regs ++ [.method name f]) mapper' := by
  by_cases hfull : (methodsOf regs).length = 45
  · rw [h.methods.full hfull] at hadd
    cases hadd
  · have hfits := h.fits
    obtain ⟨mapper'', hadd', hholds⟩ := h.methods.add (by omega) name f
    cases hadd.symm.trans hadd'
    have htables : mapper'.errorMessageTable = mapper.errorMessageTable := by
      obtain ⟨methodTable, -, hadd⟩ := bind_eq_ok.mp hadd
      rw [← pure_eq_ok.mp hadd]
    constructor
    case methods => rwa [methodsOf_method]
    case fits =>
      rw [methodsOf_method, List.length_append, List.length_singleton]
      omega
    case messages =>
      rw [registeredMessage_method, htables]
      exact h.messages
    case noneRemoved =>
      rw [htables]
      exact h.noneRemoved

/-- The code 0 is the NULL key of the table. It is stored and never asked
for. -/
theorem Registered.errorMessage (h : Registered regs mapper) (code : UInt8)
    (message : CString) :
    ∃ mapper', jrpcMapperAddErrorMessage mapper code message = .ok mapper' ∧
      Registered (regs ++ [.errorMessage code message]) mapper' := by
  have hinsert : ∃ ht' w, Checked hashKeyInt himult64 mapper.errorMessageTable ht' ∧
      Keyed.hashTableInsert hashKeyInt mapper.errorMessageTable code.toNat (some message) =
        .ok ⟨ht'.table.set w ⟨code.toNat, some message, .occupied⟩, ht'.keyCount + 1⟩ ∧
      Represents hashKeyInt himult64 (fun _ => True)
        ⟨ht'.table.set w ⟨code.toNat, some message, .occupied⟩, ht'.keyCount + 1⟩
        (Function.update (registeredMessage regs) code.toNat (some message)) := by
    by_cases hnull : code.toNat = hashKeyInt.null
    · obtain ⟨ht', w, hchecked, hinsert, hrep⟩ :=
        h.messages.insert_null hashKeyInt_lawful trivial message
      rw [hnull]
      refine ⟨ht', w, hchecked, hinsert, hrep.congr fun k hk => ?_⟩
      rw [Function.update_of_ne hk]
    · obtain ⟨ht', w, hchecked, -, hinsert, hrep⟩ := h.messages.insert hashKeyInt_lawful trivial
        hnull (fun _ => trivial) (h.noneRemoved.inPlace _) message
      exact ⟨ht', w, hchecked, hinsert, hrep⟩
  obtain ⟨ht', w, hchecked, hinsert, hrep⟩ := hinsert
  refine ⟨_, bind_eq_ok.mpr ⟨_, hinsert, rfl⟩, ?_⟩
  constructor
  case methods =>
    rw [methodsOf_errorMessage]
    exact ⟨h.methods.represents, h.methods.size, h.methods.keyCount, h.methods.notRemoved⟩
  case fits =>
    rw [methodsOf_errorMessage]
    exact h.fits
  case messages =>
    rw [registeredMessage_errorMessage]
    exact hrep
  case noneRemoved => exact h.noneRemoved.inserted hchecked w (some message) _

end Steps

/-- Every run of registrations that goes through. -/
theorem registerAll_registered {regs : List Registration} :
    ∀ {mapper : Tables}, registerAll regs = .ok mapper → Registered regs mapper := by
  induction regs using List.reverseRecOn with
  | nil =>
    intro mapper h
    cases h
    exact jrpcMapperNew_registered
  | append_singleton regs reg ih =>
    intro mapper h
    rw [registerAll, List.foldlM_append] at h
    obtain ⟨before, hbefore, h⟩ := bind_eq_ok.mp h
    have hlast : register before reg = .ok mapper := by
      rw [List.foldlM_cons] at h
      obtain ⟨after, hafter, h⟩ := bind_eq_ok.mp h
      rw [hafter, ← pure_eq_ok.mp h]
    have hregistered := ih hbefore
    cases reg with
    | method name f => exact hregistered.method hlast
    | errorMessage code message =>
      obtain ⟨mapper', hadd, hregistered'⟩ := hregistered.errorMessage code message
      cases hlast.symm.trans hadd
      exact hregistered'

section Found

variable {regs : List Registration} {mapper : Tables}

theorem Registered.find (h : Registered regs mapper) (name : CString) :
    jrpcMapperFind mapper name = .ok (lastFunction (methodsOf regs) name) :=
  h.methods.represents.search hashKeyStr_lawful (Option.some_ne_none name)
    (Option.some_ne_none name)

theorem Registered.getErrorMessage (h : Registered regs mapper) {code : UInt8}
    (hcode : code ≠ 0) :
    jrpcMapperGetErrorMessage mapper code = .ok (registeredMessage regs code.toNat) := by
  refine h.messages.search hashKeyInt_lawful trivial fun hzero => hcode ?_
  exact UInt8.toNat_inj.mp hzero

end Found

end Mapper

/-! ## The error response -/

section Response

open Mapper

variable {β : Type} {regs : List Registration} {mapper : Tables} {conn : JrpcConnection β}

/-- The request is answered with one error, whose code and message go with
what the method returned. -/
def ErrorKeepsClass (regs : List Registration) (conn : JrpcConnection β) (method : CString)
    (id : Nat) (params : Option Json) (ret : Int) : Prop :=
  ∃ code message,
    connectionProcessRequest conn method id params =
      (code, [.send (makeErrorObj code message none id)]) ∧
    KeepsClass (registeredMessage regs ret.toNat) ret code message

/-- What a request for a registered method is answered when the method
fails. -/
theorem connectionProcessRequest_error (h : Registered regs mapper)
    (hconn : conn.mapper = some mapper.view) {method : CString} {f : JrpcMethod}
    (hmethod : lastFunction (methodsOf regs) method = some f) (id : Nat) (params : Option Json)
    (hret : (f params).1 ≠ 0) :
    ∃ message,
      connectionProcessRequest conn method id params =
        (jrpcErrMethodToCode (f params).1,
          [.send (makeErrorObj (jrpcErrMethodToCode (f params).1) message none id)]) ∧
      (OwnError (f params).1 → ∀ text,
        registeredMessage regs (f params).1.toNat = some text → message = text) := by
  have hfind : (conn.mapper.bind fun mapper => mapper.find method) = some f := by
    rw [hconn, Option.bind_some, Mapper.Tables.view_find_eq (h.find method), hmethod]
  refine ⟨(conn.mapper.bind fun mapper => mapper.getErrorMessage ((f params).1 % 256)).getD
    "method returned an unknow error".toList, ?_, fun hown text htext => ?_⟩
  · rw [connectionProcessRequest, hfind]
    exact if_pos hret
  · obtain ⟨hlow, hhigh⟩ := hown
    generalize (f params).1 = ret at *
    have hcode : (UInt8.ofNat (ret % 256).toNat).toNat = ret.toNat := by
      rw [UInt8.toNat_ofNat']
      omega
    have hmessage : mapper.view.getErrorMessage (ret % 256) = some text := by
      have hne : UInt8.ofNat (ret % 256).toNat ≠ 0 := fun hzero => by
        rw [hzero] at hcode
        change 0 = ret.toNat at hcode
        omega
      rw [Mapper.Tables.view_getErrorMessage_eq (h.getErrorMessage hne), hcode, htext]
    rw [hconn, Option.bind_some, hmessage]
    rfl

/-- **The code keeps its class exactly when** the method returned an error
number of its own or a multiple of 256. -/
theorem errorKeepsClass_iff (hregs : registerAll regs = .ok mapper)
    (hconn : conn.mapper = some mapper.view) {method : CString} {f : JrpcMethod}
    (hmethod : lastFunction (methodsOf regs) method = some f) (id : Nat) (params : Option Json)
    (hret : (f params).1 ≠ 0) :
    ErrorKeepsClass regs conn method id params (f params).1 ↔
      OwnError (f params).1 ∨ (f params).1 % 256 = 0 := by
  obtain ⟨message, hresponse, hmessage⟩ :=
    connectionProcessRequest_error (registerAll_registered hregs) hconn hmethod id params hret
  rw [← keepsClass_methodToCode_iff hmessage]
  constructor
  · rintro ⟨code, message', hresponse', hkeeps⟩
    rw [hresponse] at hresponse'
    cases hresponse'
    exact hkeeps
  · intro hkeeps
    exact ⟨_, message, hresponse, hkeeps⟩

end Response

/-! ## A method that decodes its params -/

open Mapper

/-- The method returns the status of the decoding when that fails, and an
error of its own otherwise. -/
def rootPathMethod : JrpcMethod := fun params =>
  match structFieldString params "root_path" with
  | .ok _ => (7, none)
  | .error code => (code, none)

/-- A method with a message for its error. -/
def rootPathRegs : List Registration :=
  [.method ['s'] rootPathMethod, .errorMessage 7 ['e']]

theorem rootPathRegs_registered : ∃ mapper, registerAll rootPathRegs = .ok mapper := by
  obtain ⟨mapper, hadd, hholds⟩ :=
    jrpcMapperNew_holds.add (by decide) ['s'] rootPathMethod
  have hfirst : Registered [.method ['s'] rootPathMethod] mapper :=
    jrpcMapperNew_registered.method hadd
  obtain ⟨mapper', hmessage, -⟩ := hfirst.errorMessage 7 ['e']
  exact ⟨mapper', bind_eq_ok.mpr ⟨mapper, hadd, bind_eq_ok.mpr ⟨mapper', hmessage, rfl⟩⟩⟩

theorem rootPathMethod_keepsClass :
    ∃ mapper, registerAll rootPathRegs = .ok mapper ∧
      ErrorKeepsClass rootPathRegs (jrpcConnectionNew (some mapper.view) : JrpcConnection Unit)
        ['s'] 1 (some (.object [("root_path", .string ['/'])])) 7 := by
  obtain ⟨mapper, hregs⟩ := rootPathRegs_registered
  exact ⟨mapper, hregs, (errorKeepsClass_iff hregs rfl (f := rootPathMethod) rfl 1
    (some (.object [("root_path", .string ['/'])])) (by decide)).mpr (.inl (by decide))⟩

/-- Without the field the method returns -32099, and the response says that
the method has failed with its error 157. -/
theorem rootPathMethod_loses_class :
    ∃ mapper, registerAll rootPathRegs = .ok mapper ∧
      (rootPathMethod (some (.object []))).1 = jrpcErrMarshallFieldNotFound ∧
      (connectionProcessRequest (jrpcConnectionNew (some mapper.view) : JrpcConnection Unit)
        ['s'] 1 (some (.object []))).1 = jrpcErrMethodToCode 157 ∧
      ¬ ErrorKeepsClass rootPathRegs
        (jrpcConnectionNew (some mapper.view) : JrpcConnection Unit) ['s'] 1
        (some (.object [])) jrpcErrMarshallFieldNotFound := by
  obtain ⟨mapper, hregs⟩ := rootPathRegs_registered
  have hret : (rootPathMethod (some (.object []))).1 = jrpcErrMarshallFieldNotFound := rfl
  have hconn : (jrpcConnectionNew (some mapper.view) : JrpcConnection Unit).mapper =
    some mapper.view := rfl
  have hmethod : lastFunction (methodsOf rootPathRegs) ['s'] = some rootPathMethod := rfl
  obtain ⟨message, hresponse, -⟩ := connectionProcessRequest_error
    (registerAll_registered hregs) hconn hmethod 1 (some (.object [])) (by rw [hret]; decide)
  rw [hret] at hresponse
  refine ⟨mapper, hregs, hret, by rw [hresponse]; rfl, ?_⟩
  rintro ⟨code, message', hresponse', hkeeps⟩
  rw [hresponse] at hresponse'
  cases hresponse'
  exact absurd (hkeeps.status (by decide)) (by decide)

end Armadito.Jrpc
