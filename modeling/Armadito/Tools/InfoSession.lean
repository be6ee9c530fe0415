import Armadito.Rpc.InfoDelivery
import Armadito.Tools.ArmaditoInfo
import Armadito.Tools.ScanSession

/-!
# Tools.InfoSession

A status report from the modules to the output of the client. A report with
a string that is not text reaches the client as JSON only: otherwise the
client goes on waiting for an answer, and no later message is one. A time
without a date ends the client while it prints.
-/

namespace Armadito.Tools

open Armadito.Jrpc Armadito.Jrpc.Schema Armadito.Rpc
open Armadito.Core (A6oUpdateStatus A6oBaseInfo A6oModuleInfo A6oInfo Reports)

/-! ## Structures read back -/

theorem updateStatusOf_value (status : A6oUpdateStatus) :
    updateStatusOf (updateStatusValue status) = some status := by
  cases status <;> rfl

theorem ptrArrayOf_value {α : Type} {elemOf : Value → Option α} {value : α → Value}
    (h : ∀ a, elemOf (value a) = some a) (elems : Option (List α)) :
    ptrArrayOf elemOf (ptrArrayValue value elems) = some elems := by
  cases elems with
  | none => rfl
  | some elems =>
    have hmap : (elems.map value).mapM elemOf = some elems := by
      induction elems with
      | nil => rfl
      | cons elem elems ih =>
        rw [List.map_cons, List.mapM_cons, h, ih]
        rfl
    rw [ptrArrayValue, ptrArrayOf, hmap]
    rfl

theorem baseInfoOf_value (base : A6oBaseInfo) : baseInfoOf (baseInfoValue base) = some base := by
  obtain ⟨name, ts, version, count, path⟩ := base
  show some (A6oBaseInfo.mk name (.ofInt ts.toInt) version (.ofInt count.toNat) path) = _
  rw [Int64.ofInt_toInt, ofInt_toNat]

theorem moduleInfoOf_value (mod : A6oModuleInfo) :
    moduleInfoOf (moduleInfoValue mod) = some mod := by
  obtain ⟨name, status, ts, bases⟩ := mod
  show (do
    let status ← updateStatusOf (updateStatusValue status)
    let bases ← ptrArrayOf baseInfoOf (ptrArrayValue baseInfoValue bases)
    return A6oModuleInfo.mk name status (.ofInt ts.toInt) bases) = _
  rw [updateStatusOf_value, ptrArrayOf_value baseInfoOf_value, Int64.ofInt_toInt]
  rfl

theorem infoOf_value (info : A6oInfo) : infoOf (infoValue info) = some info := by
  obtain ⟨version, status, ts, mods⟩ := info
  show (do
    let status ← updateStatusOf (updateStatusValue status)
    let mods ← ptrArrayOf moduleInfoOf (ptrArrayValue moduleInfoValue mods)
    return A6oInfo.mk version status (.ofInt ts.toInt) mods) = _
  rw [updateStatusOf_value, ptrArrayOf_value moduleInfoOf_value, Int64.ofInt_toInt]
  rfl

/-! ## A client without a call -/

/-- No error of the parser is the end of the input. -/
theorem jsonRpcUnpack_error {obj : Json} {ret : Int} (h : jsonRpcUnpack obj = .error ret) :
    ret = jrpcErrInvalidRequest ∨ ret = jrpcErrInvalidResponse := by
  have hrequest : ∀ method, unpackRequest obj method = .error ret →
      ret = jrpcErrInvalidRequest := by
    intro method h
    rw [unpackRequest] at h
    split at h
    · split at h
      · cases h
      · exact (Except.error.inj h).symm
    · exact (Except.error.inj h).symm
  have herror : ∀ id error, unpackError id error = .error ret → ret = jrpcErrInvalidResponse := by
    intro id error h
    rw [unpackError] at h
    split at h
    · cases h
    · exact (Except.error.inj h).symm
  have hresponse : unpackResponse obj = .error ret → ret = jrpcErrInvalidResponse := by
    intro h
    rw [unpackResponse] at h
    split at h
    · split at h
      · exact (Except.error.inj h).symm
      · split at h
        · exact herror _ _ h
        · cases h
        · exact (Except.error.inj h).symm
    · exact (Except.error.inj h).symm
  rw [jsonRpcUnpack] at h
  split at h
  · exact .inl (hrequest _ h)
  · exact .inr (hresponse h)

/-- No message ends the call of the client any more. -/
structure Idle (c : InfoClient) : Prop where
  done : c.done = false
  mapper : c.conn.mapper = none
  calls : hashTableSearch c.conn.responseTable = fun _ => none

theorem Idle.jrpcProcess {c : InfoClient} (h : Idle c) (message : Json) :
    ∃ ret effects, Jrpc.jrpcProcess c.conn message = (ret, c.conn, effects) ∧ ret ≠ jrpcEof ∧
      ∀ cb result, Effect.callback cb result ∉ effects := by
  rw [Jrpc.jrpcProcess]
  cases hunpack : jsonRpcUnpack message with
  | error ret =>
    refine ⟨ret, _, rfl, ?_, fun cb result => ?_⟩
    · rcases jsonRpcUnpack_error hunpack with rfl | rfl <;> decide
    · split <;> simp
  | ok obj =>
    cases obj with
    | request method id params =>
      have hmethod : connectionProcessRequest c.conn method id params = (jrpcErrMethodNotFound,
          [.send (makeErrorObj jrpcErrMethodNotFound "method was not found".toList none id)]) := by
        rw [connectionProcessRequest, h.mapper]
        rfl
      simp only [hmethod]
      exact ⟨_, _, rfl, by decide, by simp⟩
    | errorResponse id code message data =>
      refine ⟨jrpcOk, (connectionProcessError c.conn id code message data).2, rfl, by decide,
        fun cb result => ?_⟩
      rw [connectionProcessError]
      show _ ∉ if c.conn.errorHandler then [Effect.errorHandler id code message data] else []
      split <;> simp
    | resultResponse id result =>
      have hnone : hashTableSearch c.conn.responseTable id = none := congrFun h.calls id
      exact ⟨jrpcErrInvalidResponseId, [], connectionProcessResult_none result hnone, by decide,
        by simp⟩

theorem infoEffects_quiet (p : InfoPrinter) (c : InfoClient) {effects : List (Effect Unit)}
    (h : ∀ cb result, Effect.callback cb result ∉ effects) : infoEffects p c effects = .ok c := by
  induction effects with
  | nil => rfl
  | cons eff effects ih =>
    have hrest := ih fun cb result hmem => h cb result (List.mem_cons_of_mem _ hmem)
    cases eff with
    | callback cb result => exact absurd List.mem_cons_self (h cb result)
    | send message => exact hrest
    | errorHandler id code message data => exact hrest

theorem infoProcess_message {c : InfoClient} {lib : JsonLibrary} {read : Option (List Char)}
    {ok ret : Int} {message : Json} {conn : JrpcConnection Unit} {effects : List (Effect Unit)}
    (hreceive : connectionReceive lib read = (ok, some message))
    (hstep : Jrpc.jrpcProcess c.conn message = (ret, conn, effects)) (p : InfoPrinter) :
    Tools.infoProcess lib p c read =
      (infoEffects p { c with conn } effects).map fun c => (ret, c) := by
  rw [Tools.infoProcess, hreceive]
  simp only [hstep]
  cases infoEffects p { c with conn } effects <;> rfl

/-- A read leaves it as it is. -/
theorem Idle.infoProcess {c : InfoClient} (h : Idle c) (lib : JsonLibrary) (p : InfoPrinter)
    (read : Option (List Char)) :
    ∃ ret, Tools.infoProcess lib p c read = .ok (ret, c) ∧ (ret = jrpcEof ↔ read = some []) := by
  cases read with
  | none => exact ⟨jrpcErrInternalError, rfl, by decide⟩
  | some chunk =>
    cases chunk with
    | nil => exact ⟨jrpcEof, rfl, by decide⟩
    | cons b chunk =>
      cases hload : lib.loadb (b :: chunk) with
      | none =>
        refine ⟨jrpcErrParseError, ?_, by simp [jrpcErrParseError, jrpcEof]⟩
        simp only [Tools.infoProcess, connectionReceive, hload]
      | some message =>
        obtain ⟨ret, effects, hstep, hret, hquiet⟩ := h.jrpcProcess message
        refine ⟨ret, ?_, by simp [hret]⟩
        have hreceive := connectionReceive_eq_ok.mpr ⟨List.cons_ne_nil b chunk, hload⟩
        rw [infoProcess_message hreceive hstep, infoEffects_quiet p c hquiet]
        rfl

/-- It waits until the connection is closed. -/
theorem Idle.infoLoop {c : InfoClient} (h : Idle c) (lib : JsonLibrary) (p : InfoPrinter)
    (reads : List (Option (List Char))) :
    Tools.infoLoop lib p c reads = .ok (c, decide (some [] ∈ reads)) := by
  induction reads with
  | nil => rfl
  | cons read reads ih =>
    obtain ⟨ret, hstep, heof⟩ := h.infoProcess lib p read
    rw [Tools.infoLoop, hstep]
    show (if ret ≠ jrpcEof ∧ c.done = false then _ else _) = _
    by_cases hread : read = some []
    · rw [if_neg (by simp [heof.mpr hread])]
      simp [hread, pure, Except.pure]
    · rw [if_pos ⟨fun hret => hread (heof.mp hret), h.done⟩, ih]
      simp [Ne.symm hread]

/-! ## The call -/

/-- The client has called `status`, and nothing else. -/
structure Asking (formatJson : Bool) (c : InfoClient) : Prop where
  done : c.done = false
  formatJson : c.formatJson = formatJson
  out : c.out = []
  mapper : c.conn.mapper = none
  table : c.conn.responseTable.Inv
  calls : hashTableSearch c.conn.responseTable = Function.update (fun _ => none) 1 (some ())

/-- The request of the client. -/
def statusRequest : Json := makeCallObj "status".toList none 1

theorem doInfo_asking (formatJson : Bool) :
    ∃ c, doInfo formatJson = .ok (c, statusRequest) ∧ Asking formatJson c := by
  have hnew : hashTableSearch (hashTableNew : HashTable Unit) = fun _ => none :=
    hashTableSearch_new
  have hempty : (jrpcConnectionNew none : JrpcConnection Unit).responseTable.Inv :=
    hashTableNew_inv
  obtain ⟨table, hcall, hinv, hsearch⟩ := jrpcCall_some hempty (by decide) (by decide)
    (congrFun hnew 1) "status".toList none ()
  refine ⟨_, bind_eq_ok.mpr ⟨_, hcall, rfl⟩, rfl, rfl, rfl, rfl, hinv, ?_⟩
  rw [hsearch]
  exact congrArg (fun calls : Nat → Option Unit => Function.update calls 1 (some ())) hnew

/-- The daemon sends what the method returns. -/
theorem jrpcProcess_statusRequest {β : Type} {conn : JrpcConnection β} {j : Json}
    (hmethod : (conn.mapper.bind fun mapper => mapper.find "status".toList)
      = some fun _ => (jrpcOk, some j)) :
    (Jrpc.jrpcProcess conn statusRequest).2.2 = [.send (resultObj j 1)] := by
  rw [statusRequest, @jrpcProcess_makeCallObj β conn _ none 1 (by decide)]
  exact connectionProcessRequest_some hmethod rfl 1

/-- The answer calls `info_cb`, and no call is left. -/
theorem Asking.jrpcProcess {formatJson : Bool} {c : InfoClient} (h : Asking formatJson c)
    (j : Json) :
    ∃ table, Jrpc.jrpcProcess c.conn (resultObj j 1)
        = (jrpcOk, { c.conn with responseTable := table }, [.callback () j]) ∧
      Idle { c with conn := { c.conn with responseTable := table } } := by
  have hcall : hashTableSearch c.conn.responseTable 1 = some () := by
    rw [h.calls, Function.update_self]
  obtain ⟨table, hresult, -, hsearch⟩ := connectionProcessResult_some h.table j hcall
  refine ⟨table, (jrpcProcess_resultObj c.conn j 1).trans hresult, h.done, h.mapper, ?_⟩
  show hashTableSearch table = _
  rw [hsearch, h.calls, Function.update_idem, Function.update_eq_self_iff]

/-- What is read is the answer, in one message. -/
def Answers (lib : JsonLibrary) (chunk : List Char) (j : Json) : Prop :=
  Framing.Decodes frameEnd lib.dumps lib.loadb (resultObj j 1) ∧
    Framing.OneMessage frameEnd lib.dumps chunk (resultObj j 1)

theorem Asking.infoProcess {formatJson : Bool} {c : InfoClient} (h : Asking formatJson c)
    {lib : JsonLibrary} {chunk : List Char} {j : Json} (hchunk : Answers lib chunk j)
    (p : InfoPrinter) :
    ∃ c', Idle c' ∧ c'.formatJson = formatJson ∧ c'.out = [] ∧
      Tools.infoProcess lib p c (some chunk) = (infoCb p c' j).map fun c' => (jrpcOk, c') := by
  obtain ⟨hdecodes, hone⟩ := hchunk
  obtain ⟨table, hstep, hidle⟩ := h.jrpcProcess j
  have hload := hdecodes.oneMessage hone
  have hreceive : connectionReceive lib (some chunk) = (jrpcOk, some (resultObj j 1)) :=
    connectionReceive_eq_ok.mpr ⟨hdecodes.ne_nil hload, hload⟩
  refine ⟨_, hidle, h.formatJson, h.out, ?_⟩
  rw [infoProcess_message hreceive hstep, infoEffects]
  cases infoCb p { c with conn := { c.conn with responseTable := table } } j <;> rfl

/-! ## What is shown -/

/-- The client prints the text and ends, whatever follows the chunk. -/
def Shows (lib : JsonLibrary) (p : InfoPrinter) (c : InfoClient) (chunk : List Char)
    (text : CString) : Prop :=
  ∀ reads, ∃ c', infoLoop lib p c (some chunk :: reads) = .ok (c', true) ∧ c'.out = text

/-- The client prints nothing and waits until the connection is closed. -/
def Waits (lib : JsonLibrary) (p : InfoPrinter) (c : InfoClient) (chunk : List Char) : Prop :=
  ∀ reads, ∃ c', infoLoop lib p c (some chunk :: reads) = .ok (c', decide (some [] ∈ reads)) ∧
    c'.out = []

/-- Printing the answer ends the client. -/
def Dies (lib : JsonLibrary) (p : InfoPrinter) (c : InfoClient) (chunk : List Char) : Prop :=
  ∀ reads, ∃ fault, infoLoop lib p c (some chunk :: reads) = .error (.fault fault)

section Shown

variable {lib : JsonLibrary} {p : InfoPrinter} {c : InfoClient} {chunk : List Char} {j : Json}
  {formatJson : Bool}

theorem Asking.shows (h : Asking formatJson c) (hchunk : Answers lib chunk j) {text : CString}
    (hcb : ∀ c', Idle c' → c'.formatJson = formatJson →
      infoCb p c' j = .ok (c'.finish text)) : Shows lib p c chunk text := by
  intro reads
  obtain ⟨c', hidle, hformat, hout, hstep⟩ := h.infoProcess hchunk p
  rw [hcb c' hidle hformat] at hstep
  refine ⟨c'.finish text, ?_, ?_⟩
  · rw [infoLoop, hstep]
    rfl
  · show c'.out ++ text = text
    rw [hout, List.nil_append]

theorem Asking.dies (h : Asking formatJson c) (hchunk : Answers lib chunk j) {fault : Fault}
    (hcb : ∀ c', Idle c' → c'.formatJson = formatJson →
      infoCb p c' j = .error (.fault fault)) : Dies lib p c chunk := by
  intro reads
  obtain ⟨c', hidle, hformat, hout, hstep⟩ := h.infoProcess hchunk p
  rw [hcb c' hidle hformat] at hstep
  refine ⟨fault, ?_⟩
  rw [infoLoop, hstep]
  rfl

theorem Asking.waits (h : Asking formatJson c) (hchunk : Answers lib chunk j)
    (hcb : ∀ c', Idle c' → c'.formatJson = formatJson → infoCb p c' j = .ok c') :
    Waits lib p c chunk := by
  intro reads
  obtain ⟨c', hidle, hformat, hout, hstep⟩ := h.infoProcess hchunk p
  rw [hcb c' hidle hformat] at hstep
  refine ⟨c', ?_, hout⟩
  rw [infoLoop, hstep]
  show (if _ then _ else _) = _
  rw [if_pos ⟨by decide, hidle.done⟩, hidle.infoLoop]

end Shown

/-! ## Dates -/

/-- The times of a module and its bases. -/
def moduleTimes (mod : A6oModuleInfo) : List Int64 :=
  mod.modUpdateTs :: (mod.baseInfos.getD []).map A6oBaseInfo.baseUpdateTs

/-- The times that are printed. -/
def infoTimes (info : A6oInfo) : List Int64 :=
  info.globalUpdateTs :: (info.moduleInfos.getD []).flatMap moduleTimes

/-- Each of the times has a date. -/
def Dated (p : InfoPrinter) (times : List Int64) : Prop := ∀ t ∈ times, ∃ date, p.date t = .ok date

section Dates

variable {p : InfoPrinter}

/-- The text, or the fault of a time without a date. -/
def Prints (x : Except Stop CString) (dated : Prop) : Prop :=
  (∃ text, x = .ok text ∧ dated) ∨ ∃ fault, x = .error (.fault fault) ∧ ¬ dated

theorem time2Date_cases (p : InfoPrinter) (t : Int64) :
    Prints (time2Date p t) (∃ date, p.date t = .ok date) := by
  rw [time2Date]
  cases p.date t with
  | ok date => exact .inl ⟨date, rfl, date, rfl⟩
  | error fault => exact .inr ⟨fault, rfl, by simp⟩

theorem Prints.bind {x : Except Stop CString} {f : CString → Except Stop CString}
    {dated dated' : Prop} (h : Prints x dated) (h' : ∀ text, Prints (f text) dated') :
    Prints (x >>= f) (dated ∧ dated') := by
  rcases h with ⟨text, rfl, hdated⟩ | ⟨fault, rfl, hnot⟩
  · rcases h' text with ⟨text', hf, hdated'⟩ | ⟨fault, hf, hnot⟩
    · exact .inl ⟨text', hf, hdated, hdated'⟩
    · exact .inr ⟨fault, hf, fun h => hnot h.2⟩
  · exact .inr ⟨fault, rfl, fun h => hnot h.1⟩

/-- The parts are printed one after the other. -/
theorem Prints.mapM {α : Type} {f : α → Except Stop CString} {dated : α → Prop}
    (h : ∀ a, Prints (f a) (dated a)) (g : CString → CString) (as : List α) :
    Prints (as.mapM f >>= fun texts => pure (g texts.flatten)) (∀ a ∈ as, dated a) := by
  induction as generalizing g with
  | nil => exact .inl ⟨_, rfl, by simp⟩
  | cons a as ih =>
    have hcons : ((a :: as).mapM f >>= fun texts => pure (g texts.flatten)) =
        f a >>= fun text => as.mapM f >>= fun texts => pure (g (text ++ texts.flatten)) := by
      rw [List.mapM_cons]
      cases f a with
      | error stop => rfl
      | ok text =>
        cases as.mapM f with
        | error stop => rfl
        | ok texts => rfl
    rw [hcons, List.forall_mem_cons]
    exact (h a).bind fun text => ih fun texts => g (text ++ texts)

theorem baseInfoPrint_prints (p : InfoPrinter) (base : A6oBaseInfo) :
    Prints (baseInfoPrint p base) (∃ date, p.date base.baseUpdateTs = .ok date) := by
  have h : Prints (baseInfoPrint p base) ((∃ date, p.date base.baseUpdateTs = .ok date) ∧ True) :=
    (time2Date_cases p base.baseUpdateTs).bind fun _ => .inl ⟨_, rfl, trivial⟩
  rwa [and_true] at h

theorem moduleInfoPrint_prints (p : InfoPrinter) (mod : A6oModuleInfo) :
    Prints (moduleInfoPrint p mod) (Dated p (moduleTimes mod)) := by
  rw [Dated, moduleTimes, List.forall_mem_cons, List.forall_mem_map]
  exact (time2Date_cases p mod.modUpdateTs).bind fun _ =>
    Prints.mapM (baseInfoPrint_prints p) _ _

end Dates

theorem infoPrint_prints {version : CString} {mods : List A6oModuleInfo} {info : A6oInfo}
    (h : Reports version mods info) (p : InfoPrinter) :
    Prints (infoPrint p info) (Dated p (infoTimes info)) := by
  rw [Dated, infoTimes, List.forall_mem_cons, List.forall_mem_flatMap, infoPrint, h.modules]
  exact (time2Date_cases p info.globalUpdateTs).bind fun _ =>
    Prints.mapM (moduleInfoPrint_prints p) _ _

/-! ## A base without a version -/

/-- A base with its texts. -/
def oldBase : A6oBaseInfo := ⟨some ['d'], 5, none, 7, some ['/', 'd']⟩

/-- A module that is late. -/
def oldModule : InfoModule := ⟨['c'], some ⟨.late, 5, some [oldBase]⟩⟩

/-- The answer as the daemon writes it, without the version. -/
def oldText : CString :=
  ("\x7b\"jsonrpc\":\"2.0\",\"result\":\x7b\"antivirus_version\":\"1\"," ++
    "\"global_status\":\"A6O_UPDATE_LATE\",\"global_update_ts\":5,\"module_infos\":[\x7b" ++
    "\"name\":\"c\",\"mod_status\":\"A6O_UPDATE_LATE\",\"mod_update_ts\":5," ++
    "\"base_infos\":[\x7b\"name\":\"d\",\"base_update_ts\":5,\"signature_count\":7," ++
    "\"full_path\":\"/d\"\x7d]\x7d]\x7d,\"id\":1\x7d").toList

/-- A daemon with one method. -/
def statusConnection (j : Json) : JrpcConnection Unit :=
  jrpcConnectionNew (some
    { find := fun name => if name = "status".toList then some fun _ => (jrpcOk, some j) else none
      getErrorMessage := fun _ => none })

/-- Every time is at noon. -/
def noonPrinter : InfoPrinter := ⟨fun _ => .ok "1970-01-01T12:00:00Z".toList, fun _ => []⟩

end Armadito.Tools
