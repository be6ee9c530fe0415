import Armadito.Core.ScanTrace
import Armadito.Jrpc.SchemaDelivery
import Armadito.Rpc.RoutingRuns
import Armadito.Rpc.ScanRequest
import Armadito.Tools.ArmaditoScan

/-!
# Tools.ScanSession

A scan from the command line to its output: the request, the run of the
scan in the daemon, the notifications, and what the client prints of them.
-/

namespace Armadito.Tools

open Armadito.Core Armadito.Core.EventNew Armadito.Core.Journal Armadito.Jrpc
  Armadito.Jrpc.Schema Armadito.Rpc
open Armadito.Conf (printInt)

/-! ## Structures read back -/

theorem detectionEventOf_value (ev : A6oDetectionEvent) :
    detectionEventOf (detectionEventValue ev) = some ev := by
  obtain ⟨context, scanId, path, scanStatus, scanAction, moduleName, moduleReport⟩ := ev
  have hid : Int64.ofInt scanId.toInt = scanId := Int64.ofInt_toInt scanId
  have hcontext : contexts.find? (fun c : A6oDetectionContext => c.value = context.value)
      = some context := by
    cases context <;> rfl
  have hstatus : fileStatuses.find? (fun s : A6oFileStatus => s.value = scanStatus.value)
      = some scanStatus := by
    cases scanStatus <;> rfl
  show (do
    let context ← contexts.find? fun c : A6oDetectionContext => c.value = context.value
    let scanStatus ← fileStatuses.find? fun s : A6oFileStatus => s.value = scanStatus.value
    return A6oDetectionEvent.mk context (.ofInt scanId.toInt) path scanStatus
      (scanAction : Int).toNat moduleName moduleReport) = _
  rw [hcontext, hstatus, hid, Int.toNat_natCast]
  rfl

theorem onDemandCompletedEventOf_value (ev : A6oOnDemandCompletedEvent) :
    onDemandCompletedEventOf (onDemandCompletedEventValue ev) = some ev := by
  obtain ⟨scanId, cancelled, malware, suspicious, scanned, duration⟩ := ev
  show some (A6oOnDemandCompletedEvent.mk (.ofInt scanId.toInt) (.ofInt cancelled.toInt)
    (.ofInt malware.toNat) (.ofInt suspicious.toNat) (.ofInt scanned.toNat)
    (.ofInt duration.toInt)) = _
  rw [Int64.ofInt_toInt, Int32.ofInt_toInt, ofInt_toNat, ofInt_toNat, ofInt_toNat,
    Int64.ofInt_toInt]

/-! ## Events on their way -/

/-- What becomes of an event on the wire. -/
def eventJson (e : EventNew.A6oEvent) : Except Stop Json :=
  jrpcMarshallStruct rpcDefs 2 "a6o_event" (eventValue e)

/-- `jrpc_notify(conn, "notify_event", j_ev)`. -/
def eventMessage (e : EventNew.A6oEvent) : Option Json :=
  match eventJson e with
  | .ok j => some (makeCallObj notifyEvent (some j) 0)
  | .error _ => none

/-- Events are fired one after the other, each at all callbacks that the
daemon has then, until one of these reads through a bad pointer. -/
def fireAll : List (Daemon × EventNew.A6oEvent) → List Routing.Sent × Bool
  | [] => ([], false)
  | (d, e) :: fires =>
    match Routing.notify d e (firedCallbacks d.callbacks e.type) with
    | (sent, true) => (sent, true)
    | (sent, false) => (sent ++ (fireAll fires).1, (fireAll fires).2)

/-- The messages that these events send on a connection. -/
def sentMessages (conn : Nat) (fires : List (Daemon × EventNew.A6oEvent)) : List Json :=
  (Routing.sentTo conn (fireAll fires).1).filterMap eventMessage

/-- The event can be sent, for a scan with this id: its scan id is the one of
the scan, its texts are there, and its action is one. -/
structure Sendable (scanId : UInt32) (e : EventNew.A6oEvent) : Prop where
  scanId : ∀ id ∈ e.u.scanId, id = .ofInt scanId.toNat
  scanAction : ∀ action ∈ e.u.scanAction, DeclaredAction action
  strings : none ∉ e.u.strings

/-- All texts of the event are UTF-8. -/
def isText (e : EventNew.A6oEvent) : Bool := e.u.strings.all fun s => s.any utf8Valid

theorem isText_iff {e : EventNew.A6oEvent} :
    isText e = true ↔ ∀ s ∈ e.u.strings, ∃ text, s = some text ∧ utf8Valid text = true := by
  rw [isText, List.all_eq_true]
  refine forall₂_congr fun s _ => ?_
  cases s with
  | none => simp
  | some text => simp

theorem byteLeaves_int (i : Int32) : byteLeaves.int intType i.toInt := by
  have hwire := wireLeaves_int i
  show intType.cast (castInt 64 i.toInt) = i.toInt
  rw [hwire.2, hwire.1]

theorem byteLeaves_time (t : Int64) : byteLeaves.int timeType t.toInt := by
  have hwire := wireLeaves_time t
  show timeType.cast (castInt 64 t.toInt) = t.toInt
  rw [hwire.2, hwire.1]

theorem toInt_ofUInt32 (n : UInt32) : (Int64.ofInt n.toNat).toInt = n.toNat := by
  have := n.toNat_lt
  exact Int64.toInt_ofInt_of_le (by omega) (by omega)

theorem Sendable.fieldsFit {scanId : UInt32} {e : EventNew.A6oEvent} (h : Sendable scanId e) :
    FieldsFit byteLeaves e.u where
  scanId := by
    intro id hid
    have hlt := scanId.toNat_lt
    have hwire : wireLeaves.int unsignedIntType id.toInt := by
      rw [wireLeaves_scanId, h.scanId id hid, toInt_ofUInt32]
      omega
    show unsignedIntType.cast (castInt 64 id.toInt) = id.toInt
    rw [hwire.2, hwire.1]
  scanAction := h.scanAction
  strings := by
    intro s hs
    cases s with
    | none => exact absurd hs h.strings
    | some text => exact ⟨text, rfl, trivial⟩
  counters := by
    intro c _
    have hlt : (c.toNat : Int) < 2 ^ 64 := by exact_mod_cast c.toNat_lt
    exact IntType.cast_castInt ⟨by omega, hlt⟩

theorem Sendable.utf8_iff {scanId : UInt32} {e : EventNew.A6oEvent} (h : Sendable scanId e) :
    StructTyped rpcDefs utf8Leaves 2 "a6o_event" (eventValue e) ↔ isText e = true := by
  have hiff : StructTyped rpcDefs utf8Leaves 2 "a6o_event" (eventValue e) ↔
      FieldsFit utf8Leaves e.u := event_structTyped_iff (fun _ => trivial) (fun _ => trivial) e
  rw [hiff, isText_iff]
  constructor
  · exact fun hfit => hfit.strings
  · exact fun htext => ⟨fun _ _ => trivial, h.scanAction, htext, fun _ _ => trivial⟩

/-- An event that can be sent arrives as it was, or misses a field. -/
theorem Sendable.eventJson {scanId : UInt32} {e : EventNew.A6oEvent} (h : Sendable scanId e) :
    ∃ j, Tools.eventJson e = .ok j ∧ unmarshallEvent (some j) =
      if isText e then .ok (some (eventValue e)) else .error missing := by
  have htyped : StructTyped rpcDefs byteLeaves 2 "a6o_event" (eventValue e) :=
    (event_structTyped_iff byteLeaves_int byteLeaves_time e).mpr h.fieldsFit
  obtain ⟨j, hobject, hsend, hutf8, hmissing⟩ := htyped.received rpcDefs_wellFormed
  have hfuel : 2 ≥ 2 := Nat.le_refl 2
  refine ⟨j, hsend 2 hfuel, ?_⟩
  rw [unmarshallEvent, json2Struct_object hobject]
  by_cases htext : isText e = true
  · rw [if_pos htext]
    exact bind_eq_ok.mpr ⟨eventValue e, hutf8 (h.utf8_iff.mpr htext) 2 hfuel, rfl⟩
  · rw [if_neg htext]
    exact bind_eq_error.mpr (.inl (hmissing (mt h.utf8_iff.mp htext) 2 hfuel))

/-! ## What the client prints -/

/-- An object as it is printed. -/
def jsonText (p : Printer) : Except Stop Json → CString
  | .ok j => eventPrintJson p j
  | .error _ => []

/-- The text of an event, as the options ask for it. An event with a text
that is not UTF-8 is not shown. -/
def shown (p : Printer) (opts : ScanOptions) (e : EventNew.A6oEvent) : CString :=
  if !isText e then [] else
  match e.u with
  | .evDetection ev =>
    if opts.formatJson then jsonText p (eventJson e) else detectionEventPrint ev
  | .evOnDemandCompleted ev =>
    if opts.noSummary then []
    else if opts.formatJson then jsonText p (eventJson e)
    else onDemandCompletedEventPrint p ev
  | _ => []

/-- The client after it has been notified of an event. -/
def Client.after (p : Printer) (opts : ScanOptions) (c : Client) (e : EventNew.A6oEvent) :
    Client :=
  { c with
    done := c.done || e.type = .onDemandCompleted
    out := c.out ++ shown p opts e }

/-- The client has the options. -/
def Client.Has (c : Client) (opts : ScanOptions) : Prop :=
  c.formatJson = opts.formatJson ∧ c.noSummary = opts.noSummary

theorem detectionText_value (p : Printer) {c : Client} {opts : ScanOptions}
    (hopts : c.Has opts) {e : EventNew.A6oEvent} {j : Json} (hj : eventJson e = .ok j)
    (htext : isText e = true) {ev : A6oDetectionEvent} (hev : e.u = .evDetection ev) :
    detectionText p c j (eventValue e) = .ok (shown p opts e) := by
  have hmember : unionMember (eventValue e) "ev_detection" = some (detectionEventValue ev) := by
    rw [eventValue, EventNew.A6oEvent.type, hev]
    rfl
  rw [detectionText, shown, htext, hmember, Option.bind_some, detectionEventOf_value, hj, hopts.1,
    hev]
  cases opts.formatJson with
  | true => rfl
  | false => rfl

theorem completedText_value (p : Printer) {c : Client} {opts : ScanOptions}
    (hopts : c.Has opts) {e : EventNew.A6oEvent} {j : Json} (hj : eventJson e = .ok j)
    (htext : isText e = true) {ev : A6oOnDemandCompletedEvent}
    (hev : e.u = .evOnDemandCompleted ev) :
    completedText p c j (eventValue e) = .ok (shown p opts e) := by
  have hmember : unionMember (eventValue e) "ev_on_demand_completed"
      = some (onDemandCompletedEventValue ev) := by
    rw [eventValue, EventNew.A6oEvent.type, hev]
    rfl
  rw [completedText, shown, htext, hmember, Option.bind_some, onDemandCompletedEventOf_value, hj,
    hopts.1, hopts.2, hev]
  cases opts.noSummary with
  | true => rfl
  | false =>
    cases opts.formatJson with
    | true => rfl
    | false => rfl

theorem showEvent_value (p : Printer) {c : Client} {opts : ScanOptions} (hopts : c.Has opts)
    {e : EventNew.A6oEvent} {j : Json} (hj : eventJson e = .ok j) (htext : isText e = true) :
    showEvent p c j (eventValue e) = .ok (c.after p opts e) := by
  have htype : intMember (eventValue e) "type" = some (e.type.mask : Int) := rfl
  rw [showEvent, htype]
  -- only detections and the completed event are shown
  cases hu : e.u with
  | evDetection ev =>
    have hmask : e.type = .detection := by
      rw [EventNew.A6oEvent.type, hu]
      rfl
    show (if _ then _ else _) = _
    rw [if_pos (by rw [hmask]), detectionText_value p hopts hj htext hu]
    show Except.ok (c.print (shown p opts e)) = _
    simp [Client.after, Client.print, hmask]
  | evOnDemandCompleted ev =>
    have hmask : e.type = .onDemandCompleted := by
      rw [EventNew.A6oEvent.type, hu]
      rfl
    show (if _ then _ else (if _ then _ else _)) = _
    rw [if_neg (by rw [hmask]; decide), if_pos (by rw [hmask]),
      completedText_value p hopts hj htext hu]
    show Except.ok (Client.print { c with done := true } (shown p opts e)) = _
    simp [Client.after, Client.print, hmask]
  | _ =>
    have hquiet : shown p opts e = [] := by simp only [shown, hu, ite_self]
    show (if _ then _ else (if _ then _ else _)) = _
    have hmask : e.type.mask ≠ A6oEventType.detection.mask ∧
        e.type.mask ≠ A6oEventType.onDemandCompleted.mask := by
      rw [EventNew.A6oEvent.type, hu]
      simp [A6oEventUnion.type, A6oEventType.mask]
    rw [if_neg (mod_cast hmask.1), if_neg (mod_cast hmask.2)]
    simp [Client.after, hquiet, EventNew.A6oEvent.type, hu, A6oEventUnion.type, pure,
      Except.pure]

/-- An event that is not shown is not a completed event. -/
theorem Client.after_of_not_isText (p : Printer) (opts : ScanOptions) (c : Client)
    {e : EventNew.A6oEvent} (h : ¬ isText e = true) : c.after p opts e = c := by
  have hquiet : shown p opts e = [] := by
    rw [shown, if_pos (by simpa using h)]
  have hopen : e.type ≠ .onDemandCompleted := by
    intro htype
    refine h ?_
    rw [isText]
    cases hu : e.u with
    | evOnDemandCompleted ev => rfl
    | _ =>
      rw [EventNew.A6oEvent.type, hu] at htype
      cases htype
  simp [Client.after, hquiet, hopen]

/-- A read that returns the message of an event. -/
structure Carries (lib : JsonLibrary) (chunk : List Char) (e : EventNew.A6oEvent) : Prop where
  message : ∃ m, eventMessage e = some m ∧ Framing.Decodes frameEnd lib.dumps lib.loadb m ∧
    Framing.OneMessage frameEnd lib.dumps chunk m

theorem jrpcProcess_carries {lib : JsonLibrary} (p : Printer) {scanId : UInt32} {c : Client}
    {opts : ScanOptions} (hopts : c.Has opts) {e : EventNew.A6oEvent} (he : Sendable scanId e)
    {chunk : List Char} (hchunk : Carries lib chunk e) :
    ∃ ret, ret ≠ jrpcEof ∧ jrpcProcess lib p c (some chunk) = .ok (ret, c.after p opts e) := by
  obtain ⟨m, hm, hdecodes, hone⟩ := hchunk
  obtain ⟨j, hj, hunmarshall⟩ := he.eventJson
  have hmessage : m = makeCallObj notifyEvent (some j) 0 := by
    rw [eventMessage, hj] at hm
    exact (Option.some.inj hm).symm
  have hload := hdecodes.oneMessage hone
  have hreceive : connectionReceive lib (some chunk) = (jrpcOk, some m) :=
    connectionReceive_eq_ok.mpr ⟨hdecodes.ne_nil hload, hload⟩
  have hunpack : jsonRpcUnpack m = .ok (.request notifyEvent 0 (some j)) := by
    rw [hmessage, jsonRpcUnpack_makeCallObj]
    rfl
  obtain ⟨mthRet, hmthRet, hmethod⟩ : ∃ mthRet,
      (mthRet = jrpcOk ∨ mthRet = jrpcErrMarshallFieldNotFound) ∧
      notifyEventMethod p c (some j) = .ok (mthRet, c.after p opts e) := by
    by_cases htext : isText e = true
    · rw [if_pos htext] at hunmarshall
      refine ⟨jrpcOk, .inl rfl, ?_⟩
      rw [notifyEventMethod, hunmarshall]
      show (showEvent p c j (eventValue e) >>= _) = _
      rw [showEvent_value p hopts hj htext]
      rfl
    · rw [if_neg htext] at hunmarshall
      refine ⟨jrpcErrMarshallFieldNotFound, .inr rfl, ?_⟩
      rw [notifyEventMethod, hunmarshall, c.after_of_not_isText p opts htext]
      rfl
  refine ⟨(connectionProcessRequest (rpcfeConnection mthRet) notifyEvent 0 (some j)).1, ?_, ?_⟩
  · rcases hmthRet with rfl | rfl
    · show jrpcOk ≠ jrpcEof
      decide
    · show jrpcErrMethodToCode jrpcErrMarshallFieldNotFound ≠ jrpcEof
      decide
  · rw [jrpcProcess, hreceive]
    simp only [hunpack, if_true]
    rw [hmethod]
    rfl

theorem carries_of_messages {lib : JsonLibrary} {scanId : UInt32}
    {es : List EventNew.A6oEvent} (hes : ∀ e ∈ es, Sendable scanId e) :
    ∀ {chunks : List (List Char)},
      List.Forall₂ (fun chunk m => Framing.Decodes frameEnd lib.dumps lib.loadb m ∧
        Framing.OneMessage frameEnd lib.dumps chunk m) chunks (es.filterMap eventMessage) →
      List.Forall₂ (Carries lib) chunks es := by
  induction es with
  | nil =>
    intro chunks h
    cases h
    exact .nil
  | cons e es ih =>
    intro chunks h
    simp only [List.forall_mem_cons] at hes
    obtain ⟨j, hj, -⟩ := hes.1.eventJson
    have hmessage : eventMessage e = some (makeCallObj notifyEvent (some j) 0) := by
      rw [eventMessage, hj]
    rw [List.filterMap_cons_some hmessage] at h
    cases h with
    | cons hchunk hrest => exact .cons ⟨_, hmessage, hchunk⟩ (ih hes.2 hrest)

/-! ## The loop -/

theorem Client.Has.after {c : Client} {opts : ScanOptions} (h : c.Has opts) (p : Printer)
    (e : EventNew.A6oEvent) : (c.after p opts e).Has opts := h

/-- Events before the completed event are shown one after the other. -/
theorem processLoop_carries {lib : JsonLibrary} (p : Printer) {scanId : UInt32}
    {opts : ScanOptions} {chunks : List (List Char)} {es : List EventNew.A6oEvent}
    (hchunks : List.Forall₂ (Carries lib) chunks es) (hes : ∀ e ∈ es, Sendable scanId e)
    (hopen : ∀ e ∈ es, e.type ≠ .onDemandCompleted) (reads : List (Option (List Char))) :
    ∀ {c : Client}, c.Has opts → c.done = false →
      processLoop lib p c (chunks.map some ++ reads)
        = processLoop lib p { c with out := c.out ++ es.flatMap (shown p opts) } reads := by
  induction hchunks with
  | nil =>
    intro c hopts hdone
    simp
  | @cons chunk e chunks es hchunk _ ih =>
    intro c hopts hdone
    simp only [List.forall_mem_cons] at hes hopen
    obtain ⟨ret, hret, hstep⟩ := jrpcProcess_carries p hopts hes.1 hchunk
    have hdone' : (c.after p opts e).done = false := by simp [Client.after, hdone, hopen.1]
    rw [List.map_cons, List.cons_append, processLoop, hstep]
    show (if _ then _ else _) = _
    rw [if_pos ⟨hret, hdone'⟩, ih hes.2 hopen.2 (hopts.after p e) hdone']
    simp [Client.after, hdone, hopen.1]

/-- The loop ends with the completed event, whatever comes after it. -/
theorem processLoop_completed {lib : JsonLibrary} (p : Printer) {scanId : UInt32}
    {opts : ScanOptions} {chunk : List Char} {e : EventNew.A6oEvent}
    (hchunk : Carries lib chunk e) (he : Sendable scanId e)
    (hcompleted : e.type = .onDemandCompleted) (reads : List (Option (List Char)))
    {c : Client} (hopts : c.Has opts) :
    processLoop lib p c (some chunk :: reads)
      = .ok ({ c with done := true, out := c.out ++ shown p opts e }, true) := by
  obtain ⟨ret, -, hstep⟩ := jrpcProcess_carries p hopts he hchunk
  rw [processLoop, hstep]
  show (if _ then _ else _) = _
  rw [if_neg (by simp [Client.after, hcompleted])]
  simp [Client.after, hcompleted, pure, Except.pure]

/-! ## The messages of a scan -/

theorem Sendable.marshalled {scanId : UInt32} {e : EventNew.A6oEvent} (h : Sendable scanId e) :
    Rpc.marshalled e = true := by
  obtain ⟨j, hj, -⟩ := h.eventJson
  exact marshalled_eq_true.mpr ⟨j, hj⟩

/-- The callback that a scan request registers. -/
def scanCallback (opts : ScanOptions) (scanId : UInt32) (conn addr : Nat) :
    CallbackEntry EventCb :=
  ⟨scanEventMask (scanParam opts scanId), .scanEventCb conn (some addr)⟩

/-- The daemon while the scan runs: the connection is open and the scan
object is there, the scan is all that was asked for on the connection, and no
callback has outlived what it points to. -/
structure Serves (conn addr : Nat) (opts : ScanOptions) (scanId : UInt32) (d : Daemon) :
    Prop where
  connected : conn ∈ d.conns
  scan : ∃ o, d.onDemands.lookup addr = some o ∧ o.scanId = scanId.toNat
  own : d.callbacks.filter (fun p => Routing.callbackConn p.cb = conn)
    = [scanCallback opts scanId conn addr]
  live : ∀ p ∈ d.callbacks, CallbackLive d p.cb

section Messages

variable {realpath : Option (CString → Option CString)} {d : Daemon} {conn addr : Nat}
  {opts : ScanOptions} {scanId : UInt32}

theorem CallbackLive.startScan {cb : EventCb} (h : CallbackLive d cb) (p : A6oRpcScanParam) :
    CallbackLive (startScan realpath d conn addr p) cb := by
  cases cb with
  | listenEventCb conn' => exact h
  | scanEventCb conn' onDemand =>
    obtain ⟨hconn, addr', rfl, haddr⟩ := h
    refine ⟨hconn, addr', rfl, ?_⟩
    cases hscan : scanOnDemand realpath p with
    | none => simpa [Rpc.startScan, hscan] using haddr
    | some o =>
      rw [Rpc.startScan, hscan]
      exact List.mem_cons_of_mem _ haddr

/-- A daemon whose callbacks are live serves the scan that it starts. -/
theorem serves_startScan {o : A6oOnDemand} (hconn : conn ∈ d.conns)
    (hcallbacks : ∀ p ∈ d.callbacks, CallbackLive d p.cb ∧ Routing.callbackConn p.cb ≠ conn)
    (hnew : scanOnDemand realpath (scanParam opts scanId) = some o) :
    Serves conn addr opts scanId
      (startScan realpath d conn addr (scanParam opts scanId)) := by
  have hentries : (startScan realpath d conn addr (scanParam opts scanId)).callbacks
      = scanCallback opts scanId conn addr :: d.callbacks := by
    simp [startScan, hnew, a6oEventSourceAddCb, scanCallback]
  have hscan : (startScan realpath d conn addr (scanParam opts scanId)).onDemands
      = (addr, o) :: d.onDemands := by
    simp [startScan, hnew]
  constructor
  case connected => exact hconn
  case scan =>
    refine ⟨o, ?_, (scanOnDemand_builtFrom hnew).scanId⟩
    rw [hscan]
    simp
  case own =>
    have hothers : d.callbacks.filter (fun p => Routing.callbackConn p.cb = conn) = [] := by
      rw [List.filter_eq_nil_iff]
      intro p hp
      simpa using (hcallbacks p hp).2
    rw [hentries, List.filter_cons_of_pos (by simp [scanCallback, Routing.callbackConn]), hothers]
  case live =>
    intro p hp
    rw [hentries] at hp
    rcases List.mem_cons.mp hp with rfl | hp
    · refine ⟨hconn, addr, rfl, ?_⟩
      rw [hscan]
      exact List.mem_cons_self
    · exact CallbackLive.startScan (hcallbacks p hp).1 _

/-- No callback fails, and the client is sent the event if it has asked for
its type. -/
theorem Serves.notify (h : Serves conn addr opts scanId d) {e : EventNew.A6oEvent}
    (he : Routing.wanted (scanParam opts scanId) e.type = true →
      Sendable scanId e ∧ e.u.scanId.isSome) :
    ∃ sent, Routing.notify d e (firedCallbacks d.callbacks e.type) = (sent, false) ∧
      Routing.sentTo conn sent =
        [e].filter fun e => Routing.wanted (scanParam opts scanId) e.type := by
  refine ⟨_, Routing.notify_of_safe fun cb hcb => ?_, ?_⟩
  · obtain ⟨mask, hmem, -⟩ := mem_firedCallbacks.mp hcb
    exact runCallback_of_live (h.live _ hmem) _ _
  rw [Routing.sentTo_own, h.own]
  have haccepts : (scanCallback opts scanId conn addr).accepts e.type
      = Routing.wanted (scanParam opts scanId) e.type := Routing.accepts_scanEventMask ..
  by_cases hwanted : Routing.wanted (scanParam opts scanId) e.type = true
  · obtain ⟨hsend, hid⟩ := he hwanted
    obtain ⟨o, hscan, ho⟩ := h.scan
    have hfired : firedCallbacks [scanCallback opts scanId conn addr] e.type
        = [.scanEventCb conn (some addr)] := by
      simp only [firedCallbacks, List.filter_cons, haccepts, hwanted, if_true, List.filter_nil]
      rfl
    have hheader : (Routing.header e).scanId = o.scanId := by
      obtain ⟨id, hid⟩ := Option.isSome_iff_exists.mp hid
      rw [Routing.header, hid, ho]
      show id.toInt = _
      rw [hsend.scanId id hid, toInt_ofUInt32]
    rw [hfired, List.flatMap_singleton, Routing.sentBy_scanEventCb hscan
      (Routing.eventHasScanId_of_wanted hwanted) (fun _ _ => h.connected),
      if_pos ⟨hheader, hsend.marshalled⟩]
    simp [Routing.sentTo, hwanted]
  · have hfired : firedCallbacks [scanCallback opts scanId conn addr] e.type = [] := by
      simp [firedCallbacks, haccepts, hwanted]
    rw [hfired]
    simp [Routing.sentTo, hwanted]

/-- The client is sent the events that it has asked for. -/
theorem sentTo_fireAll {fires : List (Daemon × EventNew.A6oEvent)}
    (hserves : ∀ f ∈ fires, Serves conn addr opts scanId f.1)
    (hsend : ∀ f ∈ fires, Routing.wanted (scanParam opts scanId) f.2.type = true →
      Sendable scanId f.2 ∧ f.2.u.scanId.isSome) :
    Routing.sentTo conn (fireAll fires).1 =
      (fires.map Prod.snd).filter fun e => Routing.wanted (scanParam opts scanId) e.type := by
  induction fires with
  | nil => rfl
  | cons f fires ih =>
    simp only [List.forall_mem_cons] at hserves hsend
    obtain ⟨sent, hnotify, hsent⟩ := hserves.1.notify hsend.1
    have hfire : (fireAll (f :: fires)).1 = sent ++ (fireAll fires).1 := by
      rw [fireAll, hnotify]
    rw [hfire, Routing.sentTo_append, hsent, ih hserves.2 hsend.2, ← List.filter_append]
    rfl

end Messages

/-! ## The request -/

theorem marshall_scanParam {param : A6oRpcScanParam}
    (hpath : utf8Valid param.rootPath = true) :
    jrpcMarshallStruct rpcDefs 1 "a6o_rpc_scan_param" (scanParamValue param)
      = .ok (.object [("root_path", .string param.rootPath),
          ("send_progress", .integer (castInt 64 param.sendProgress)),
          ("recursive", .integer (castInt 64 param.recursive)),
          ("threaded", .integer (castInt 64 param.threaded)),
          ("scan_id", .integer (castInt 64 param.scanId))]) := by
  have hstring : jsonString (some param.rootPath) = some (.string param.rootPath) :=
    if_pos hpath
  refine bind_eq_ok.mpr ⟨_, orNotCompiled_eq_ok.mpr rfl, bind_eq_ok.mpr ⟨_, ?_, rfl⟩⟩
  refine bind_eq_ok.mpr ⟨_, orNotCompiled_eq_ok.mpr rfl, bind_eq_ok.mpr
    ⟨_, congrArg Except.ok hstring, ?_⟩⟩
  rfl

/-- The daemon gets the parameters as they are, when the path is UTF-8. -/
theorem scanCall_params (opts : ScanOptions) (scanId : UInt32)
    (hpath : utf8Valid opts.pathToScan = true) :
    ∃ j, scanCall opts scanId = .ok (makeCallObj "scan".toList (some j) 0) ∧
      ScanParams (some j) (scanParam opts scanId) := by
  have hlt := scanId.toNat_lt
  have hid : castInt 64 scanId.toNat = scanId.toNat := castInt_eq_self.mpr (by omega)
  refine ⟨_, bind_eq_ok.mpr ⟨_, marshall_scanParam hpath, rfl⟩, rfl, ⟨1, rfl, rfl⟩,
    ⟨_, rfl, ?_⟩, ⟨_, rfl, ?_⟩, _, rfl, ?_⟩
  · simp only [scanParam]
    cases opts.recursive <;> rfl
  · simp only [scanParam]
    cases opts.threaded <;> rfl
  · show castInt 64 (castInt 64 scanId.toNat) = scanId.toNat
    rw [hid, hid]

/-- The daemon that has handled the request serves the scan. -/
theorem scanCall_served {realpath : Option (CString → Option CString)} {conn addr : Nat}
    {opts : ScanOptions} {scanId : UInt32} {o : A6oOnDemand}
    (hpath : utf8Valid opts.pathToScan = true)
    (hnew : scanOnDemand realpath (scanParam opts scanId) = some o) :
    ∃ j, scanCall opts scanId = .ok (makeCallObj "scan".toList (some j) 0) ∧
      ∀ d, conn ∈ d.conns →
        (∀ p ∈ d.callbacks, CallbackLive d p.cb ∧ Routing.callbackConn p.cb ≠ conn) →
        ∃ d', scanMethod realpath d conn addr (some j) = .ok (jrpcOk, d') ∧
          Serves conn addr opts scanId d' := by
  obtain ⟨j, hcall, hparams⟩ := scanCall_params opts scanId hpath
  refine ⟨j, hcall, fun d hconn hcallbacks => ?_⟩
  refine ⟨startScan realpath d conn addr (scanParam opts scanId), ?_,
    serves_startScan hconn hcallbacks hnew⟩
  rcases scanMethod_cases realpath d conn addr (some j) with
    ⟨hnull, -⟩ | ⟨_, -, hno, -⟩ | ⟨param, hparam, hret⟩
  · cases hnull
    exact absurd hparams (not_scanParams_null _)
  · exact absurd hparams (hno _)
  · rw [hret, hparam.unique hparams]

/-! ## The session -/

/-- The summary of a scan of `files` files. The counters are `int`s. -/
def summary (p : Printer) (files malware suspicious : Nat) (duration : Int64) : CString :=
  summaryText (printInt (Int32.ofNat files).toInt) (printInt (Int32.ofNat malware).toInt)
    (printInt (Int32.ofNat suspicious).toInt) (p.seconds duration)

theorem printSize_countToSize (n : Int32) :
    printSize (Producers.countToSize n) = printInt n.toInt := by
  have hlow := n.le_toInt
  have hhigh := n.toInt_lt
  have hcount : ((Producers.countToSize n).toNat : Int) = n.toInt % 2 ^ 64 := by
    rw [Producers.countToSize, UInt64.ofInt, UInt64.toNat_ofNat']
    omega
  have hcast : castInt 64 (Producers.countToSize n).toNat = n.toInt := by
    rw [hcount, castInt, Int.bmod_def]
    split <;> omega
  rw [printSize, hcast]

/-- The output of a scan over these files: the start event is followed by
`found`, of which the detections are printed, and by the summary, which
counts them. -/
def Printed (p : Printer) (opts : ScanOptions) (files : Nat) (log : List EventNew.A6oEvent)
    (out : CString) : Prop :=
  ∃ first found ended completed,
    log = first :: found ++ [⟨ended, .evOnDemandCompleted completed⟩] ∧
    (∀ e ∈ found, e.type = .detection ∨ e.type = .onDemandProgress) ∧
    out = found.flatMap (shown p opts)
      ++ shown p opts ⟨ended, .evOnDemandCompleted completed⟩ ∧
    onDemandCompletedEventPrint p completed
      = summary p files (found.countP (Pool.isDetected .malware))
          (found.countP (Pool.isDetected .suspicious)) completed.duration

/-- An event of a scan that is sent to the client that asked for it. -/
structure OfScan (scanId : UInt32) (e : EventNew.A6oEvent) : Prop extends Sendable scanId e where
  hasScanId : e.u.scanId.isSome

theorem summary_of_counted (p : Printer) {files : Nat} {found : List EventNew.A6oEvent}
    {o : A6oOnDemand} (h : Pool.Counted files found o) (duration : Int64) :
    onDemandCompletedEventPrint p
        { scanId := .ofInt o.scanId
          cancelled := .ofInt o.wasCancelled
          totalMalwareCount := Producers.countToSize o.malwareCount
          totalSuspiciousCount := Producers.countToSize o.suspiciousCount
          totalScannedCount := Producers.countToSize o.scannedCount
          duration }
      = summary p files (found.countP (Pool.isDetected .malware))
          (found.countP (Pool.isDetected .suspicious)) duration := by
  rw [onDemandCompletedEventPrint, summary, printSize_countToSize, printSize_countToSize,
    printSize_countToSize, h.scanned, h.malware, h.suspicious]

/-! ## Messages as texts -/

/-- A string of JSON that needs no escapes. -/
def quoted (s : CString) : CString := '"' :: s ++ ['"']

mutual

/-- `JSON_COMPACT`, for values without real numbers whose strings need no
escapes. -/
def compact : Json → CString
  | .null | .real _ => "null".toList
  | .bool b => if b then "true".toList else "false".toList
  | .integer value => printInt value
  | .string value => quoted value
  | .array elems => '[' :: compactElems elems ++ [']']
  | .object fields => '{' :: compactFields fields ++ ['}']

/-- The elements of an array. -/
def compactElems : List Json → CString
  | [] => []
  | [elem] => compact elem
  | elem :: elems => compact elem ++ ',' :: compactElems elems

/-- The fields of an object. -/
def compactFields : List (String × Json) → CString
  | [] => []
  | [(name, value)] => quoted name.toList ++ ':' :: compact value
  | (name, value) :: fields =>
    quoted name.toList ++ ':' :: compact value ++ ',' :: compactFields fields

end

/-- The library on these messages, which it tells apart by their texts. -/
def knownMessages (ms : List Json) : JsonLibrary where
  dumps := compact
  loadb := fun buffer =>
    ms.find? fun m => compact m <+: buffer.dropWhile fun c => c ∈ frameEnd

/-! ## A file that is malware -/

/-- `armadito-scan /r/f`. -/
def plainOptions : ScanOptions :=
  { formatJson := false
    recursive := false
    threaded := false
    noSummary := false
    pathToScan := "/r/f".toList }

/-- A scan of one file. -/
def oneFileScan : A6oOnDemand :=
  { rootPath := "/r/f".toList
    scanId := 7
    flags := 0
    toScanCount := 0
    scannedCount := 0
    malwareCount := 0
    suspiciousCount := 0
    wasCancelled := 0
    progressPeriod := defaultProgressPeriod
    lastProgressTime := 0
    lastProgressValue := a6oOnDemandProgressUnknown }

/-- The file is scanned by one thread. -/
def oneFileRun : List Pool.Label :=
  .handOver (.scanFile (some "/r/f".toList)) :: List.replicate 5 (.thread 0 Pool.textFile)
    ++ [.complete 5 2]

/-- Another client listens to all detections. -/
def listenedDaemon : Daemon :=
  { conns := [1, 3]
    onDemands := []
    callbacks := [⟨A6oEventType.detection.mask, .listenEventCb 3⟩]
    threads := [] }

/-- The file is malware. -/
def malwareEvent : EventNew.A6oEvent :=
  ⟨1, .evDetection
    { context := .onDemand
      scanId := 7
      path := some "/r/f".toList
      scanStatus := .malware
      scanAction := a6oActionNone
      moduleName := some "m".toList
      moduleReport := some "text".toList }⟩

/-- The scan is completed. -/
def endEvent : EventNew.A6oEvent :=
  ⟨2, .evOnDemandCompleted
    { scanId := 7
      cancelled := 0
      totalMalwareCount := 1
      totalSuspiciousCount := 0
      totalScannedCount := 1
      duration := 5 }⟩

/-- Both events as the daemon writes them. -/
def malwareText : CString :=
  ("\x7b\"jsonrpc\":\"2.0\",\"method\":\"notify_event\",\"params\":\x7b\"timestamp\":1," ++
    "\"type\":\"EVENT_DETECTION\",\"u\":\x7b\"ev_detection\":\x7b" ++
    "\"context\":\"CONTEXT_ON_DEMAND\",\"scan_id\":7,\"path\":\"/r/f\"," ++
    "\"scan_status\":\"A6O_FILE_MALWARE\",\"scan_action\":\"A6O_ACTION_NONE\"," ++
    "\"module_name\":\"m\",\"module_report\":\"text\"\x7d\x7d\x7d\x7d").toList

/-- The message of its end. -/
def endText : CString :=
  ("\x7b\"jsonrpc\":\"2.0\",\"method\":\"notify_event\",\"params\":\x7b\"timestamp\":2," ++
    "\"type\":\"EVENT_ON_DEMAND_COMPLETED\",\"u\":\x7b\"ev_on_demand_completed\":\x7b" ++
    "\"scan_id\":7,\"cancelled\":0,\"total_malware_count\":1," ++
    "\"total_suspicious_count\":0,\"total_scanned_count\":1,\"duration\":5\x7d\x7d\x7d\x7d").toList

end Armadito.Tools
