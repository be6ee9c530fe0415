import Armadito.Core.Journal
import Armadito.Jrpc.Connection
import Armadito.Jrpc.Framing
import Armadito.Rpc.RpcBe
import Armadito.Rpc.RpcDefs

/-!
# Tools.ArmaditoScan

`armadito-scan.c`: the client that asks the daemon for a scan and prints the
events it is notified of, until the scan is completed or the daemon has
closed the connection.
-/

namespace Armadito.Tools

open Armadito.Core Armadito.Core.EventNew Armadito.Core.Journal Armadito.Jrpc
  Armadito.Jrpc.Schema Armadito.Rpc
open Armadito.Conf (printInt)

/-! ## The events in memory -/

/-- A member of a structure. -/
def member : Value → String → Option Value
  | .struct members, name => members.lookup name
  | _, _ => none

/-- An integer field. -/
def intMember (v : Value) (name : String) : Option Int :=
  match member v name with
  | some (.int n) => some n
  | _ => none

/-- A string field. -/
def stringMember (v : Value) (name : String) : Option (Option CString) :=
  match member v name with
  | some (.string s) => some s
  | _ => none

/-- `ev->u`, through the member `name` of the union. -/
def unionMember (v : Value) (name : String) : Option Value :=
  match member v "u" with
  | some (.union name' value) => if name' = name then some value else none
  | _ => none

/-- A `size_t` read back from its value. -/
theorem ofInt_toNat (c : UInt64) : UInt64.ofInt c.toNat = c := by
  have hmod : ((c.toNat : Int) % 2 ^ 64).toNat = c.toNat := by
    have := c.toNat_lt
    omega
  rw [UInt64.ofInt, hmod, UInt64.ofNat_toNat]

/-- The contexts there are. -/
def contexts : List A6oDetectionContext := [.realTime, .onDemand]

/-- The statuses there are. -/
def fileStatuses : List A6oFileStatus :=
  [.undecided, .clean, .unknownType, .einval, .ierror, .suspicious, .whiteListed, .malware]

/-- `struct a6o_detection_event` from its members. -/
def detectionEventOf (v : Value) : Option A6oDetectionEvent := do
  let context ← intMember v "context"
  let scanId ← intMember v "scan_id"
  let scanStatus ← intMember v "scan_status"
  let scanAction ← intMember v "scan_action"
  return { context := ← contexts.find? fun c => c.value = context
           scanId := .ofInt scanId
           path := ← stringMember v "path"
           scanStatus := ← fileStatuses.find? fun s => s.value = scanStatus
           scanAction := scanAction.toNat
           moduleName := ← stringMember v "module_name"
           moduleReport := ← stringMember v "module_report" }

/-- `struct a6o_on_demand_completed_event` from its members. -/
def onDemandCompletedEventOf (v : Value) : Option A6oOnDemandCompletedEvent := do
  return { scanId := .ofInt (← intMember v "scan_id")
           cancelled := .ofInt (← intMember v "cancelled")
           totalMalwareCount := .ofInt (← intMember v "total_malware_count")
           totalSuspiciousCount := .ofInt (← intMember v "total_suspicious_count")
           totalScannedCount := .ofInt (← intMember v "total_scanned_count")
           duration := .ofInt (← intMember v "duration") }

/-! ## Printing -/

/-- What the C library and the JSON library print: a duration in
milliseconds as seconds with `%.5f`, and a JSON value with an indentation of
4. -/
structure Printer where
  seconds : Int64 → CString
  dump : Json → CString

/-- `detection_event_print`. -/
def detectionEventPrint (ev : A6oDetectionEvent) : CString :=
  printString ev.path ++ ": ".toList ++ a6oFileStatusPrettyStr ev.scanStatus ++ " [".toList ++
    printString ev.moduleName ++ " - ".toList ++ printString ev.moduleReport ++
    "] (action ".toList ++ a6oActionPrettyStr ev.scanAction ++ ")\n".toList

/-- `%ld` of a `size_t`. -/
def printSize (count : UInt64) : CString := printInt (castInt 64 count.toNat)

/-- The four lines of the summary around their values. -/
def summaryText (scanned malware suspicious duration : CString) : CString :=
  "\nSCAN SUMMARY:\n".toList ++
    "scanned files     : ".toList ++ scanned ++ "\n".toList ++
    "malware files     : ".toList ++ malware ++ "\n".toList ++
    "suspicious files  : ".toList ++ suspicious ++ "\n".toList ++
    "duration          : ".toList ++ duration ++ "s\n\n".toList

/-- `on_demand_completed_event_print`. -/
def onDemandCompletedEventPrint (p : Printer) (ev : A6oOnDemandCompletedEvent) : CString :=
  summaryText (printSize ev.totalScannedCount) (printSize ev.totalMalwareCount)
    (printSize ev.totalSuspiciousCount) (p.seconds ev.duration)

/-- The event as it came, printed as JSON. -/
def eventPrintJson (p : Printer) (ev : Json) : CString := p.dump ev ++ "\n\n".toList

/-! ## Notifications -/

/-- The options that the rest of the client looks at. -/
structure ScanOptions where
  formatJson : Bool
  recursive : Bool
  threaded : Bool
  noSummary : Bool
  pathToScan : CString

/-- `struct scan_data`, and what has been printed. -/
structure Client where
  done : Bool
  formatJson : Bool
  noSummary : Bool
  out : CString

/-- A text more on the output. -/
def Client.print (c : Client) (text : CString) : Client := { c with out := c.out ++ text }

/-- `JRPC_JSON2STRUCT` of a structure that is `depth` levels deep. -/
def json2Struct (depth : Nat) (s : String) (obj : Option Json) : Except Stop (Option Value) :=
  match obj with
  | none => .error (.code jrpcErrMarshallFieldNotFound)
  | some .null => .ok none
  | some j => do
    let value ← jrpcUnmarshallStruct rpcDefs depth s j
    return some value

/-- The event of a notification. -/
def unmarshallEvent (params : Option Json) : Except Stop (Option Value) :=
  json2Struct 2 "a6o_event" params

theorem json2Struct_object {j : Json} (h : jsonTypeof j = .object) (depth : Nat) (s : String) :
    json2Struct depth s (some j)
      = jrpcUnmarshallStruct rpcDefs depth s j >>= fun value => pure (some value) := by
  cases j with
  | object fields => rfl
  | _ => cases h

/-- What is printed of a detection. -/
def detectionText (p : Printer) (c : Client) (params : Json) (ev : Value) :
    Except Stop CString :=
  if c.formatJson then .ok (eventPrintJson p params)
  else do
    let detection ← orNotCompiled ((unionMember ev "ev_detection").bind detectionEventOf)
    return detectionEventPrint detection

/-- What is printed when the scan is completed. -/
def completedText (p : Printer) (c : Client) (params : Json) (ev : Value) :
    Except Stop CString :=
  if c.noSummary then .ok []
  else if c.formatJson then .ok (eventPrintJson p params)
  else do
    let completed ←
      orNotCompiled ((unionMember ev "ev_on_demand_completed").bind onDemandCompletedEventOf)
    return onDemandCompletedEventPrint p completed

/-- The `switch` of `notify_event_method`. -/
def showEvent (p : Printer) (c : Client) (params : Json) (ev : Value) : Except Stop Client := do
  let type ← orNotCompiled (intMember ev "type")
  if type = A6oEventType.detection.mask then
    return c.print (← detectionText p c params ev)
  else if type = A6oEventType.onDemandCompleted.mask then
    return { c with done := true }.print (← completedText p c params ev)
  else
    return c

/-- The status and the client after the call. -/
def notifyEventMethod (p : Printer) (c : Client) (params : Option Json) :
    Except Stop (Int × Client) :=
  match unmarshallEvent params with
  | .error (.code ret) => .ok (ret, c)
  | .error stop => .error stop
  | .ok none => .error (.fault .nullDeref) -- `ev->type`
  | .ok (some ev) => do
    let c ← showEvent p c (params.getD .null) ev
    return (jrpcOk, c)

/-! ## The connection -/

/-- The method of a notification. -/
def notifyEvent : CString := "notify_event".toList

/-- The connection of the client, which has one method; `ret` is what a call
of the method returns. -/
def rpcfeConnection (ret : Int) : JrpcConnection Unit :=
  jrpcConnectionNew (some
    { find := fun name => if name = notifyEvent then some fun _ => (ret, none) else none
      getErrorMessage := fun _ => none })

/-- `jrpc_process`: one read, and what is done with the message in it. -/
def jrpcProcess (lib : JsonLibrary) (p : Printer) (c : Client) (read : Option (List Char)) :
    Except Stop (Int × Client) :=
  match connectionReceive lib read with
  | (ret, none) => .ok (ret, c)
  | (_, some message) =>
    match jsonRpcUnpack message with
    | .ok (.request method id params) =>
      if method = notifyEvent then do
        let (ret, c) ← notifyEventMethod p c params
        return ((connectionProcessRequest (rpcfeConnection ret) method id params).1, c)
      else .ok ((connectionProcessRequest (rpcfeConnection jrpcOk) method id params).1, c)
    | _ => .ok ((Jrpc.jrpcProcess (rpcfeConnection jrpcOk) message).1, c)

/-- The loop of `do_scan`. True is returned when the loop has ended, false
when it waits for the next read. -/
def processLoop (lib : JsonLibrary) (p : Printer) :
    Client → List (Option (List Char)) → Except Stop (Client × Bool)
  | c, [] => .ok (c, false)
  | c, read :: reads => do
    let (ret, c) ← jrpcProcess lib p c read
    if ret ≠ jrpcEof ∧ c.done = false then processLoop lib p c reads else return (c, true)

/-! ## The request -/

/-- `create_scan_id` has returned `scanId`. -/
def scanParam (opts : ScanOptions) (scanId : UInt32) : A6oRpcScanParam :=
  { rootPath := opts.pathToScan
    recursive := if opts.recursive then 1 else 0
    threaded := if opts.threaded then 1 else 0
    sendProgress := 1
    scanId := scanId.toNat }

/-- `struct a6o_rpc_scan_param`. -/
def scanParamValue (param : A6oRpcScanParam) : Value :=
  .struct [("root_path", .string param.rootPath), ("send_progress", .int param.sendProgress),
    ("recursive", .int param.recursive), ("threaded", .int param.threaded),
    ("scan_id", .int param.scanId)]

/-- The message that asks for the scan. -/
def scanCall (opts : ScanOptions) (scanId : UInt32) : Except Stop Json := do
  let j ← jrpcMarshallStruct rpcDefs 1 "a6o_rpc_scan_param" (scanParamValue (scanParam opts scanId))
  return makeCallObj "scan".toList (some j) 0

/-- The client before it calls. -/
def startClient (opts : ScanOptions) : Client :=
  { done := false, formatJson := opts.formatJson, noSummary := opts.noSummary, out := [] }

end Armadito.Tools
