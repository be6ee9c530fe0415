import Armadito.Core.EventNew
import Armadito.Jrpc.SchemaRoundTrip

/-!
# Rpc.RpcDefs

The declarations of `rpcdefs.h`, and the structures of the events as the
generated functions see them.
-/

namespace Armadito.Rpc

open Armadito.Core Armadito.Core.EventNew Armadito.Jrpc.Schema

def intType : IntType := ⟨32, true⟩
def unsignedIntType : IntType := ⟨32, false⟩
def sizeType : IntType := ⟨64, false⟩
def timeType : IntType := ⟨64, true⟩

/-- The event types by their names. -/
def eventTypes : List (String × A6oEventType) :=
  [("EVENT_DETECTION", .detection), ("EVENT_ON_DEMAND_START", .onDemandStart),
    ("EVENT_ON_DEMAND_COMPLETED", .onDemandCompleted),
    ("EVENT_ON_DEMAND_PROGRESS", .onDemandProgress), ("EVENT_QUARANTINE", .quarantine),
    ("EVENT_REAL_TIME_PROT", .realTimeProt), ("EVENT_AV_UPDATE", .avUpdate)]

/-- The enumerations of the header. -/
def rpcEnums : List (String × List (String × Int)) :=
  [("a6o_file_status",
      [("A6O_FILE_UNDECIDED", A6oFileStatus.undecided.value),
        ("A6O_FILE_CLEAN", A6oFileStatus.clean.value),
        ("A6O_FILE_UNKNOWN_TYPE", A6oFileStatus.unknownType.value),
        ("A6O_FILE_EINVAL", A6oFileStatus.einval.value),
        ("A6O_FILE_IERROR", A6oFileStatus.ierror.value),
        ("A6O_FILE_SUSPICIOUS", A6oFileStatus.suspicious.value),
        ("A6O_FILE_WHITE_LISTED", A6oFileStatus.whiteListed.value),
        ("A6O_FILE_MALWARE", A6oFileStatus.malware.value)]),
    ("a6o_update_status",
      [("A6O_UPDATE_OK", 0), ("A6O_UPDATE_LATE", 1), ("A6O_UPDATE_CRITICAL", 2),
        ("A6O_UPDATE_NON_AVAILABLE", 3)]),
    ("a6o_action",
      [("A6O_ACTION_NONE", a6oActionNone), ("A6O_ACTION_ALERT", a6oActionAlert),
        ("A6O_ACTION_QUARANTINE", a6oActionQuarantine), ("A6O_ACTION_REMOVE", a6oActionRemove)]),
    ("a6o_event_type", eventTypes.map fun p => (p.1, (p.2.mask : Int))),
    ("a6o_detection_context",
      [("CONTEXT_REAL_TIME", A6oDetectionContext.realTime.value),
        ("CONTEXT_ON_DEMAND", A6oDetectionContext.onDemand.value)]),
    ("a6o_quarantine_action",
      [("QUARANTINE_ENTER", A6oQuarantineAction.enter.value),
        ("QUARANTINE_EXIT", A6oQuarantineAction.exit.value)])]

/-- The structures of the header. -/
def rpcStructs : List (String × List (String × FieldType)) :=
  [("a6o_base_info",
      [("name", .string), ("base_update_ts", .int timeType), ("version", .string),
        ("signature_count", .int sizeType), ("full_path", .string)]),
    ("a6o_module_info",
      [("name", .string), ("mod_status", .enum "a6o_update_status"),
        ("mod_update_ts", .int timeType), ("base_infos", .ptrArray "a6o_base_info")]),
    ("a6o_info",
      [("antivirus_version", .string), ("global_status", .enum "a6o_update_status"),
        ("global_update_ts", .int timeType), ("module_infos", .ptrArray "a6o_module_info")]),
    ("a6o_detection_event",
      [("context", .enum "a6o_detection_context"), ("scan_id", .int unsignedIntType),
        ("path", .string), ("scan_status", .enum "a6o_file_status"),
        ("scan_action", .enum "a6o_action"), ("module_name", .string),
        ("module_report", .string)]),
    ("a6o_on_demand_start_event",
      [("root_path", .string), ("scan_id", .int unsignedIntType)]),
    ("a6o_on_demand_completed_event",
      [("scan_id", .int unsignedIntType), ("cancelled", .int intType),
        ("total_malware_count", .int sizeType), ("total_suspicious_count", .int sizeType),
        ("total_scanned_count", .int sizeType), ("duration", .int timeType)]),
    ("a6o_on_demand_progress_event",
      [("scan_id", .int unsignedIntType), ("progress", .int intType), ("path", .string),
        ("malware_count", .int sizeType), ("suspicious_count", .int sizeType),
        ("scanned_count", .int sizeType)]),
    ("a6o_quarantine_event",
      [("quarantine_action", .enum "a6o_quarantine_action"), ("orig_path", .string),
        ("quarantine_path", .string)]),
    ("a6o_real_time_prot_event", [("rt_prot_new_state", .int intType)]),
    ("a6o_av_update_event", [("foo", .int intType)]),
    ("a6o_event",
      [("timestamp", .int timeType), ("type", .enum "a6o_event_type"),
        ("u", .union "a6o_event_union" "type")]),
    ("a6o_rpc_scan_param",
      [("root_path", .string), ("send_progress", .int intType), ("recursive", .int intType),
        ("threaded", .int intType), ("scan_id", .int timeType)]),
    ("a6o_rpc_listen_param",
      [("detection", .int intType), ("on_demand", .int intType),
        ("on_demand_progress", .int intType), ("quarantine", .int intType),
        ("real_time_prot", .int intType), ("av_update", .int intType)])]

/-- The union of the header. -/
def rpcUnions : List (String × List UnionMember) :=
  [("a6o_event_union",
      [⟨"ev_detection", .struct "a6o_detection_event", A6oEventType.detection.mask⟩,
        ⟨"ev_on_demand_start", .struct "a6o_on_demand_start_event",
          A6oEventType.onDemandStart.mask⟩,
        ⟨"ev_on_demand_completed", .struct "a6o_on_demand_completed_event",
          A6oEventType.onDemandCompleted.mask⟩,
        ⟨"ev_on_demand_progress", .struct "a6o_on_demand_progress_event",
          A6oEventType.onDemandProgress.mask⟩,
        ⟨"ev_quarantine", .struct "a6o_quarantine_event", A6oEventType.quarantine.mask⟩,
        ⟨"ev_real_time_prot", .struct "a6o_real_time_prot_event",
          A6oEventType.realTimeProt.mask⟩,
        ⟨"ev_av_update", .struct "a6o_av_update_event", A6oEventType.avUpdate.mask⟩])]

/-- `rpcdefs.h`. -/
def rpcDefs : Decls := ⟨rpcEnums, rpcStructs, rpcUnions⟩

theorem rpcDefs_wellFormed : rpcDefs.WellFormed := .of_forall (by decide) (by decide)

/-! ## The structures in memory -/

/-- `struct a6o_detection_event`. -/
def detectionEventValue (ev : A6oDetectionEvent) : Value :=
  .struct [("context", .int ev.context.value), ("scan_id", .int ev.scanId.toInt),
    ("path", .string ev.path), ("scan_status", .int ev.scanStatus.value),
    ("scan_action", .int ev.scanAction), ("module_name", .string ev.moduleName),
    ("module_report", .string ev.moduleReport)]

/-- `struct a6o_on_demand_start_event`. -/
def onDemandStartEventValue (ev : A6oOnDemandStartEvent) : Value :=
  .struct [("root_path", .string ev.rootPath), ("scan_id", .int ev.scanId.toInt)]

/-- `struct a6o_on_demand_completed_event`. -/
def onDemandCompletedEventValue (ev : A6oOnDemandCompletedEvent) : Value :=
  .struct [("scan_id", .int ev.scanId.toInt), ("cancelled", .int ev.cancelled.toInt),
    ("total_malware_count", .int ev.totalMalwareCount.toNat),
    ("total_suspicious_count", .int ev.totalSuspiciousCount.toNat),
    ("total_scanned_count", .int ev.totalScannedCount.toNat),
    ("duration", .int ev.duration.toInt)]

/-- `struct a6o_on_demand_progress_event`. -/
def onDemandProgressEventValue (ev : A6oOnDemandProgressEvent) : Value :=
  .struct [("scan_id", .int ev.scanId.toInt), ("progress", .int ev.progress.toInt),
    ("path", .string ev.path), ("malware_count", .int ev.malwareCount.toNat),
    ("suspicious_count", .int ev.suspiciousCount.toNat),
    ("scanned_count", .int ev.scannedCount.toNat)]

/-- `struct a6o_quarantine_event`. -/
def quarantineEventValue (ev : A6oQuarantineEvent) : Value :=
  .struct [("quarantine_action", .int ev.quarantineAction.value),
    ("orig_path", .string ev.origPath), ("quarantine_path", .string ev.quarantinePath)]

/-- `struct a6o_real_time_prot_event`. -/
def realTimeProtEventValue (ev : A6oRealTimeProtEvent) : Value :=
  .struct [("rt_prot_new_state", .int ev.rtProtNewState.toInt)]

/-- The member of the union. -/
def memberValue : A6oEventUnion → Value
  | .evDetection ev => detectionEventValue ev
  | .evOnDemandStart ev => onDemandStartEventValue ev
  | .evOnDemandCompleted ev => onDemandCompletedEventValue ev
  | .evOnDemandProgress ev => onDemandProgressEventValue ev
  | .evQuarantine ev => quarantineEventValue ev
  | .evRealTimeProt ev => realTimeProtEventValue ev

/-- The member of the union that goes with the type, and its structure. -/
def eventMember : A6oEventType → String × String
  | .detection => ("ev_detection", "a6o_detection_event")
  | .onDemandStart => ("ev_on_demand_start", "a6o_on_demand_start_event")
  | .onDemandCompleted => ("ev_on_demand_completed", "a6o_on_demand_completed_event")
  | .onDemandProgress => ("ev_on_demand_progress", "a6o_on_demand_progress_event")
  | .quarantine => ("ev_quarantine", "a6o_quarantine_event")
  | .realTimeProt => ("ev_real_time_prot", "a6o_real_time_prot_event")
  | .avUpdate => ("ev_av_update", "a6o_av_update_event")

/-- `struct a6o_event`. -/
def eventValue (e : EventNew.A6oEvent) : Value :=
  .struct [("timestamp", .int e.timestamp.toInt), ("type", .int e.type.mask),
    ("u", .union (eventMember e.type).1 (memberValue e.u))]

end Armadito.Rpc
