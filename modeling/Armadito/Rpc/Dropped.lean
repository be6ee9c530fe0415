import Armadito.Jrpc.SchemaComplete
import Armadito.Rpc.EventWire

/-!
# Rpc.Dropped

Fields that are left out of what the daemon sends. The path of a detection
is what the file system has, which need not be UTF-8; the detection is then
sent without it, and the receiver refuses it.
-/

namespace Armadito.Rpc

open Armadito.Core Armadito.Core.EventNew Armadito.Jrpc Armadito.Jrpc.Schema

/-- **Nothing is dropped from a structure of `rpcdefs.h` exactly when an enum
of it is undeclared or all its strings are text.** -/
theorem rpcDefs_nothingDropped_iff {s : String} {value : Value} (h : InMemory rpcDefs s value) :
    NothingDropped rpcDefs s value ↔
      ¬ EnumsDeclared rpcDefs s value ∨ StringsText rpcDefs s value :=
  h.nothingDropped_iff rpcDefs_wellFormed

/-! ## Events in memory -/

/-- What is asked of the action of a detection. -/
def ActionAsked (asked : Asked) (action : A6oAction) : Prop :=
  ∀ values, rpcDefs.enums.lookup "a6o_action" = some values → asked.enum values action

section Events

variable {asked : Asked} {structHolds : String → Value → Prop}
  {members : List (String × Value)} {n : Nat}
  (henum : ∀ values n, n ∈ values.map Prod.snd → asked.enum values n)

theorem scanAction_holds_iff {action : A6oAction} :
    FieldHolds rpcDefs asked structHolds members (.enum "a6o_action") (.int action) ↔
      ActionAsked asked action := by
  rw [fieldHolds_enum rfl]
  simp [ActionAsked, rpcDefs, rpcEnums, List.lookup_cons]

include henum

/-- A declared value of an enum. -/
theorem enum_holds {e : String} {n : Int}
    (h : FieldTyped rpcDefs wireLeaves (fun _ _ => False) [] (.enum e) (.int n)) :
    FieldHolds rpcDefs asked structHolds members (.enum e) (.int n) := by
  obtain ⟨values, n', hdecl, heq, hmem⟩ := h
  cases heq
  exact (fieldHolds_enum hdecl).mpr (henum values n hmem)

theorem context_holds (context : A6oDetectionContext) :
    FieldHolds rpcDefs asked structHolds members (.enum "a6o_detection_context")
      (.int context.value) :=
  enum_holds henum (context_typed context)

theorem fileStatus_holds (status : A6oFileStatus) :
    FieldHolds rpcDefs asked structHolds members (.enum "a6o_file_status")
      (.int status.value) :=
  enum_holds henum (fileStatus_typed status)

theorem quarantineAction_holds (action : A6oQuarantineAction) :
    FieldHolds rpcDefs asked structHolds members (.enum "a6o_quarantine_action")
      (.int action.value) :=
  enum_holds henum (quarantineAction_typed action)

theorem eventType_holds (type : A6oEventType) :
    FieldHolds rpcDefs asked structHolds members (.enum "a6o_event_type")
      (.int type.mask) :=
  enum_holds henum (eventType_typed type)

theorem member_structHolds_iff (u : A6oEventUnion) :
    StructHolds rpcDefs asked (n + 1) (eventMember u.type).2 (memberValue u) ↔
      (∀ action ∈ u.scanAction, ActionAsked asked action) ∧
        ∀ s ∈ u.strings, asked.string s := by
  cases u with
  | evDetection ev =>
    refine (structHolds_succ rfl).trans ?_
    simp [A6oEventUnion.scanAction, A6oEventUnion.strings, context_holds henum,
      fileStatus_holds henum, scanAction_holds_iff, List.lookup_cons]
    tauto
  | evOnDemandStart ev =>
    refine (structHolds_succ rfl).trans ?_
    simp [A6oEventUnion.scanAction, A6oEventUnion.strings, List.lookup_cons]
  | evOnDemandCompleted ev =>
    refine (structHolds_succ rfl).trans ?_
    simp [A6oEventUnion.scanAction, A6oEventUnion.strings, List.lookup_cons]
  | evOnDemandProgress ev =>
    refine (structHolds_succ rfl).trans ?_
    simp [A6oEventUnion.scanAction, A6oEventUnion.strings, List.lookup_cons]
  | evQuarantine ev =>
    refine (structHolds_succ rfl).trans ?_
    simp [A6oEventUnion.scanAction, A6oEventUnion.strings, quarantineAction_holds henum,
      List.lookup_cons]
  | evRealTimeProt ev =>
    refine (structHolds_succ rfl).trans ?_
    simp [A6oEventUnion.scanAction, A6oEventUnion.strings, List.lookup_cons]

theorem event_structHolds_iff (e : EventNew.A6oEvent) :
    StructHolds rpcDefs asked (n + 2) "a6o_event" (eventValue e) ↔
      (∀ action ∈ e.u.scanAction, ActionAsked asked action) ∧
        ∀ s ∈ e.u.strings, asked.string s := by
  obtain ⟨choices, hdecl, hfind⟩ := eventUnion_find e.u.type
  have hunion : FieldHolds rpcDefs asked (StructHolds rpcDefs asked (n + 1))
      [("timestamp", .int e.timestamp.toInt), ("type", .int e.type.mask),
        ("u", .union (eventMember e.type).1 (memberValue e.u))]
      (.union "a6o_event_union" "type") (.union (eventMember e.type).1 (memberValue e.u)) ↔ _ :=
    (fieldHolds_union hdecl rfl hfind).trans (member_structHolds_iff henum e.u)
  rw [eventValue, structHolds_succ rfl]
  simp [List.lookup_cons, eventType_holds henum, hunion]

end Events

theorem event_inMemory_two (e : EventNew.A6oEvent) :
    StructHolds rpcDefs .nothing 2 "a6o_event" (eventValue e) :=
  (event_structHolds_iff (n := 0) (fun _ _ _ => trivial) e).mpr
    ⟨fun _ _ _ _ => trivial, fun _ _ => trivial⟩

theorem event_inMemory (e : EventNew.A6oEvent) : InMemory rpcDefs "a6o_event" (eventValue e) :=
  ⟨2, event_inMemory_two e⟩

theorem event_holds_iff {asked : Asked}
    (henum : ∀ values n, n ∈ values.map Prod.snd → asked.enum values n)
    (e : EventNew.A6oEvent) :
    Holds rpcDefs asked "a6o_event" (eventValue e) ↔
      (∀ action ∈ e.u.scanAction, ActionAsked asked action) ∧
        ∀ s ∈ e.u.strings, asked.string s := by
  rw [← event_structHolds_iff (n := 0) henum e]
  constructor
  · rintro ⟨n, h⟩
    exact (event_inMemory_two e).deepen h
  · intro h
    exact ⟨2, h⟩

theorem event_enumsDeclared_iff (e : EventNew.A6oEvent) :
    EnumsDeclared rpcDefs "a6o_event" (eventValue e) ↔
      ∀ action ∈ e.u.scanAction, DeclaredAction action := by
  refine (event_holds_iff (fun _ _ h => h) e).trans ?_
  simp only [Asked.declared, implies_true, and_true]
  refine forall₂_congr fun action _ => ⟨fun h => ?_, fun h values hdecl => ?_⟩
  · exact (mem_actions_iff rfl).mp (h _ rfl)
  · exact (mem_actions_iff hdecl).mpr h

theorem event_stringsText_iff (e : EventNew.A6oEvent) :
    StringsText rpcDefs "a6o_event" (eventValue e) ↔
      ∀ s ∈ e.u.strings, ∃ text, s = some text ∧ utf8Valid text = true := by
  refine (event_holds_iff (fun _ _ _ => trivial) e).trans ?_
  simp [ActionAsked, Asked.text]

/-- An event is sent with all its fields, or refused for its action, or loses
a string. -/
theorem event_nothingDropped_iff (e : EventNew.A6oEvent) :
    NothingDropped rpcDefs "a6o_event" (eventValue e) ↔
      ¬ (∀ action ∈ e.u.scanAction, DeclaredAction action) ∨
        ∀ s ∈ e.u.strings, ∃ text, s = some text ∧ utf8Valid text = true := by
  rw [(event_inMemory e).nothingDropped_iff rpcDefs_wellFormed, event_enumsDeclared_iff,
    event_stringsText_iff]

/-! ## A file with an odd name -/

/-- The detection of a file whose name is one byte, 255. -/
def oddNameDetection : A6oEventUnion :=
  .evDetection
    { context := .onDemand
      scanId := 5
      path := some ['/', Char.ofNat 255]
      scanStatus := .malware
      scanAction := a6oActionAlert
      moduleName := some ['m']
      moduleReport := some ['v'] }

theorem eicarDetection_nothingDropped :
    InMemory rpcDefs "a6o_event"
        (eventValue ⟨7, .evDetection (eicarDetection 5 a6oActionAlert)⟩) ∧
      NothingDropped rpcDefs "a6o_event"
        (eventValue ⟨7, .evDetection (eicarDetection 5 a6oActionAlert)⟩) := by
  refine ⟨event_inMemory _, (rpcDefs_nothingDropped_iff (event_inMemory _)).mpr (.inr ?_)⟩
  rw [event_stringsText_iff]
  simp [A6oEventUnion.strings, eicarDetection, utf8Valid]

/-- The event is sent, with a detection that has no path. -/
theorem oddNameDetection_dropped :
    InMemory rpcDefs "a6o_event" (eventValue ⟨7, oddNameDetection⟩) ∧
      (∀ n, jrpcMarshallStruct rpcDefs (n + 2) "a6o_event" (eventValue ⟨7, oddNameDetection⟩) =
        .ok (.object [("timestamp", .integer 7), ("type", .string "EVENT_DETECTION".toList),
          ("u", .object [("ev_detection", .object
            [("context", .string "CONTEXT_ON_DEMAND".toList), ("scan_id", .integer 5),
              ("scan_status", .string "A6O_FILE_MALWARE".toList),
              ("scan_action", .string "A6O_ACTION_ALERT".toList),
              ("module_name", .string ['m']), ("module_report", .string ['v'])])])])) ∧
      ¬ NothingDropped rpcDefs "a6o_event" (eventValue ⟨7, oddNameDetection⟩) := by
  refine ⟨event_inMemory _, fun _ => rfl, ?_⟩
  rw [event_nothingDropped_iff]
  simp [oddNameDetection, A6oEventUnion.strings, A6oEventUnion.scanAction, DeclaredAction,
    utf8Valid]

end Armadito.Rpc
