import Mathlib.Tactic.MkIffOfInductiveProp
import Armadito.Jrpc.SchemaRoundTrip
import Armadito.Rpc.RpcDefs

/-!
# Rpc.EventWire

Events on the wire. `event.h`, `rpcdefs.h` and the table of actions describe
the same data three times and do not agree: a scan id is a `time_t` in the
structures and an `unsigned int` in their description, and an action is a
mask of bits there and one enumerator here.
-/

namespace Armadito.Rpc

open Armadito.Core Armadito.Core.EventNew Armadito.Jrpc Armadito.Jrpc.Schema

/-- One of the actions, not several. -/
def DeclaredAction (action : A6oAction) : Prop :=
  action ∈ [a6oActionNone, a6oActionAlert, a6oActionQuarantine, a6oActionRemove]

instance (action : A6oAction) : Decidable (DeclaredAction action) :=
  inferInstanceAs (Decidable (action ∈ [_, _, _, _]))

/-! ## When an event has its declared type -/

section Typed

variable {leaves : Leaves} {structTyped : String → Value → Prop}
  {before : List (String × Value)} {n : Nat}

@[simp] theorem context_typed (context : A6oDetectionContext) :
    FieldTyped rpcDefs leaves structTyped before (.enum "a6o_detection_context")
      (.int context.value) := by
  rw [fieldTyped_enum rfl]
  cases context <;> decide

@[simp] theorem fileStatus_typed (status : A6oFileStatus) :
    FieldTyped rpcDefs leaves structTyped before (.enum "a6o_file_status")
      (.int status.value) := by
  rw [fieldTyped_enum rfl]
  cases status <;> decide

@[simp] theorem quarantineAction_typed (action : A6oQuarantineAction) :
    FieldTyped rpcDefs leaves structTyped before (.enum "a6o_quarantine_action")
      (.int action.value) := by
  rw [fieldTyped_enum rfl]
  cases action <;> decide

@[simp] theorem eventType_typed (type : A6oEventType) :
    FieldTyped rpcDefs leaves structTyped before (.enum "a6o_event_type")
      (.int type.mask) := by
  rw [fieldTyped_enum rfl]
  cases type <;> decide

theorem mem_actions_iff {action : A6oAction} {values : List (String × Int)}
    (hdecl : rpcDefs.enums.lookup "a6o_action" = some values) :
    (action : Int) ∈ values.map Prod.snd ↔ DeclaredAction action := by
  cases hdecl
  simp only [DeclaredAction, List.map_cons, List.map_nil, List.mem_cons, List.not_mem_nil,
    or_false, Int.natCast_inj]

@[simp] theorem scanAction_typed_iff {action : A6oAction} :
    FieldTyped rpcDefs leaves structTyped before (.enum "a6o_action") (.int action) ↔
      DeclaredAction action := by
  rw [fieldTyped_enum rfl, mem_actions_iff rfl]

/-- What is asked of the fields that may not fit their declaration. -/
@[mk_iff]
structure FieldsFit (leaves : Leaves) (ev : A6oEventUnion) : Prop where
  scanId : ∀ id ∈ ev.scanId, leaves.int unsignedIntType id.toInt
  scanAction : ∀ action ∈ ev.scanAction, DeclaredAction action
  strings : ∀ s ∈ ev.strings, ∃ text, s = some text ∧ leaves.string text
  counters : ∀ c ∈ ev.counters, leaves.int sizeType c.toNat

theorem eventUnion_find (type : A6oEventType) :
    ∃ members, rpcDefs.unions.lookup "a6o_event_union" = some members ∧
      members.find? (fun m => m.tagValue = castInt 32 type.mask) =
        some ⟨(eventMember type).1, .struct (eventMember type).2, type.mask⟩ := by
  refine ⟨_, rfl, ?_⟩
  cases type <;> decide

theorem eventUnion_typed_iff {t : Int} {type : A6oEventType} {value : Value} :
    FieldTyped rpcDefs leaves structTyped [("timestamp", .int t), ("type", .int type.mask)]
        (.union "a6o_event_union" "type") (.union (eventMember type).1 value) ↔
      structTyped (eventMember type).2 value := by
  obtain ⟨members, hdecl, hfind⟩ := eventUnion_find type
  exact fieldTyped_union (m := ⟨(eventMember type).1, .struct (eventMember type).2, type.mask⟩)
    hdecl rfl hfind

variable (hint : ∀ i : Int32, leaves.int intType i.toInt)
  (htime : ∀ t : Int64, leaves.int timeType t.toInt)

include hint htime in
theorem member_structTyped_iff (u : A6oEventUnion) :
    StructTyped rpcDefs leaves (n + 1) (eventMember u.type).2 (memberValue u) ↔
      FieldsFit leaves u := by
  rw [fieldsFit_iff]
  cases u with
  | evDetection ev =>
    refine (structTyped_succ rfl).trans ?_
    simp [A6oEventUnion.scanId, A6oEventUnion.scanAction, A6oEventUnion.strings,
      A6oEventUnion.counters]
    tauto
  | evOnDemandStart ev =>
    refine (structTyped_succ rfl).trans ?_
    simp [A6oEventUnion.scanId, A6oEventUnion.scanAction, A6oEventUnion.strings,
      A6oEventUnion.counters]
    tauto
  | evOnDemandCompleted ev =>
    refine (structTyped_succ rfl).trans ?_
    simp [A6oEventUnion.scanId, A6oEventUnion.scanAction, A6oEventUnion.strings,
      A6oEventUnion.counters, hint, htime]
  | evOnDemandProgress ev =>
    refine (structTyped_succ rfl).trans ?_
    simp [A6oEventUnion.scanId, A6oEventUnion.scanAction, A6oEventUnion.strings,
      A6oEventUnion.counters, hint]
  | evQuarantine ev =>
    refine (structTyped_succ rfl).trans ?_
    simp [A6oEventUnion.scanId, A6oEventUnion.scanAction, A6oEventUnion.strings,
      A6oEventUnion.counters]
  | evRealTimeProt ev =>
    refine (structTyped_succ rfl).trans ?_
    simp [A6oEventUnion.scanId, A6oEventUnion.scanAction, A6oEventUnion.strings,
      A6oEventUnion.counters, hint]

include hint htime in
theorem event_structTyped_iff (e : EventNew.A6oEvent) :
    StructTyped rpcDefs leaves (n + 2) "a6o_event" (eventValue e) ↔ FieldsFit leaves e.u := by
  rw [eventValue, structTyped_succ rfl]
  simp [htime, eventUnion_typed_iff, EventNew.A6oEvent.type, member_structTyped_iff hint htime]

include hint htime in
theorem event_typed_iff (e : EventNew.A6oEvent) :
    Typed rpcDefs leaves "a6o_event" (eventValue e) ↔ FieldsFit leaves e.u := by
  constructor
  · rintro ⟨n, h⟩
    exact (event_structTyped_iff hint htime e).mp h.succ.succ
  · intro h
    exact ⟨2, (event_structTyped_iff (n := 0) hint htime e).mpr h⟩

end Typed

/-! ## Which events are sent -/

/-- `JRPC_STRUCT2JSON(a6o_event, ev, &j_ev)` succeeds. -/
def marshalled (e : EventNew.A6oEvent) : Bool :=
  match jrpcMarshallStruct rpcDefs 2 "a6o_event" (eventValue e) with
  | .ok _ => true
  | .error _ => false

theorem marshalled_eq_true {e : EventNew.A6oEvent} :
    marshalled e = true ↔ ∃ j, jrpcMarshallStruct rpcDefs 2 "a6o_event" (eventValue e) = .ok j := by
  rw [marshalled]
  cases jrpcMarshallStruct rpcDefs 2 "a6o_event" (eventValue e) with
  | ok j => simp
  | error stop => simp

theorem declaredAction_of_marshalled {e : EventNew.A6oEvent} (h : marshalled e = true) :
    ∀ action ∈ e.u.scanAction, DeclaredAction action := by
  obtain ⟨j, hj⟩ := marshalled_eq_true.mp h
  obtain ⟨t, u⟩ := e
  cases u with
  | evDetection ev =>
    rintro action haction
    cases haction
    -- down to the field: the event, its union, the detection in it, the action in that
    obtain ⟨value, ju, hlookup, hu⟩ := jrpcMarshallStruct_mem rfl hj
      ("u", .union "a6o_event_union" "type") (by simp)
    cases hlookup
    obtain ⟨members, hdecl, hfind⟩ := eventUnion_find .detection
    obtain ⟨jd, hjd⟩ := structMember_marshalled hdecl rfl hfind hu
    obtain ⟨value, ja, hlookup, ha⟩ := jrpcMarshallStruct_mem rfl hjd
      ("scan_action", .enum "a6o_action") (by simp)
    cases hlookup
    obtain ⟨jaction, hjaction, -⟩ := bind_eq_ok.mp ha
    exact (mem_actions_iff rfl).mp ((jrpcMarshallEnum_eq_ok_iff rfl).mp ⟨jaction, hjaction⟩)
  | evOnDemandStart ev => exact fun _ h => absurd h (by simp [A6oEventUnion.scanAction])
  | evOnDemandCompleted ev => exact fun _ h => absurd h (by simp [A6oEventUnion.scanAction])
  | evOnDemandProgress ev => exact fun _ h => absurd h (by simp [A6oEventUnion.scanAction])
  | evQuarantine ev => exact fun _ h => absurd h (by simp [A6oEventUnion.scanAction])
  | evRealTimeProt ev => exact fun _ h => absurd h (by simp [A6oEventUnion.scanAction])

/-- Nothing is asked of the leaves. -/
def anyLeaves : Leaves := ⟨fun _ => True, fun _ _ => True, True, True⟩

/-- **An event is sent exactly when its action is one action.** -/
theorem marshalled_iff {now : Int64} {ev : A6oEventUnion} {e : EventNew.A6oEvent}
    (hnew : a6oEventNew now ev = .ok e) :
    marshalled e = true ↔ ∀ action ∈ ev.scanAction, DeclaredAction action := by
  obtain ⟨hstrings, rfl⟩ := a6oEventNew_eq_ok.mp hnew
  constructor
  · exact declaredAction_of_marshalled
  · intro haction
    have hfit : FieldsFit anyLeaves ev := by
      refine ⟨fun _ _ => trivial, haction, fun s hs => ?_, fun _ _ => trivial⟩
      cases s with
      | none => exact absurd hs hstrings
      | some text => exact ⟨text, rfl, trivial⟩
    have htyped : StructTyped rpcDefs anyLeaves 2 "a6o_event"
        (eventValue { timestamp := now, u := ev }) :=
      (event_structTyped_iff (fun _ => trivial) (fun _ => trivial) _).mpr hfit
    exact marshalled_eq_true.mpr (htyped.marshalled rpcDefs_wellFormed)

/-! ## The round trip -/

theorem intType_cast (i : Int32) : intType.cast i.toInt = i.toInt :=
  IntType.cast_signed.mpr ⟨i.le_toInt, i.toInt_lt⟩

theorem timeType_cast (t : Int64) : timeType.cast t.toInt = t.toInt :=
  IntType.cast_signed.mpr ⟨t.le_toInt, t.toInt_lt⟩

theorem wireLeaves_int (i : Int32) : wireLeaves.int intType i.toInt := by
  have hlow := i.le_toInt
  have hhigh := i.toInt_lt
  exact ⟨intType_cast i, castInt_eq_self.mpr (by omega)⟩

theorem wireLeaves_time (t : Int64) : wireLeaves.int timeType t.toInt :=
  ⟨timeType_cast t, castInt_eq_self.mpr ⟨t.le_toInt, t.toInt_lt⟩⟩

theorem wireLeaves_size {c : UInt64} (h : c.toNat < 2 ^ 63) : wireLeaves.int sizeType c.toNat :=
  ⟨IntType.cast_unsigned.mpr (by omega), castInt_eq_self.mpr (by omega)⟩

theorem wireLeaves_scanId {id : Int64} :
    wireLeaves.int unsignedIntType id.toInt ↔ 0 ≤ id.toInt ∧ id.toInt < 2 ^ 32 := by
  constructor
  · intro h
    exact IntType.cast_unsigned.mp h.1
  · intro h
    exact ⟨IntType.cast_unsigned.mpr h, castInt_eq_self.mpr (by omega)⟩

/-- Whatever was sent, what is decoded has its declared type. -/
theorem fieldsFit_of_roundTrips {e : EventNew.A6oEvent}
    (h : RoundTrips rpcDefs "a6o_event" (eventValue e)) : FieldsFit decodedLeaves e.u := by
  have hiff : Typed rpcDefs decodedLeaves "a6o_event" (eventValue e) ↔
      FieldsFit decodedLeaves e.u := event_typed_iff intType_cast timeType_cast e
  exact hiff.mp h.decoded

/-- **An event arrives as it was made exactly when its scan id is an
`unsigned int` and its action is one action.** -/
theorem event_roundTrips_iff {now : Int64} {ev : A6oEventUnion} {e : EventNew.A6oEvent}
    (hnew : a6oEventNew now ev = .ok e)
    (hutf8 : ∀ text, some text ∈ ev.strings → utf8Valid text = true)
    (hcounters : ∀ c ∈ ev.counters, c.toNat < 2 ^ 63) :
    RoundTrips rpcDefs "a6o_event" (eventValue e) ↔
      (∀ id ∈ ev.scanId, 0 ≤ id.toInt ∧ id.toInt < 2 ^ 32) ∧
        ∀ action ∈ ev.scanAction, DeclaredAction action := by
  obtain ⟨hstrings, rfl⟩ := a6oEventNew_eq_ok.mp hnew
  constructor
  · intro h
    have hfit := fieldsFit_of_roundTrips h
    exact ⟨fun id hid => IntType.cast_unsigned.mp (hfit.scanId id hid), hfit.scanAction⟩
  · rintro ⟨hid, haction⟩
    have hfit : FieldsFit sentLeaves ev := by
      constructor
      case scanId => exact fun id h => wireLeaves_scanId.mpr (hid id h)
      case scanAction => exact haction
      case strings =>
        intro s hs
        cases s with
        | none => exact absurd hs hstrings
        | some text => exact ⟨text, rfl, hutf8 text hs⟩
      case counters => exact fun c hc => wireLeaves_size (hcounters c hc)
    have hiff : Typed rpcDefs sentLeaves "a6o_event"
        (eventValue { timestamp := now, u := ev }) ↔ FieldsFit sentLeaves ev := by
      apply event_typed_iff
      · exact wireLeaves_int
      · exact wireLeaves_time
    obtain ⟨n, hsent⟩ := hiff.mpr hfit
    exact (hsent.roundTripsAt rpcDefs_wellFormed sentLeaves_travels).roundTrips

/-- A detection in the course of an on-demand scan. -/
def eicarDetection (scanId : Int64) (scanAction : A6oAction) : A6oDetectionEvent :=
  { context := .onDemand
    scanId
    path := some "/tmp/eicar.com".toList
    scanStatus := .malware
    scanAction
    moduleName := some "clamav".toList
    moduleReport := some "Eicar-Test-Signature".toList }

theorem eicarDetection_new (now : Int64) (scanId : Int64) (scanAction : A6oAction) :
    a6oEventNew now (.evDetection (eicarDetection scanId scanAction)) =
      .ok { timestamp := now, u := .evDetection (eicarDetection scanId scanAction) } := rfl

theorem eicarDetection_utf8 {scanId : Int64} {scanAction : A6oAction} (text : CString)
    (h : some text ∈ (A6oEventUnion.evDetection (eicarDetection scanId scanAction)).strings) :
    utf8Valid text = true := by
  simp only [A6oEventUnion.strings, eicarDetection, List.mem_cons, Option.some.injEq,
    List.not_mem_nil, or_false] at h
  rcases h with rfl | rfl | rfl
  · simp [utf8Valid]
  · simp [utf8Valid]
  · simp [utf8Valid]

theorem quarantined_detection_roundTrips :
    RoundTrips rpcDefs "a6o_event"
      (eventValue { timestamp := 7, u := .evDetection (eicarDetection 5 a6oActionQuarantine) }) :=
  (event_roundTrips_iff (eicarDetection_new 7 5 _) eicarDetection_utf8
    fun _ hc => absurd hc List.not_mem_nil).mpr
      ⟨fun id hid => by cases hid; decide, fun action haction => by cases haction; decide⟩

/-- An alert on a file that was put into quarantine. -/
def alertedDetection : A6oEventUnion :=
  .evDetection (eicarDetection 5 (a6oActionAlert ||| a6oActionQuarantine))

/-- A detection whose scan has an id of more than 32 bits. -/
def lateDetection : A6oEventUnion :=
  .evDetection (eicarDetection (2 ^ 32 + 5) a6oActionAlert)

/-- Two actions are not sent at all, and the scan id `2 ^ 32 + 5` arrives
as 5. -/
theorem alerted_late_not_roundTrips :
    (∀ ev ∈ [alertedDetection, lateDetection],
      a6oEventNew 7 ev = .ok { timestamp := 7, u := ev } ∧
      (∀ text, some text ∈ ev.strings → utf8Valid text = true) ∧ ev.counters = []) ∧
    ∀ ev ∈ [alertedDetection, lateDetection],
      ¬ RoundTrips rpcDefs "a6o_event" (eventValue { timestamp := 7, u := ev }) := by
  refine ⟨List.forall_mem_cons.mpr ⟨⟨rfl, eicarDetection_utf8, rfl⟩,
    List.forall_mem_singleton.mpr ⟨rfl, eicarDetection_utf8, rfl⟩⟩,
    List.forall_mem_cons.mpr ⟨?_, List.forall_mem_singleton.mpr ?_⟩⟩
  · intro h
    exact absurd ((fieldsFit_of_roundTrips h).scanAction _ rfl) (by decide)
  · intro h
    exact absurd (IntType.cast_unsigned.mp ((fieldsFit_of_roundTrips h).scanId _ rfl))
      (by decide)

end Armadito.Rpc
