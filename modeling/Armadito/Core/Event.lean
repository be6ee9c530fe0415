import Armadito.Base

/-!
# Core.Event

`event.c`: the events the daemon fires and the list of callbacks they are
given to. Of the contents of an event only the scan id is read by the
callbacks.
-/

namespace Armadito.Core

/-- `enum a6o_event_type`. -/
inductive A6oEventType where
  | detection
  | onDemandStart
  | onDemandCompleted
  | onDemandProgress
  | quarantine
  | realTimeProt
  | avUpdate
  deriving DecidableEq, Repr

/-- The value of the enumerator, one bit. -/
def A6oEventType.mask : A6oEventType → Nat
  | .detection => 1 <<< 0
  | .onDemandStart => 1 <<< 1
  | .onDemandCompleted => 1 <<< 2
  | .onDemandProgress => 1 <<< 3
  | .quarantine => 1 <<< 4
  | .realTimeProt => 1 <<< 5
  | .avUpdate => 1 <<< 6

/-- An event as far as the callbacks look at it. -/
structure A6oEvent where
  type : A6oEventType
  /-- the `scan_id` of the union member, where it has one -/
  scanId : Int
  deriving DecidableEq, Repr

/-- `struct callback_entry`; `cb` is the callback with its data. -/
structure CallbackEntry (κ : Type) where
  mask : Nat
  cb : κ
  deriving DecidableEq, Repr

variable {κ : Type}

/-- `a6o_event_source_add_cb`: the last one added comes first. -/
def a6oEventSourceAddCb (callbacks : List (CallbackEntry κ)) (evMask : Nat) (cb : κ) :
    List (CallbackEntry κ) :=
  ⟨evMask, cb⟩ :: callbacks

/-- The mask of the callback has the bit of the type. -/
def CallbackEntry.accepts (p : CallbackEntry κ) (type : A6oEventType) : Bool :=
  p.mask &&& type.mask != 0

/-- The callbacks `a6o_event_source_fire_event` runs, in order. -/
def firedCallbacks (callbacks : List (CallbackEntry κ)) (type : A6oEventType) : List κ :=
  (callbacks.filter fun p => p.accepts type).map fun p => p.cb

theorem mem_firedCallbacks {callbacks : List (CallbackEntry κ)} {type : A6oEventType}
    {cb : κ} :
    cb ∈ firedCallbacks callbacks type ↔
      ∃ mask, ⟨mask, cb⟩ ∈ callbacks ∧ mask &&& type.mask ≠ 0 := by
  rw [firedCallbacks, List.mem_map]
  constructor
  · rintro ⟨p, hp, heq⟩
    obtain ⟨hmem, hmask⟩ := List.mem_filter.mp hp
    refine ⟨p.mask, ?_, by simpa [CallbackEntry.accepts] using hmask⟩
    rw [← heq]
    exact hmem
  · rintro ⟨mask, hmem, hmask⟩
    refine ⟨⟨mask, cb⟩, List.mem_filter.mpr ⟨hmem, ?_⟩, rfl⟩
    simpa [CallbackEntry.accepts] using hmask

end Armadito.Core
