import Armadito.Core.Info
import Armadito.Rpc.EventWire

/-!
# Rpc.InfoWire

The status report on the wire: an array of modules, each with an array of
bases, every array NULL or with any number of elements. A signature count is
a `size_t` and travels as a signed integer; the conversion back restores it.
-/

namespace Armadito.Rpc

open Armadito.Jrpc Armadito.Jrpc.Schema
open Armadito.Core (A6oUpdateStatus A6oBaseInfo A6oModuleInfo A6oInfo)

/-- Non-NULL and valid UTF-8. -/
def AllText (strings : List (Option CString)) : Prop :=
  ∀ s ∈ strings, ∃ text, s = some text ∧ utf8Valid text = true

/-! ## The structures in memory -/

/-- The integer of a status. -/
def updateStatusValue : A6oUpdateStatus → Int
  | .ok => 0
  | .late => 1
  | .critical => 2
  | .nonAvailable => 3

/-- A NULL-terminated array of pointers, or NULL. -/
def ptrArrayValue {α : Type} (value : α → Value) : Option (List α) → Value
  | none => .nullArray
  | some elems => .array (elems.map value)

/-- `struct a6o_base_info`. -/
def baseInfoValue (base : A6oBaseInfo) : Value :=
  .struct [("name", .string base.name), ("base_update_ts", .int base.baseUpdateTs.toInt),
    ("version", .string base.version), ("signature_count", .int base.signatureCount.toNat),
    ("full_path", .string base.fullPath)]

/-- `struct a6o_module_info`. -/
def moduleInfoValue (mod : A6oModuleInfo) : Value :=
  .struct [("name", .string mod.name), ("mod_status", .int (updateStatusValue mod.modStatus)),
    ("mod_update_ts", .int mod.modUpdateTs.toInt),
    ("base_infos", ptrArrayValue baseInfoValue mod.baseInfos)]

/-- `struct a6o_info`. -/
def infoValue (info : A6oInfo) : Value :=
  .struct [("antivirus_version", .string info.antivirusVersion),
    ("global_status", .int (updateStatusValue info.globalStatus)),
    ("global_update_ts", .int info.globalUpdateTs.toInt),
    ("module_infos", ptrArrayValue moduleInfoValue info.moduleInfos)]

/-! ## Different reports have different values -/

theorem updateStatusValue_inj {a b : A6oUpdateStatus} :
    updateStatusValue a = updateStatusValue b ↔ a = b := by
  cases a <;> cases b <;> decide

theorem ptrArrayValue_inj {α : Type} {value : α → Value} (h : Function.Injective value) :
    Function.Injective (ptrArrayValue value) := by
  intro a b heq
  cases a with
  | none =>
    cases b with
    | none => rfl
    | some _ => cases heq
  | some as =>
    cases b with
    | none => cases heq
    | some bs => exact congrArg some (h.list_map (Value.array.inj heq))

theorem baseInfoValue_inj : Function.Injective baseInfoValue := by
  intro a b h
  obtain ⟨_, _, _, _, _⟩ := a
  obtain ⟨_, _, _, _, _⟩ := b
  simpa [baseInfoValue, Int64.toInt_inj, Int.natCast_inj, UInt64.toNat_inj] using h

theorem moduleInfoValue_inj : Function.Injective moduleInfoValue := by
  intro a b h
  obtain ⟨_, _, _, _⟩ := a
  obtain ⟨_, _, _, _⟩ := b
  simpa [moduleInfoValue, Int64.toInt_inj, updateStatusValue_inj,
    (ptrArrayValue_inj baseInfoValue_inj).eq_iff] using h

theorem infoValue_inj : Function.Injective infoValue := by
  intro a b h
  obtain ⟨_, _, _, _⟩ := a
  obtain ⟨_, _, _, _⟩ := b
  simpa [infoValue, Int64.toInt_inj, updateStatusValue_inj,
    (ptrArrayValue_inj moduleInfoValue_inj).eq_iff] using h

/-! ## A report has its declared type -/

/-- Of a report with text in its strings: the conversions of its integers
undo each other. -/
def reportLeaves : Leaves where
  string := fun s => utf8Valid s = true
  int := fun t n => t.cast (castInt 64 n) = n
  unionString := False
  unset := False

theorem reportLeaves_travels : reportLeaves.Travels where
  string := fun _ h => h
  int := fun _ _ h => h
  unionString := id
  unset := id

theorem reportLeaves_time (t : Int64) : reportLeaves.int timeType t.toInt := by
  have hwire := wireLeaves_time t
  show timeType.cast (castInt 64 t.toInt) = t.toInt
  rw [hwire.2, hwire.1]

/-- A count from `2 ^ 63` on is negative on the wire. -/
theorem reportLeaves_size (c : UInt64) : reportLeaves.int sizeType c.toNat := by
  have hlt : (c.toNat : Int) < 2 ^ 64 := by exact_mod_cast c.toNat_lt
  exact IntType.cast_castInt ⟨by omega, hlt⟩

section Typed

variable {structTyped : String → Value → Prop} {before : List (String × Value)} {n : Nat}

@[simp] theorem updateStatus_typed (status : A6oUpdateStatus) :
    FieldTyped rpcDefs reportLeaves structTyped before (.enum "a6o_update_status")
      (.int (updateStatusValue status)) := by
  rw [fieldTyped_enum rfl]
  cases status <;> decide

theorem ptrArray_typed {α : Type} {value : α → Value} {s : String} {elems : Option (List α)}
    (h : ∀ elem ∈ elems.getD [], structTyped s (value elem)) :
    FieldTyped rpcDefs reportLeaves structTyped before (.ptrArray s)
      (ptrArrayValue value elems) := by
  cases elems with
  | none => exact .inl rfl
  | some elems =>
    refine .inr ⟨_, rfl, fun v hv => ?_⟩
    obtain ⟨elem, helem, rfl⟩ := List.mem_map.mp hv
    exact h elem helem

theorem baseInfo_structTyped {base : A6oBaseInfo} (h : AllText base.strings) :
    StructTyped rpcDefs reportLeaves (n + 1) "a6o_base_info" (baseInfoValue base) := by
  simp only [AllText, A6oBaseInfo.strings, List.forall_mem_cons] at h
  obtain ⟨hname, hversion, hpath, -⟩ := h
  refine (structTyped_succ rfl).mpr ?_
  simp only [fieldsTyped_cons, fieldTyped_string, fieldTyped_int, fieldsTyped_nil, and_true]
  exact ⟨hname, reportLeaves_time _, hversion, reportLeaves_size _, hpath⟩

theorem moduleInfo_structTyped {mod : A6oModuleInfo} (h : AllText mod.strings) :
    StructTyped rpcDefs reportLeaves (n + 2) "a6o_module_info" (moduleInfoValue mod) := by
  simp only [AllText, A6oModuleInfo.strings, List.forall_mem_cons, List.forall_mem_flatMap] at h
  obtain ⟨hname, hbases⟩ := h
  refine (structTyped_succ rfl).mpr ?_
  simp only [fieldsTyped_cons, fieldTyped_string, fieldTyped_int, fieldsTyped_nil, and_true,
    updateStatus_typed, true_and]
  exact ⟨hname, reportLeaves_time _, ptrArray_typed fun base hbase =>
    baseInfo_structTyped (hbases base hbase)⟩

theorem info_structTyped {info : A6oInfo} (h : AllText info.strings) :
    StructTyped rpcDefs reportLeaves (n + 3) "a6o_info" (infoValue info) := by
  simp only [AllText, A6oInfo.strings, List.forall_mem_cons, List.forall_mem_flatMap] at h
  obtain ⟨hversion, hmodules⟩ := h
  refine (structTyped_succ rfl).mpr ?_
  simp only [fieldsTyped_cons, fieldTyped_string, fieldTyped_int, fieldsTyped_nil, and_true,
    updateStatus_typed, true_and]
  exact ⟨hversion, reportLeaves_time _, ptrArray_typed fun mod hmod =>
    moduleInfo_structTyped (hmodules mod hmod)⟩

end Typed

/-! ## The round trip -/

/-- **A status report arrives as it was made**, with the same arrays: from
some fuel on, it is sent, and what is received is this report and no other. -/
theorem info_roundTrip {info : A6oInfo} (h : AllText info.strings) :
    ∃ j n, ∀ m ≥ n, jrpcMarshallStruct rpcDefs m "a6o_info" (infoValue info) = .ok j ∧
      ∀ received, jrpcUnmarshallStruct rpcDefs m "a6o_info" j = .ok (infoValue received) ↔
        received = info := by
  obtain ⟨j, -, hj⟩ :=
    (info_structTyped (n := 0) h).roundTripsAt rpcDefs_wellFormed reportLeaves_travels
  refine ⟨j, 3, fun m hm => ⟨(hj m hm).1, fun received => ?_⟩⟩
  rw [(hj m hm).2, Except.ok.injEq, infoValue_inj.eq_iff, eq_comm]

/-- Two modules, one with two bases and one with none, and the largest count
of signatures. -/
def twoModules : A6oInfo where
  antivirusVersion := some ['1']
  globalStatus := .late
  globalUpdateTs := -1
  moduleInfos := some
    [{ name := some ['c']
       modStatus := .nonAvailable
       modUpdateTs := 69
       baseInfos := some [⟨some ['d'], 1, some ['v'], 18446744073709551615, some ['/', 'd']⟩,
         ⟨some [], 2, some ['v'], 0, some ['/']⟩] },
      { name := some ['m'], modStatus := .ok, modUpdateTs := 0, baseInfos := none }]

theorem twoModules_roundTrip :
    ∃ j n, ∀ m ≥ n, jrpcMarshallStruct rpcDefs m "a6o_info" (infoValue twoModules) = .ok j ∧
      ∀ received, jrpcUnmarshallStruct rpcDefs m "a6o_info" j = .ok (infoValue received) ↔
        received = twoModules := by
  apply info_roundTrip
  simp [AllText, twoModules, A6oInfo.strings, A6oModuleInfo.strings, A6oBaseInfo.strings,
    utf8Valid]

end Armadito.Rpc
