import Armadito.Jrpc.SchemaDelivery
import Armadito.Rpc.InfoWire

/-!
# Rpc.InfoDelivery

A status report whose strings may be NULL or any bytes. It is always sent. A
NULL string is left out of its object like a text that is not UTF-8, so the
report arrives when all its strings are text and is refused otherwise.
-/

namespace Armadito.Rpc

open Armadito.Jrpc Armadito.Jrpc.Schema
open Armadito.Core (A6oUpdateStatus A6oBaseInfo A6oModuleInfo A6oInfo)

/-! ## The type of a report -/

section Typed

variable {leaves : Leaves} {structTyped : String → Value → Prop}
  {before : List (String × Value)} {n : Nat}

theorem updateStatus_declared (status : A6oUpdateStatus) :
    FieldTyped rpcDefs leaves structTyped before (.enum "a6o_update_status")
      (.int (updateStatusValue status)) := by
  rw [fieldTyped_enum rfl]
  cases status <;> decide

theorem ptrArray_typed_iff {α : Type} {value : α → Value} {s : String}
    {elems : Option (List α)} :
    FieldTyped rpcDefs leaves structTyped before (.ptrArray s) (ptrArrayValue value elems) ↔
      ∀ elem ∈ elems.getD [], structTyped s (value elem) := by
  cases elems with
  | none => simp [FieldTyped, ptrArrayValue]
  | some elems => simp [FieldTyped, ptrArrayValue]

variable (htime : ∀ t : Int64, leaves.int timeType t.toInt)
  (hsize : ∀ c : UInt64, leaves.int sizeType c.toNat)

/-- Each of the strings is there and is a leaf. -/
def AllLeaves (leaves : Leaves) (strings : List (Option CString)) : Prop :=
  ∀ s ∈ strings, ∃ text, s = some text ∧ leaves.string text

include htime hsize in
theorem baseInfo_structTyped_iff (base : A6oBaseInfo) :
    StructTyped rpcDefs leaves (n + 1) "a6o_base_info" (baseInfoValue base) ↔
      AllLeaves leaves base.strings := by
  refine (structTyped_succ rfl).trans ?_
  simp [AllLeaves, A6oBaseInfo.strings, htime, hsize]

include htime hsize in
theorem moduleInfo_structTyped_iff (mod : A6oModuleInfo) :
    StructTyped rpcDefs leaves (n + 2) "a6o_module_info" (moduleInfoValue mod) ↔
      AllLeaves leaves mod.strings := by
  refine (structTyped_succ rfl).trans ?_
  simp only [fieldsTyped_cons, fieldTyped_string, fieldTyped_int, fieldsTyped_nil, and_true,
    updateStatus_declared, htime, true_and, ptrArray_typed_iff,
    baseInfo_structTyped_iff htime hsize, AllLeaves, A6oModuleInfo.strings,
    List.forall_mem_cons, List.forall_mem_flatMap]

include htime hsize in
theorem info_structTyped_iff (info : A6oInfo) :
    StructTyped rpcDefs leaves (n + 3) "a6o_info" (infoValue info) ↔
      AllLeaves leaves info.strings := by
  refine (structTyped_succ rfl).trans ?_
  simp only [fieldsTyped_cons, fieldTyped_string, fieldTyped_int, fieldsTyped_nil, and_true,
    updateStatus_declared, htime, true_and, ptrArray_typed_iff,
    moduleInfo_structTyped_iff htime hsize, AllLeaves, A6oInfo.strings,
    List.forall_mem_cons, List.forall_mem_flatMap]

end Typed

/-! ## NULL strings -/

/-- A text that is not UTF-8 for a NULL string. -/
def fillString (s : Option CString) : Option CString := some (s.getD ['\xFF'])

/-- The base without NULL strings. -/
def fillBase (base : A6oBaseInfo) : A6oBaseInfo :=
  { base with
    name := fillString base.name
    version := fillString base.version
    fullPath := fillString base.fullPath }

/-- The module without NULL strings. -/
def fillModule (mod : A6oModuleInfo) : A6oModuleInfo :=
  { mod with
    name := fillString mod.name
    baseInfos := mod.baseInfos.map fun bases => bases.map fillBase }

/-- The report without NULL strings. -/
def fillInfo (info : A6oInfo) : A6oInfo :=
  { info with
    antivirusVersion := fillString info.antivirusVersion
    moduleInfos := info.moduleInfos.map fun mods => mods.map fillModule }

theorem jsonString_fillString (s : Option CString) : jsonString (fillString s) = jsonString s := by
  cases s with
  | none =>
    have hbyte : utf8Valid ['\xFF'] = false := by decide
    simp [fillString, jsonString, hbyte]
  | some text => rfl

theorem sentField_string {f : String → Value → Except Stop Json}
    {members members' : List (String × Value)} {name : String} {s : Option CString}
    (h : members.lookup name = some (.string (fillString s)))
    (h' : members'.lookup name = some (.string s)) :
    sentField rpcDefs f members (name, .string) = sentField rpcDefs f members' (name, .string) := by
  rw [sentField, sentField, h, h']
  exact congrArg Except.ok (jsonString_fillString s)

theorem mapM_fill {α : Type} {value : α → Value} {fill : α → α}
    {f : Value → Except Stop Json} (h : ∀ a, f (value (fill a)) = f (value a)) (elems : List α) :
    (elems.map fun a => value (fill a)).mapM f = (elems.map value).mapM f := by
  induction elems with
  | nil => rfl
  | cons elem elems ih => simp only [List.map_cons, List.mapM_cons, h, ih]

theorem sentField_ptrArray {f : String → Value → Except Stop Json}
    {members members' : List (String × Value)} {name s : String} {α : Type} {value : α → Value}
    {fill : α → α} {elems : Option (List α)} (hfill : ∀ a, f s (value (fill a)) = f s (value a))
    (h : members.lookup name = some (ptrArrayValue value (elems.map (List.map fill))))
    (h' : members'.lookup name = some (ptrArrayValue value elems)) :
    sentField rpcDefs f members (name, .ptrArray s)
      = sentField rpcDefs f members' (name, .ptrArray s) := by
  rw [sentField, sentField, h, h']
  cases elems with
  | none => rfl
  | some elems =>
    have hmap := mapM_fill (f := f s) hfill elems
    simp only [ptrArrayValue, Option.map_some, List.map_map]
    exact congrArg (· >>= fun js => pure (some (Json.array js))) hmap

theorem marshall_baseInfo_fill (m : Nat) (base : A6oBaseInfo) :
    jrpcMarshallStruct rpcDefs m "a6o_base_info" (baseInfoValue (fillBase base))
      = jrpcMarshallStruct rpcDefs m "a6o_base_info" (baseInfoValue base) := by
  cases m with
  | zero => rfl
  | succ m =>
    refine marshallStruct_congr rfl ?_
    simp only [List.forall_mem_cons]
    exact ⟨sentField_string rfl rfl, rfl, sentField_string rfl rfl, rfl,
      sentField_string rfl rfl, List.forall_mem_nil _⟩

theorem marshall_moduleInfo_fill (m : Nat) (mod : A6oModuleInfo) :
    jrpcMarshallStruct rpcDefs m "a6o_module_info" (moduleInfoValue (fillModule mod))
      = jrpcMarshallStruct rpcDefs m "a6o_module_info" (moduleInfoValue mod) := by
  cases m with
  | zero => rfl
  | succ m =>
    refine marshallStruct_congr rfl ?_
    simp only [List.forall_mem_cons]
    exact ⟨sentField_string rfl rfl, rfl, rfl,
      sentField_ptrArray (marshall_baseInfo_fill m) rfl rfl, List.forall_mem_nil _⟩

theorem marshall_info_fill (m : Nat) (info : A6oInfo) :
    jrpcMarshallStruct rpcDefs m "a6o_info" (infoValue (fillInfo info))
      = jrpcMarshallStruct rpcDefs m "a6o_info" (infoValue info) := by
  cases m with
  | zero => rfl
  | succ m =>
    refine marshallStruct_congr rfl ?_
    simp only [List.forall_mem_cons]
    exact ⟨sentField_string rfl rfl, rfl, rfl,
      sentField_ptrArray (marshall_moduleInfo_fill m) rfl rfl, List.forall_mem_nil _⟩

/-! ## What arrives -/

theorem fill_strings {info : A6oInfo} :
    (fillInfo info).strings = info.strings.map fillString := by
  have hbase : ∀ base : A6oBaseInfo, (fillBase base).strings = base.strings.map fillString :=
    fun _ => rfl
  have hmod : ∀ mod : A6oModuleInfo, (fillModule mod).strings = mod.strings.map fillString := by
    intro mod
    obtain ⟨name, status, ts, bases⟩ := mod
    cases bases with
    | none => rfl
    | some bases =>
      simp [fillModule, A6oModuleInfo.strings, List.flatMap_map, List.map_flatMap, hbase]
  obtain ⟨version, status, ts, mods⟩ := info
  cases mods with
  | none => rfl
  | some mods =>
    simp [fillInfo, A6oInfo.strings, List.flatMap_map, List.map_flatMap, hmod]

theorem allText_fill {strings : List (Option CString)} :
    AllText (strings.map fillString) ↔ AllText strings := by
  simp only [AllText, List.forall_mem_map]
  refine forall₂_congr fun s _ => ?_
  cases s with
  | none => simp [fillString, utf8Valid]
  | some text => rfl

theorem fillString_of_allText {s : Option CString}
    (h : ∃ text, s = some text ∧ utf8Valid text = true) : fillString s = s := by
  obtain ⟨text, rfl, -⟩ := h
  rfl

theorem map_fill_of_forall {α : Type} {fill : α → α} {elems : Option (List α)}
    (h : ∀ elem ∈ elems.getD [], fill elem = elem) :
    (elems.map fun elems => elems.map fill) = elems := by
  cases elems with
  | none => rfl
  | some elems =>
    exact congrArg some ((List.map_congr_left h).trans (List.map_id'' (fun _ => rfl) _))

/-- There is nothing to fill. -/
theorem fill_of_allText {info : A6oInfo} (h : AllText info.strings) : fillInfo info = info := by
  have hbase : ∀ base : A6oBaseInfo, AllText base.strings → fillBase base = base := by
    intro base hbase
    simp only [AllText, A6oBaseInfo.strings, List.forall_mem_cons] at hbase
    obtain ⟨hname, hversion, hpath, -⟩ := hbase
    rw [fillBase, fillString_of_allText hname, fillString_of_allText hversion,
      fillString_of_allText hpath]
  have hmod : ∀ mod : A6oModuleInfo, AllText mod.strings → fillModule mod = mod := by
    intro mod hmod
    simp only [AllText, A6oModuleInfo.strings, List.forall_mem_cons, List.forall_mem_flatMap]
      at hmod
    rw [fillModule, fillString_of_allText hmod.1,
      map_fill_of_forall fun base h => hbase base (hmod.2 base h)]
  simp only [AllText, A6oInfo.strings, List.forall_mem_cons, List.forall_mem_flatMap] at h
  rw [fillInfo, fillString_of_allText h.1,
    map_fill_of_forall fun mod hm => hmod mod (h.2 mod hm)]

theorem byteLeaves_report_time (t : Int64) : byteLeaves.int timeType t.toInt :=
  reportLeaves_time t

theorem byteLeaves_report_size (c : UInt64) : byteLeaves.int sizeType c.toNat :=
  reportLeaves_size c

/-- A report is sent as an object. Who receives it gets the report when all
its strings are text, and misses a field otherwise. -/
theorem info_delivered (info : A6oInfo) :
    ∃ j, jsonTypeof j = .object ∧
      jrpcMarshallStruct rpcDefs 3 "a6o_info" (infoValue info) = .ok j ∧
      (AllText info.strings → jrpcUnmarshallStruct rpcDefs 3 "a6o_info" j = .ok (infoValue info)) ∧
      (¬ AllText info.strings → jrpcUnmarshallStruct rpcDefs 3 "a6o_info" j = .error missing) := by
  have hbytes : StructTyped rpcDefs byteLeaves 3 "a6o_info" (infoValue (fillInfo info)) := by
    refine (info_structTyped_iff byteLeaves_report_time byteLeaves_report_size _).mpr ?_
    rw [fill_strings]
    intro s hs
    obtain ⟨t, -, rfl⟩ := List.mem_map.mp hs
    exact ⟨_, rfl, trivial⟩
  have hutf8 : StructTyped rpcDefs utf8Leaves 3 "a6o_info" (infoValue (fillInfo info)) ↔
      AllText info.strings := by
    refine (info_structTyped_iff (fun _ => trivial) (fun _ => trivial) _).trans ?_
    rw [fill_strings]
    exact allText_fill
  obtain ⟨j, hobject, hsend, htext, hmissing⟩ := hbytes.received rpcDefs_wellFormed
  have hfuel : 3 ≥ 3 := Nat.le_refl 3
  refine ⟨j, hobject, (marshall_info_fill 3 info).symm.trans (hsend 3 hfuel), fun h => ?_,
    fun h => hmissing (mt hutf8.mp h) 3 hfuel⟩
  have hok := htext (hutf8.mpr h) 3 hfuel
  rwa [fill_of_allText h] at hok

end Armadito.Rpc
