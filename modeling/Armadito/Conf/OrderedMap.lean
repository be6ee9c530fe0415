import Armadito.Conf.Api
import Armadito.Conf.Store

/-!
# Conf.OrderedMap

The configuration store as an ordered map of two levels: the names of the
sections in order, the keys of each section in order, and a value for some
pairs of both. Each of the eight mutators is one step of this map or
changes nothing, and the getters read it.
-/

namespace Armadito.ConfApi

open Conf NamedArray

/-! ## The ordered map -/

/-- Names in two levels, in the order they came in, with a value for some pairs. -/
structure OrderedMap (σ κ τ : Type*) where
  sects : List σ
  keys : σ → List κ
  value : σ → κ → Option τ

namespace OrderedMap

variable {σ κ τ : Type*} [DecidableEq σ] [DecidableEq κ]

/-- No section at all. -/
def empty : OrderedMap σ κ τ := ⟨[], fun _ => [], fun _ _ => none⟩

/-- A value stored under a key. -/
def store (m : OrderedMap σ κ τ) (sect : σ) (key : κ) (v : τ) : OrderedMap σ κ τ :=
  { m with value := fun s k => if s = sect ∧ k = key then some v else m.value s k }

/-- A key at the end of its section, and a new section at the end. -/
def append (m : OrderedMap σ κ τ) (sect : σ) (key : κ) : OrderedMap σ κ τ :=
  { m with
    sects := if sect ∈ m.sects then m.sects else m.sects ++ [sect]
    keys := fun s => if s = sect then m.keys s ++ [key] else m.keys s }

/-- A new key; `none` when it is there. -/
def add (m : OrderedMap σ κ τ) (sect : σ) (key : κ) (v : τ) : Option (OrderedMap σ κ τ) :=
  if (m.value sect key).isNone then some ((m.append sect key).store sect key v) else none

/-- Another value for a key; `none` when it is not there or its value is not
of the same kind. -/
def set (sameKind : τ → τ → Bool) (m : OrderedMap σ κ τ) (sect : σ) (key : κ) (v : τ) :
    Option (OrderedMap σ κ τ) :=
  if (m.value sect key).any fun old => sameKind old v then some (m.store sect key v) else none

end OrderedMap

/-! ## The store as a map -/

/-- The names of the keys of a section. -/
def keyNames (sections : List SectionEntry) (sect : Str) : List Str :=
  ((sectionEntryGet sections sect).map fun s => s.keys.map KeyEntryOf.key).getD []

/-- The map that a store stands for. -/
def toMap (conf : A6oConf) : OrderedMap Str Str A6oConfValue where
  sects := conf.sections.map SectionEntryOf.sect
  keys := keyNames conf.sections
  value := fun sect key => (keyEntryGet conf.sections sect key).map KeyEntryOf.value

theorem toMap_new : toMap a6oConfNew = OrderedMap.empty := rfl

theorem sects_withSection (sections : List SectionEntry) (sect : Str) :
    (withSection sections sect).map SectionEntryOf.sect =
      if sect ∈ sections.map SectionEntryOf.sect then sections.map SectionEntryOf.sect
      else sections.map SectionEntryOf.sect ++ [sect] := by
  rw [withSection, sectionEntryGet]
  by_cases hmem : sect ∈ sections.map SectionEntryOf.sect
  · have hsome := search_isSome.mpr hmem
    rw [if_neg (by simpa [Option.isSome_iff_ne_none] using hsome), if_pos hmem]
  · have hnone := search_eq_none.mpr hmem
    rw [if_pos (by simp [hnone]), if_neg hmem]
    simp [sectionEntryAdd]

theorem keyNames_withSection (sections : List SectionEntry) (sect sect' : Str) :
    keyNames (withSection sections sect) sect' = keyNames sections sect' := by
  unfold withSection
  split
  · next hnone =>
    rw [Option.isNone_iff_eq_none] at hnone
    rw [keyNames, keyNames, sectionEntryGet, sectionEntryAdd, search_concat hnone rfl]
    split
    · next heq =>
      rw [heq, hnone]
      rfl
    · rfl
  · rfl

theorem keyNames_keyEntryAdd {sections : List SectionEntry} {sect : Str} {k : KeyEntry}
    (h : keyEntryGet sections sect k.key = none) (sect' : Str) :
    keyNames (keyEntryAdd sections sect k).2 sect' =
      if sect' = sect then keyNames sections sect' ++ [k.key] else keyNames sections sect' := by
  rw [keyEntryAdd_of_none h, ← keyNames_withSection sections sect sect']
  obtain ⟨s, hget⟩ := sectionEntryGet_withSection sections sect
  simp only [keyNames, sectionEntryGet] at hget ⊢
  rw [search_modify (keyEntryAddSect_sect _)]
  split
  · next heq =>
    rw [heq, hget]
    simp [keyEntryAddSect]
  · rfl

theorem keyNames_keyEntrySet (sections : List SectionEntry) (sect key : Str)
    (value : A6oConfValue) (sect' : Str) :
    keyNames (keyEntrySet sections sect key value) sect' = keyNames sections sect' := by
  simp only [keyNames, sectionEntryGet, keyEntrySet]
  rw [search_modify (keyEntrySetSect_sect key value)]
  split
  · next heq =>
    rw [heq, Option.map_map]
    congr 2
    funext s
    exact map_name_modify (KeyEntryOf.setValue_key value) key s.keys
  · rfl

/-! ## Additions and changes -/

/-- The status of a call that stores, or not. -/
def statusOf (stored : Bool) : Int := if stored then 0 else 1

/-- Adding an entry is the addition of the map, or changes nothing. -/
theorem addEntry_refines (conf : A6oConf) (sect key : Str) (value : A6oConfValue) :
    (addEntry conf sect ⟨key, value⟩).1 = statusOf ((toMap conf).add sect key value).isSome ∧
      toMap (addEntry conf sect ⟨key, value⟩).2 =
        ((toMap conf).add sect key value).getD (toMap conf) ∧
      ((toMap conf).add sect key value = none →
        (addEntry conf sect ⟨key, value⟩).2 = conf) := by
  have hadd : (toMap conf).add sect key value =
      if (keyEntryGet conf.sections sect key).isNone
      then some (((toMap conf).append sect key).store sect key value) else none := by
    simp [OrderedMap.add, toMap]
  cases hget : keyEntryGet conf.sections sect key with
  | none =>
    have hentry := keyEntryAdd_of_none (k := ⟨key, value⟩) hget
    rw [hadd, hget, Option.isNone_none, if_pos rfl]
    refine ⟨by simp [addEntry, hentry, statusOf], ?_, fun h => by cases h⟩
    rw [Option.getD_some, toMap, OrderedMap.store, OrderedMap.append]
    congr 1
    · show (keyEntryAdd conf.sections sect ⟨key, value⟩).2.map SectionEntryOf.sect = _
      rw [hentry, map_name_modify (keyEntryAddSect_sect _), sects_withSection]
      by_cases hmem : sect ∈ conf.sections.map SectionEntryOf.sect
      · simp only [toMap, hmem, if_true]
      · simp only [toMap, hmem, if_false]
    · funext s
      exact keyNames_keyEntryAdd (k := ⟨key, value⟩) hget s
    · funext s k
      show (keyEntryGet (keyEntryAdd conf.sections sect ⟨key, value⟩).2 s k).map _ = _
      rw [keyEntryGet_keyEntryAdd (k := ⟨key, value⟩) hget]
      split <;> rfl
  | some k =>
    have hentry := keyEntryAdd_of_ne_none (k := ⟨key, value⟩)
      (ne_of_eq_of_ne hget (Option.some_ne_none k))
    have hconf : (addEntry conf sect ⟨key, value⟩).2 = conf := by
      ext1
      exact congrArg Prod.snd hentry
    rw [hadd, hget, Option.isNone_some, if_neg Bool.false_ne_true, hconf]
    exact ⟨by simp [addEntry, hentry, statusOf], rfl, fun _ => rfl⟩

/-- Two values of one type. -/
def sameType (v w : A6oConfValue) : Bool :=
  decide (a6oConfValueGetType v = a6oConfValueGetType w)

/-- Setting an entry is the change of the map, or changes nothing. -/
theorem setEntry_refines (conf : A6oConf) (sect key : Str) (value : A6oConfValue) :
    (setEntry conf sect key (a6oConfValueGetType value) value).1 =
        statusOf ((toMap conf).set sameType sect key value).isSome ∧
      toMap (setEntry conf sect key (a6oConfValueGetType value) value).2 =
        ((toMap conf).set sameType sect key value).getD (toMap conf) ∧
      ((toMap conf).set sameType sect key value = none →
        (setEntry conf sect key (a6oConfValueGetType value) value).2 = conf) := by
  have hset : (toMap conf).set sameType sect key value =
      if (keyEntryGet conf.sections sect key).any fun k => sameType k.value value
      then some ((toMap conf).store sect key value) else none := by
    simp [OrderedMap.set, toMap, Option.any_map]
  cases hget : keyEntryGet conf.sections sect key with
  | none =>
    rw [hset, hget, Option.any_none, if_neg Bool.false_ne_true]
    simp [setEntry, hget, statusOf]
  | some k =>
    rw [hset, hget, Option.any_some]
    by_cases htype : a6oConfValueGetType k.value = a6oConfValueGetType value
    · have hsame : sameType k.value value = true := decide_eq_true htype
      rw [if_pos hsame]
      simp only [setEntry, hget, htype, ne_eq, not_true_eq_false, if_false, Option.isSome_some,
        Option.getD_some]
      refine ⟨rfl, ?_, fun h => by cases h⟩
      rw [toMap, OrderedMap.store]
      congr 1
      · exact map_name_modify (keyEntrySetSect_sect key value) sect conf.sections
      · funext s
        exact keyNames_keyEntrySet conf.sections sect key value s
      · funext s k'
        rw [keyEntryGet_keyEntrySet, hget]
        split <;> rfl
    · rw [if_neg (by simpa [sameType] using htype)]
      simp [setEntry, hget, htype, statusOf]

/-! ## Calls -/

/-- The eight mutators, with the value each is given. -/
inductive Mutator where
  | addValue (value : A6oConfValue)
  | addUint (val : UInt32)
  | addString (val : Option Str)
  | addList (val : List Str)
  | setValue (value : A6oConfValue)
  | setUint (val : UInt32)
  | setString (val : Option Str)
  | setList (val : List Str)

/-- A call of a mutator for a section and a key. -/
structure Call where
  mutator : Mutator
  sect : Str
  key : Str

/-- The status of a call and the store after it. -/
def Call.apply (c : Call) (conf : A6oConf) : Int × A6oConf :=
  match c.mutator with
  | .addValue value => a6oConfAddValue conf c.sect c.key value
  | .addUint val => a6oConfAddUint conf c.sect c.key val
  | .addString val => a6oConfAddString conf c.sect c.key val
  | .addList val => a6oConfAddList conf c.sect c.key val
  | .setValue value => a6oConfSetValue conf c.sect c.key value
  | .setUint val => a6oConfSetUint conf c.sect c.key val
  | .setString val => a6oConfSetString conf c.sect c.key val
  | .setList val => a6oConfSetList conf c.sect c.key val

/-- The mutators that need a key that is not there. -/
def Mutator.adds : Mutator → Bool
  | .addValue _ | .addUint _ | .addString _ | .addList _ => true
  | .setValue _ | .setUint _ | .setString _ | .setList _ => false

/-- The value a call is to store. An `unsigned int` becomes an `int`. -/
def Mutator.value : Mutator → A6oConfValue
  | .addValue value | .setValue value => value
  | .addUint val | .setUint val => .int val.toInt32
  | .addString val | .setString val => .string val
  | .addList val | .setList val => .list val

/-- The step of the map for a call; `none` when the call must fail. -/
def Call.step (c : Call) (m : OrderedMap Str Str A6oConfValue) :
    Option (OrderedMap Str Str A6oConfValue) :=
  if c.mutator.adds then m.add c.sect c.key c.mutator.value
  else m.set sameType c.sect c.key c.mutator.value

/-- The four functions of each kind differ in the value only. -/
theorem Call.apply_eq (c : Call) (conf : A6oConf) :
    c.apply conf =
      if c.mutator.adds then addEntry conf c.sect ⟨c.key, c.mutator.value⟩
      else setEntry conf c.sect c.key (a6oConfValueGetType c.mutator.value)
        c.mutator.value := by
  obtain ⟨mutator, sect, key⟩ := c
  cases mutator with
  | addValue value => simp [Call.apply, Mutator.adds, Mutator.value, a6oConfAddValue,
      a6oConfValueSet_eq]
  | setValue value => simp [Call.apply, Mutator.adds, Mutator.value, a6oConfSetValue,
      a6oConfValueSet_eq]
  | _ => rfl

/-- **One call.** It is a step of the ordered map, or it fails and changes
nothing. -/
theorem Call.apply_refines (c : Call) (conf : A6oConf) :
    (c.apply conf).1 = statusOf (c.step (toMap conf)).isSome ∧
      toMap (c.apply conf).2 = (c.step (toMap conf)).getD (toMap conf) ∧
      (c.step (toMap conf) = none → (c.apply conf).2 = conf) := by
  rw [c.apply_eq, Call.step]
  cases c.mutator.adds with
  | true => exact addEntry_refines conf c.sect c.key c.mutator.value
  | false => exact setEntry_refines conf c.sect c.key c.mutator.value

/-! ## Sequences of calls -/

/-- The store after the calls. -/
def confAfter (conf : A6oConf) (calls : List Call) : A6oConf :=
  calls.foldl (fun conf c => (c.apply conf).2) conf

/-- The map after the calls. -/
def mapAfter (m : OrderedMap Str Str A6oConfValue) (calls : List Call) :
    OrderedMap Str Str A6oConfValue :=
  calls.foldl (fun m c => (c.step m).getD m) m

/-- The calls with the status each returned. -/
def callLog (conf : A6oConf) : List Call → List (Call × Int)
  | [] => []
  | c :: calls => (c, (c.apply conf).1) :: callLog (c.apply conf).2 calls

/-- The value of the last successful call for a key. -/
def lastStored (sect key : Str) : List (Call × Int) → Option A6oConfValue
  | [] => none
  | (c, status) :: log =>
    (lastStored sect key log).or
      (if status = 0 ∧ c.sect = sect ∧ c.key = key then some c.mutator.value else none)

theorem toMap_confAfter (conf : A6oConf) (calls : List Call) :
    toMap (confAfter conf calls) = mapAfter (toMap conf) calls := by
  induction calls generalizing conf with
  | nil => rfl
  | cons c calls ih =>
    show toMap (confAfter (c.apply conf).2 calls) = mapAfter ((c.step (toMap conf)).getD _) calls
    rw [ih, (c.apply_refines conf).2.1]

@[simp] theorem statusOf_eq_zero {stored : Bool} : statusOf stored = 0 ↔ stored = true := by
  cases stored <;> simp [statusOf]

/-- What a step of the map stores. -/
theorem Call.value_of_step {c : Call} {m m' : OrderedMap Str Str A6oConfValue}
    (h : c.step m = some m') (sect key : Str) :
    m'.value sect key =
      if sect = c.sect ∧ key = c.key then some c.mutator.value else m.value sect key := by
  unfold Call.step at h
  split at h
  · unfold OrderedMap.add at h
    split at h
    · cases h
      rfl
    · cases h
  · unfold OrderedMap.set at h
    split at h
    · cases h
      rfl
    · cases h

/-- The value of a key is the last one stored, or the one it had before. -/
theorem value_confAfter (conf : A6oConf) (calls : List Call) (sect key : Str) :
    (toMap (confAfter conf calls)).value sect key =
      (lastStored sect key (callLog conf calls)).or ((toMap conf).value sect key) := by
  induction calls generalizing conf with
  | nil => rfl
  | cons c calls ih =>
    obtain ⟨hstatus, hmap, -⟩ := c.apply_refines conf
    show (toMap (confAfter (c.apply conf).2 calls)).value sect key = _
    rw [ih, hmap, callLog, lastStored, hstatus, Option.or_assoc]
    congr 1
    cases hstep : c.step (toMap conf) with
    | none => simp
    | some m =>
      rw [Option.getD_some, c.value_of_step hstep]
      by_cases heq : sect = c.sect ∧ key = c.key
      · simp [heq]
      · rw [if_neg heq, if_neg (fun h => heq ⟨h.2.1.symm, h.2.2.symm⟩), Option.none_or]

/-! ## Getters -/

/-- A string value; `none` is NULL. -/
def stringOf : Option A6oConfValue → Option Str
  | some (.string s) => s
  | _ => none

/-- A list value. -/
def listOf : Option A6oConfValue → Option (List Str)
  | some (.list values) => some values
  | _ => none

/-- What the getters return for a key whose value is `v`. A getter that
fails leaves the caller's memory alone. -/
structure GettersReturn (conf : A6oConf) (sect key : Str) (v : Option A6oConfValue) :
    Prop where
  hasKey : a6oConfHasKey conf sect key = v.isSome
  getType : a6oConfGetType conf sect key = (v.map a6oConfValueGetType).getD .void
  getValue : ∀ out, a6oConfGetValue conf sect key out =
    (if v.isSome then 1 else 0, v.getD out)
  getString : a6oConfGetString conf sect key = stringOf v
  getList : ∀ pLen, a6oConfGetList conf sect key pLen =
    (listOf v, pLen.map fun len => ((listOf v).map List.length).getD len)

theorem getters_return (conf : A6oConf) (sect key : Str) :
    GettersReturn conf sect key ((toMap conf).value sect key) := by
  have hvalue : (toMap conf).value sect key =
      (keyEntryGet conf.sections sect key).map KeyEntryOf.value := rfl
  rw [hvalue]
  cases hget : keyEntryGet conf.sections sect key with
  | none =>
    constructor <;>
      simp [a6oConfHasKey, a6oConfGetType, a6oConfGetValue, a6oConfGetString, a6oConfGetList,
        stringOf, listOf, hget]
  | some k =>
    obtain ⟨name, value⟩ := k
    rw [Option.map_some]
    constructor
    · simp [a6oConfHasKey, hget]
    · simp [a6oConfGetType, hget]
    · intro out
      simp [a6oConfGetValue, hget, a6oConfValueSet_eq]
    · cases value <;> simp [a6oConfGetString, stringOf, hget]
    · intro pLen
      cases value <;> simp [a6oConfGetList, listOf, hget]

/-! ## The refinement -/

/-- A call on the store, as the interface promises it. -/
structure IsMapCall (conf : A6oConf) (c : Call) : Prop where
  status : (c.apply conf).1 = 0 ∨ (c.apply conf).1 = 1
  add : c.mutator.adds = true →
    ((c.apply conf).1 = 0 ↔ a6oConfHasKey conf c.sect c.key = false)
  set : c.mutator.adds = false →
    ((c.apply conf).1 = 0 ↔ a6oConfHasKey conf c.sect c.key = true ∧
      a6oConfGetType conf c.sect c.key = a6oConfValueGetType c.mutator.value)
  failed : (c.apply conf).1 ≠ 0 → (c.apply conf).2 = conf
  value : (c.apply conf).1 = 0 → ∀ sect key,
    (toMap (c.apply conf).2).value sect key =
      if sect = c.sect ∧ key = c.key then some c.mutator.value
      else (toMap conf).value sect key
  keys : (c.apply conf).1 = 0 → ∀ sect,
    (toMap (c.apply conf).2).keys sect =
      if c.mutator.adds ∧ sect = c.sect then (toMap conf).keys sect ++ [c.key]
      else (toMap conf).keys sect
  sects : (c.apply conf).1 = 0 →
    (toMap (c.apply conf).2).sects =
      if c.mutator.adds ∧ c.sect ∉ (toMap conf).sects then (toMap conf).sects ++ [c.sect]
      else (toMap conf).sects

theorem Call.step_isSome_add {c : Call} (h : c.mutator.adds = true) (conf : A6oConf) :
    (c.step (toMap conf)).isSome = true ↔ a6oConfHasKey conf c.sect c.key = false := by
  rw [(getters_return conf c.sect c.key).hasKey, Call.step, if_pos h, OrderedMap.add]
  cases (toMap conf).value c.sect c.key <;> simp

theorem Call.step_isSome_set {c : Call} (h : c.mutator.adds = false) (conf : A6oConf) :
    (c.step (toMap conf)).isSome = true ↔ a6oConfHasKey conf c.sect c.key = true ∧
      a6oConfGetType conf c.sect c.key = a6oConfValueGetType c.mutator.value := by
  rw [(getters_return conf c.sect c.key).hasKey, (getters_return conf c.sect c.key).getType,
    Call.step, if_neg (by simp [h]), OrderedMap.set]
  cases (toMap conf).value c.sect c.key with
  | none => simp
  | some old => simp [sameType]

/-- The order of the names after a step of the map. -/
theorem Call.names_of_step {c : Call} {m m' : OrderedMap Str Str A6oConfValue}
    (h : c.step m = some m') :
    (∀ sect, m'.keys sect =
      if c.mutator.adds ∧ sect = c.sect then m.keys sect ++ [c.key] else m.keys sect) ∧
    m'.sects = if c.mutator.adds ∧ c.sect ∉ m.sects then m.sects ++ [c.sect] else m.sects := by
  unfold Call.step at h
  cases hadds : c.mutator.adds with
  | true =>
    rw [hadds, if_pos rfl, OrderedMap.add] at h
    split at h
    · cases h
      refine ⟨by simp [OrderedMap.store, OrderedMap.append], ?_⟩
      by_cases hmem : c.sect ∈ m.sects <;>
        simp [OrderedMap.store, OrderedMap.append, hmem]
    · cases h
  | false =>
    rw [hadds, if_neg Bool.false_ne_true, OrderedMap.set] at h
    split at h
    · cases h
      simp [OrderedMap.store]
    · cases h

theorem isMapCall (conf : A6oConf) (c : Call) : IsMapCall conf c := by
  obtain ⟨hstatus, hmap, hfailed⟩ := c.apply_refines conf
  have hzero : (c.apply conf).1 = 0 ↔ (c.step (toMap conf)).isSome = true := by
    rw [hstatus, statusOf_eq_zero]
  have hstored : (c.apply conf).1 = 0 → c.step (toMap conf) = some (toMap (c.apply conf).2) := by
    intro h
    obtain ⟨m, hm⟩ := Option.isSome_iff_exists.mp (hzero.mp h)
    rw [hmap, hm]
    rfl
  constructor
  · rw [hstatus]
    cases (c.step (toMap conf)).isSome <;> simp [statusOf]
  · intro hadds
    rw [hzero, Call.step_isSome_add hadds]
  · intro hadds
    rw [hzero, Call.step_isSome_set hadds]
  · intro h
    refine hfailed ?_
    rwa [ne_eq, hzero, Option.not_isSome_iff_eq_none] at h
  · intro h
    exact c.value_of_step (hstored h)
  · intro h
    exact (c.names_of_step (hstored h)).1
  · intro h
    exact (c.names_of_step (hstored h)).2

/-- **The configuration store refines an ordered map.** After any sequence
of calls of the eight mutators on a new configuration, the store is that
map after the steps of the calls, names are distinct, every further call is
a step of the map or fails and changes nothing, and the getters return the
value of the last successful call for the key. The arguments of a call are
values: a string or a list that is set is not the stored one itself, which
the code frees before it copies. -/
theorem a6oConf_refines_orderedMap (calls : List Call) :
    toMap (confAfter a6oConfNew calls) = mapAfter OrderedMap.empty calls ∧
      Distinct (confAfter a6oConfNew calls).sections ∧
      (∀ c, IsMapCall (confAfter a6oConfNew calls) c) ∧
      ∀ sect key, GettersReturn (confAfter a6oConfNew calls) sect key
        (lastStored sect key (callLog a6oConfNew calls)) := by
  refine ⟨toMap_confAfter a6oConfNew calls, (confAfter a6oConfNew calls).distinct,
    isMapCall _, ?_⟩
  intro sect key
  have hvalue := value_confAfter a6oConfNew calls sect key
  rw [toMap_new, OrderedMap.empty, Option.or_none] at hvalue
  rw [← hvalue]
  exact getters_return _ sect key

/-! ## The loader's view

`Conf.Store` models the additions the loader makes, with values that have no
NULL. It is this store, read with a NULL string as an empty one. -/

/-- A value as the loader has it. -/
def loaderValue : A6oConfValue → Conf.A6oConfValue
  | .void => .void
  | .int v => .int v.toInt
  | .string v => .string ((v.map Subtype.val).getD [])
  | .list values => .list (values.map Subtype.val)

/-- The loader copies such a value as it is. -/
theorem loaderValue_wellFormed (v : A6oConfValue) : (loaderValue v).WellFormed := by
  cases v with
  | void => trivial
  | int v => exact ⟨Int32.le_toInt v, Int32.toInt_lt v⟩
  | string v =>
    cases v with
    | none => exact List.not_mem_nil
    | some s => exact s.property
  | list values =>
    intro s hs
    obtain ⟨s', -, rfl⟩ := List.mem_map.mp hs
    exact s'.property

/-- The store as the loader has it. -/
def loaderView (conf : A6oConf) : Conf.A6oConf :=
  conf.map Subtype.val_injective loaderValue

/-- The addition of the loader is `a6o_conf_add_value`. -/
theorem loader_addValue (conf : A6oConf) (sect key : Str) (value : A6oConfValue) :
    Conf.a6oConfAddValue (loaderView conf) sect.val key.val (loaderValue value) =
      ((a6oConfAddValue conf sect key value).1,
        loaderView (a6oConfAddValue conf sect key value).2) := by
  rw [Conf.a6oConfAddValue, a6oConfAddValue, a6oConfValueSet_eq,
    Conf.a6oConfValueSet_of_wellFormed (loaderValue_wellFormed value)]
  exact addEntry_map Subtype.val_injective loaderValue conf sect ⟨key, value⟩

end Armadito.ConfApi
