import Mathlib.Data.List.Induction
import Armadito.Jrpc.Connection
import Armadito.Jrpc.KeyedMap

/-!
# Jrpc.Mapper

`mapper.c`: the methods of a server, by name, and the messages of their
errors. The table of methods has string keys, which cannot be rehashed: the
copy hashes the key of every old slot, and the unused ones have none. So a
mapper takes 45 methods.
-/

namespace Armadito.Jrpc

open Keyed

namespace Mapper

/-! ## The mapper -/

/-- `struct jrpc_mapper`. -/
structure Tables where
  methodTable : Keyed.HashTable (Option CString) JrpcMethod
  errorMessageTable : Keyed.HashTable Nat CString

/-- `jrpc_mapper_new`. -/
def jrpcMapperNew : Tables where
  methodTable := Keyed.hashTableNew hashKeyStr
  errorMessageTable := Keyed.hashTableNew hashKeyInt

/-- `jrpc_mapper_add`. -/
def jrpcMapperAdd (mapper : Tables) (method : CString) (methodFun : JrpcMethod) :
    Except Fault Tables := do
  let methodTable ←
    Keyed.hashTableInsert hashKeyStr mapper.methodTable (some method) (some methodFun)
  return { mapper with methodTable }

/-- `jrpc_mapper_find`. -/
def jrpcMapperFind (mapper : Tables) (method : CString) : Except Fault (Option JrpcMethod) :=
  Keyed.hashTableSearch hashKeyStr mapper.methodTable (some method)

/-- The code of an error is an `unsigned char`. -/
def jrpcMapperAddErrorMessage (mapper : Tables) (errorCode : UInt8) (errorMessage : CString) :
    Except Fault Tables := do
  let errorMessageTable ← Keyed.hashTableInsert hashKeyInt mapper.errorMessageTable
    errorCode.toNat (some errorMessage)
  return { mapper with errorMessageTable }

/-- `jrpc_mapper_get_error_message`. -/
def jrpcMapperGetErrorMessage (mapper : Tables) (errorCode : UInt8) :
    Except Fault (Option CString) :=
  Keyed.hashTableSearch hashKeyInt mapper.errorMessageTable errorCode.toNat

/-- A fresh mapper with some methods. -/
def addAll (pairs : List (CString × JrpcMethod)) : Except Fault Tables :=
  pairs.foldlM (fun mapper pair => jrpcMapperAdd mapper pair.1 pair.2) jrpcMapperNew

/-! ## String keys -/

/-- Moving a slot without a key applies the hash function to NULL. -/
theorem rehashEntry_str (table : List (Keyed.HashTableEntry (Option CString) JrpcMethod))
    (old : Keyed.HashTableEntry (Option CString) JrpcMethod) :
    Keyed.rehashEntry hashKeyStr table old = .error .nullDeref ∧ old.key = none ∨
      ∃ table', Keyed.rehashEntry hashKeyStr table old = .ok table' ∧ old.key ≠ none := by
  cases hkey : old.key with
  | none =>
    refine .inl ⟨?_, rfl⟩
    simp only [Keyed.rehashEntry, hkey, bind, Except.bind]
    rfl
  | some s =>
    have hhash := hashKeyStr_lawful.hashFun _ (Option.some_ne_none s)
    obtain ⟨w, hw⟩ : ∃ w, Keyed.firstSlot hashKeyStr table (strHash (some s) % table.length)
        (fun e => .ok (e.state = .empty)) = .ok w :=
      ⟨_, firstSlot_eq (p := fun e => decide (e.state = .empty)) (fun _ _ => rfl) _⟩
    have hstep : ∃ table', Keyed.rehashEntry hashKeyStr table old = .ok table' := by
      simp only [Keyed.rehashEntry, hkey, hhash, bind, Except.bind, hw]
      exact ⟨_, rfl⟩
    obtain ⟨table', hstep⟩ := hstep
    exact .inr ⟨table', hstep, Option.some_ne_none s⟩

/-- The copy fails when it comes to a slot without a key. -/
theorem foldlM_rehashEntry_error {olds : List (Keyed.HashTableEntry (Option CString) JrpcMethod)}
    (h : ∃ e ∈ olds, e.key = none) :
    ∀ table, olds.foldlM (Keyed.rehashEntry hashKeyStr) table = .error .nullDeref := by
  induction olds with
  | nil =>
    obtain ⟨e, he, -⟩ := h
    cases he
  | cons old olds ih =>
    intro table
    rw [List.foldlM_cons]
    rcases rehashEntry_str table old with ⟨hstep, -⟩ | ⟨table', hstep, hold⟩
    · rw [hstep]
      rfl
    · obtain ⟨e, he, hnone⟩ := h
      rw [hstep]
      refine ih ⟨e, ?_, hnone⟩ table'
      rcases List.mem_cons.mp he with rfl | he
      · exact absurd hnone hold
      · exact he

/-! ## Methods -/

/-- The function of the last pair with the name. -/
def lastFunction (pairs : List (CString × JrpcMethod)) (name : CString) : Option JrpcMethod :=
  pairs.reverse.lookup name

/-- What the mapper was given before, as a map from keys. -/
def methodMap (pairs : List (CString × JrpcMethod)) : Option CString → Option JrpcMethod
  | some name => lastFunction pairs name
  | none => none

/-- A mapper that was given `pairs`. -/
structure Holds (pairs : List (CString × JrpcMethod)) (mapper : Tables) : Prop where
  represents : Represents hashKeyStr strHash (· ≠ none) mapper.methodTable (methodMap pairs)
  size : mapper.methodTable.size = 64
  keyCount : mapper.methodTable.keyCount = pairs.length
  notRemoved : ∀ e ∈ mapper.methodTable.table, e.state ≠ .removed

theorem jrpcMapperNew_holds : Holds [] jrpcMapperNew := by
  have hmap : methodMap [] = fun _ => none := by
    funext k
    cases k <;> rfl
  exact ⟨hmap ▸ hashTableNew_represents, rfl, rfl, hashTableNew_noneRemoved⟩

/-- The last pair with a key, after one more pair. -/
theorem lookup_reverse_concat {α ν : Type} [DecidableEq α] [BEq α] [LawfulBEq α]
    (pairs : List (α × ν)) (key : α) (value : ν) :
    (fun k => (pairs ++ [(key, value)]).reverse.lookup k) =
      Function.update (fun k => pairs.reverse.lookup k) key (some value) := by
  funext k
  rw [List.reverse_append, List.reverse_singleton, List.singleton_append, List.lookup_cons,
    Function.update_apply]
  by_cases h : k = key
  · simp [h]
  · rw [beq_eq_false_iff_ne.mpr h, if_neg h]

theorem methodMap_concat (pairs : List (CString × JrpcMethod)) (name : CString)
    (f : JrpcMethod) :
    methodMap (pairs ++ [(name, f)]) = Function.update (methodMap pairs) (some name) (some f) := by
  funext k
  cases k with
  | none => rfl
  | some name' =>
    have hlast := congrFun (lookup_reverse_concat pairs name f) name'
    rw [methodMap, lastFunction, hlast, Function.update_apply, Function.update_apply]
    simp only [Option.some.injEq]
    rfl

/-- Up to 45 methods, no rehash is due and no slot is passed over. -/
theorem Holds.add {pairs : List (CString × JrpcMethod)} {mapper : Tables}
    (h : Holds pairs mapper) (hlen : pairs.length < 45) (name : CString) (f : JrpcMethod) :
    ∃ mapper', jrpcMapperAdd mapper name f = .ok mapper' ∧
      Holds (pairs ++ [(name, f)]) mapper' := by
  have hmust : Keyed.hashTableMustRehash mapper.methodTable = false := by
    rw [Keyed.hashTableMustRehash, h.size, h.keyCount, decide_eq_false_iff_not]
    omega
  -- methods are never removed, so nothing is passed over
  have hplace : InPlace hashKeyStr mapper.methodTable (some name) :=
    NoneRemoved.inPlace h.notRemoved (some name)
  obtain ⟨ht', w, hchecked, -, hinsert, hrep⟩ :=
    h.represents.insert hashKeyStr_lawful (Option.some_ne_none name) (Option.some_ne_none name)
      (fun hdue => absurd hdue (by rw [hmust]; decide)) hplace f
  have hsame : ht' = mapper.methodTable := by
    cases hchecked with
    | rehashed hdue _ _ =>
      rw [hmust] at hdue
      cases hdue
    | same _ => rfl
  subst hsame
  refine ⟨_, by rw [jrpcMapperAdd, hinsert]; rfl, ?_, ?_, ?_, ?_⟩
  · rw [methodMap_concat]
    exact hrep
  · exact List.length_set.trans h.size
  · show mapper.methodTable.keyCount + 1 = (pairs ++ [(name, f)]).length
    rw [h.keyCount, List.length_append, List.length_singleton]
  · exact NoneRemoved.inserted h.notRemoved hchecked w (some f) _

/-- One more method is one too many. -/
theorem Holds.full {pairs : List (CString × JrpcMethod)} {mapper : Tables}
    (h : Holds pairs mapper) (hlen : pairs.length = 45) (name : CString) (f : JrpcMethod) :
    jrpcMapperAdd mapper name f = .error .nullDeref := by
  have hmust : Keyed.hashTableMustRehash mapper.methodTable = true := by
    rw [Keyed.hashTableMustRehash, h.size, h.keyCount, hlen]
    decide
  -- 45 keys do not fill 64 slots
  have hunused : ∃ e ∈ mapper.methodTable.table, e.key = none := by
    by_contra hno
    have hall : mapper.methodTable.table.countP (fun e => e.key ≠ hashKeyStr.null) =
        mapper.methodTable.table.length :=
      List.countP_eq_length.mpr fun e he => by
        rw [decide_eq_true_eq]
        exact fun hnone => hno ⟨e, he, hnone⟩
    have hcount := h.represents.inv.count
    have hsize : mapper.methodTable.table.length = 64 := h.size
    rw [hall, h.keyCount, hsize, hlen] at hcount
    omega
  have hfold := foldlM_rehashEntry_error hunused
    (List.replicate (2 * mapper.methodTable.size) (Keyed.nullEntry hashKeyStr))
  rw [jrpcMapperAdd, Keyed.hashTableInsert, Keyed.hashTableCheckOverflow, if_pos hmust,
    Keyed.hashTableRehash, hfold]
  rfl

theorem addAll_concat (pairs : List (CString × JrpcMethod)) (name : CString) (f : JrpcMethod) :
    addAll (pairs ++ [(name, f)]) =
      (addAll pairs).bind fun mapper => jrpcMapperAdd mapper name f := by
  rw [addAll, List.foldlM_append]
  show ((addAll pairs).bind fun mapper => List.foldlM _ mapper [(name, f)]) = _
  cases addAll pairs with
  | error fault => rfl
  | ok mapper =>
    show (jrpcMapperAdd mapper name f).bind _ = jrpcMapperAdd mapper name f
    cases jrpcMapperAdd mapper name f <;> rfl

theorem addAll_holds (pairs : List (CString × JrpcMethod)) (hlen : pairs.length ≤ 45) :
    ∃ mapper, addAll pairs = .ok mapper ∧ Holds pairs mapper := by
  induction pairs using List.reverseRecOn with
  | nil => exact ⟨_, rfl, jrpcMapperNew_holds⟩
  | append_singleton pairs pair ih =>
    rw [List.length_append, List.length_singleton] at hlen
    obtain ⟨mapper, hadd, hholds⟩ := ih (by omega)
    obtain ⟨mapper', hadd', hholds'⟩ := hholds.add (by omega) pair.1 pair.2
    refine ⟨mapper', ?_, hholds'⟩
    rw [addAll_concat, hadd]
    exact hadd'

/-- The 46th method makes the mapper hash a NULL key. -/
theorem addAll_error (pairs : List (CString × JrpcMethod)) (hlen : 45 < pairs.length) :
    addAll pairs = .error .nullDeref := by
  induction pairs using List.reverseRecOn with
  | nil => cases hlen
  | append_singleton pairs pair ih =>
    rw [List.length_append, List.length_singleton] at hlen
    rw [addAll_concat]
    by_cases hfull : pairs.length = 45
    · obtain ⟨mapper, hadd, hholds⟩ := addAll_holds pairs (by omega)
      rw [hadd]
      exact hholds.full hfull pair.1 pair.2
    · rw [ih (by omega)]
      rfl

/-- **A mapper finds the methods it was given** if and only if they are at
most 45. -/
theorem addAll_find_iff (pairs : List (CString × JrpcMethod)) :
    (∃ mapper, addAll pairs = .ok mapper ∧
      ∀ name, jrpcMapperFind mapper name = .ok (lastFunction pairs name)) ↔
      pairs.length ≤ 45 := by
  constructor
  · rintro ⟨mapper, hadd, -⟩
    by_contra hlen
    rw [addAll_error pairs (by omega)] at hadd
    cases hadd
  · intro hlen
    obtain ⟨mapper, hadd, hholds⟩ := addAll_holds pairs hlen
    refine ⟨mapper, hadd, fun name => ?_⟩
    exact hholds.represents.search hashKeyStr_lawful (Option.some_ne_none name)
      (Option.some_ne_none name)

/-- One name, given 46 times. -/
theorem addAll_replicate_46 :
    addAll (List.replicate 46 (['m'], fun _ => (0, none))) = .error .nullDeref :=
  addAll_error _ (by rw [List.length_replicate]; omega)

/-- What a connection sees of its mapper. -/
def Tables.view (mapper : Tables) : JrpcMapper where
  find := fun name => match jrpcMapperFind mapper name with
    | .ok methodFun => methodFun
    | .error _ => none
  getErrorMessage := fun code =>
    match jrpcMapperGetErrorMessage mapper (UInt8.ofNat code.toNat) with
    | .ok message => message
    | .error _ => none

theorem Tables.view_find_eq {mapper : Tables} {name : CString} {methodFun : Option JrpcMethod}
    (h : jrpcMapperFind mapper name = .ok methodFun) : mapper.view.find name = methodFun := by
  simp only [Tables.view, h]

theorem Tables.view_getErrorMessage_eq {mapper : Tables} {code : Int} {message : Option CString}
    (h : jrpcMapperGetErrorMessage mapper (UInt8.ofNat code.toNat) = .ok message) :
    mapper.view.getErrorMessage code = message := by
  simp only [Tables.view, h]

end Mapper

end Armadito.Jrpc
