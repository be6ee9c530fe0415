import Armadito.Jrpc.KeyedMap

/-!
# Jrpc.IntTable

The table of a connection's callbacks: `hash.c` with integer keys. On these
nothing fails but the assertion of an insertion. Every key is inserted while
it is not there, so the table is a map.
-/

namespace Armadito.Jrpc

open Keyed (hashKeyInt hashKeyInt_lawful)

/-- A table with integer keys. -/
abbrev HashTable (ν : Type) := Keyed.HashTable Nat ν

variable {ν : Type} {ht : HashTable ν}

/-- `hash_table_new` for integer keys. -/
def hashTableNew : HashTable ν := Keyed.hashTableNew hashKeyInt

/-- `hash_table_insert` of a value that is not NULL. -/
def hashTableInsert (ht : HashTable ν) (key : Nat) (value : ν) : Except Fault (HashTable ν) :=
  Keyed.hashTableInsert hashKeyInt ht key (some value)

/-- A search, which does not fail (`hashTableSearch_ok`). -/
def hashTableSearch (ht : HashTable ν) (key : Nat) : Option ν :=
  (Keyed.hashTableSearch hashKeyInt ht key).toOption.join

/-- A removal, which does not fail (`hashTableRemove_ok`): whether there was
such a key, and the table. -/
def hashTableRemove (ht : HashTable ν) (key : Nat) : Bool × HashTable ν :=
  (Keyed.hashTableRemove hashKeyInt ht key).toOption.getD (false, ht)

/-! ## Nothing fails -/

theorem lookupEntry_int (ht : HashTable ν) (key : Nat) :
    ∃ found, Keyed.lookupEntry hashKeyInt ht key = .ok found ∧
      ∀ w, found = some w → w < ht.table.length ∧ (ht.entry hashKeyInt w).key = key := by
  refine ⟨_, Keyed.lookupEntry_eq hashKeyInt_lawful (fun _ _ _ => trivial) trivial, fun w hw => ?_⟩
  obtain ⟨hlt, -, hkey⟩ := Keyed.slot_of_endsLookup hw
  exact ⟨hlt, hkey⟩

theorem hashTableSearch_ok (ht : HashTable ν) (key : Nat) :
    Keyed.hashTableSearch hashKeyInt ht key = .ok (hashTableSearch ht key) := by
  obtain ⟨found, hlookup, -⟩ := lookupEntry_int ht key
  rw [hashTableSearch, Keyed.hashTableSearch, hlookup]
  cases found <;> rfl

theorem hashTableRemove_ok (ht : HashTable ν) (key : Nat) :
    Keyed.hashTableRemove hashKeyInt ht key = .ok (hashTableRemove ht key) := by
  obtain ⟨found, hlookup, -⟩ := lookupEntry_int ht key
  rw [hashTableRemove, Keyed.hashTableRemove, hlookup]
  cases found <;> rfl

/-! ## The invariant -/

/-- The table stands for a map, and a slot without a key has no value. -/
structure HashTable.Inv (ht : HashTable ν) : Prop where
  map : ∃ m, Keyed.Represents hashKeyInt himult64 (fun _ => True) ht m
  blank : ∀ e ∈ ht.table, e.key = 0 → e.value = none

theorem entry_mem {w : Nat} (hw : w < ht.table.length) : ht.entry hashKeyInt w ∈ ht.table := by
  rw [Keyed.HashTable.entry, List.getD_eq_getElem _ _ hw]
  exact List.getElem_mem hw

theorem hashTableSearch_zero (hinv : ht.Inv) : hashTableSearch ht 0 = none := by
  obtain ⟨found, hlookup, hfound⟩ := lookupEntry_int ht 0
  rw [hashTableSearch, Keyed.hashTableSearch, hlookup]
  cases found with
  | none => rfl
  | some w =>
    obtain ⟨hw, hkey⟩ := hfound w rfl
    exact hinv.blank _ (entry_mem hw) hkey

/-- **The map that a table stands for** is what a search finds. -/
theorem hashTableSearch_eq {m : Nat → Option ν} (hinv : ht.Inv) (hzero : m 0 = none)
    (h : Keyed.Represents hashKeyInt himult64 (fun _ => True) ht m) :
    hashTableSearch ht = m := by
  funext key
  by_cases hkey : key = 0
  · rw [hkey, hashTableSearch_zero hinv, hzero]
  · have hsearch := h.search hashKeyInt_lawful trivial hkey
    rw [hashTableSearch_ok] at hsearch
    exact Except.ok.inj hsearch

theorem HashTable.Inv.represents (hinv : ht.Inv) :
    Keyed.Represents hashKeyInt himult64 (fun _ => True) ht (hashTableSearch ht) := by
  obtain ⟨m, h⟩ := hinv.map
  refine h.congr fun key hkey => ?_
  have hsearch := h.search hashKeyInt_lawful trivial hkey
  rw [hashTableSearch_ok] at hsearch
  exact (Except.ok.inj hsearch).symm

/-! ## The operations of a map -/

theorem hashTableNew_inv : (hashTableNew : HashTable ν).Inv := by
  refine ⟨⟨_, Keyed.hashTableNew_represents⟩, fun e he _ => ?_⟩
  rw [List.eq_of_mem_replicate he]
  rfl

theorem hashTableSearch_new : hashTableSearch (hashTableNew : HashTable ν) = fun _ => none :=
  hashTableSearch_eq hashTableNew_inv rfl Keyed.hashTableNew_represents

/-- The keys are what a search finds. -/
theorem HashTable.Inv.mem_keys (hinv : ht.Inv) {key : Nat} :
    key ∈ (Keyed.layout hashKeyInt himult64).keys ht.table ↔ hashTableSearch ht key ≠ none := by
  by_cases hkey : key = 0
  · subst hkey
    rw [hashTableSearch_zero hinv, Probe.Layout.mem_keys]
    refine iff_of_false ?_ (not_not_intro rfl)
    rintro ⟨e, -, he⟩
    exact (Keyed.layout_key_eq_some.mp he).1 (Keyed.layout_key_eq_some.mp he).2
  · rw [← Option.isSome_iff_ne_none, ← hinv.represents.isSome hkey, Option.isSome_iff_ne_none,
      ne_eq, Probe.Layout.find_eq_none, Probe.Layout.mem_keys]
    push Not
    exact Iff.rfl

/-- **Counting the pending ids**: the slots with a key are as many as the ids
that a search finds. -/
theorem HashTable.Inv.countP_eq_length (hinv : ht.Inv) {ids : List Nat} (hids : ids.Nodup)
    (hmem : ∀ key, hashTableSearch ht key ≠ none ↔ key ∈ ids) :
    ht.table.countP (fun e => e.key ≠ 0) = ids.length := by
  have hperm : ((Keyed.layout hashKeyInt himult64).keys ht.table).Perm ids := by
    rw [List.perm_ext_iff_of_nodup hinv.represents.distinct hids]
    exact fun key => hinv.mem_keys.trans (hmem key)
  rw [← hperm.length_eq]
  exact (Keyed.length_keys (t := hashKeyInt) ht.table).symm

/-- The check before an insertion leaves the slots without a key empty. -/
theorem HashTable.Inv.checked (hinv : ht.Inv) {ht' : HashTable ν}
    (h : Keyed.Checked hashKeyInt himult64 ht ht') :
    ∀ e ∈ ht'.table, e.key = 0 → e.value = none := by
  cases h with
  | same _ => exact hinv.blank
  | rehashed _ _ hcopied =>
    intro e he hkey
    by_cases hstate : e.state = .empty
    · rw [hcopied.empty e he hstate]
      rfl
    · obtain ⟨old, hold, rfl⟩ := hcopied.mem he hstate
      exact hinv.blank old hold hkey

/-- There is no slot of a new key that an insertion could pass over. -/
theorem HashTable.Inv.inPlace (hinv : ht.Inv) {key : Nat} (hkey : key ≠ 0)
    (hnew : hashTableSearch ht key = none) : Keyed.InPlace hashKeyInt ht key := by
  have hnone := hinv.represents.isSome hkey
  rw [hnew, Option.isSome_none, Option.isSome_eq_false_iff, Option.isNone_iff_eq_none,
    Probe.Layout.find_eq_none] at hnone
  exact Keyed.inPlace_of_absent fun e he heq =>
    hnone e he (Keyed.layout_key_eq_some.mpr ⟨by rwa [heq], heq⟩)

/-- **Inserting a new key**: the assertion holds, and the map has the key. -/
theorem hashTableInsert_spec (hinv : ht.Inv) {key : Nat} (hkey : key ≠ 0)
    (hnew : hashTableSearch ht key = none) (value : ν) :
    ∃ ht', hashTableInsert ht key value = .ok ht' ∧ ht'.Inv ∧
      hashTableSearch ht' = Function.update (hashTableSearch ht) key (some value) := by
  obtain ⟨ht₁, w, hchecked, -, hinsert, hrep⟩ := hinv.represents.insert hashKeyInt_lawful trivial
    hkey (fun _ => trivial) (hinv.inPlace hkey hnew) value
  have hblank := hinv.checked hchecked
  have hinv' : HashTable.Inv ⟨ht₁.table.set w ⟨key, some value, .occupied⟩, ht₁.keyCount + 1⟩ := by
    refine ⟨⟨_, hrep⟩, fun e he hzero => ?_⟩
    rcases List.mem_or_eq_of_mem_set he with he | rfl
    · exact hblank e he hzero
    · exact absurd hzero hkey
  refine ⟨_, hinsert, hinv', hashTableSearch_eq hinv' ?_ hrep⟩
  rw [Function.update_of_ne hkey.symm]
  exact hashTableSearch_zero hinv

/-- **Removing a key** that is there. -/
theorem hashTableRemove_spec (hinv : ht.Inv) {key : Nat} {value : ν}
    (hfound : hashTableSearch ht key = some value) :
    (hashTableRemove ht key).1 = true ∧ (hashTableRemove ht key).2.Inv ∧
      hashTableSearch (hashTableRemove ht key).2 =
        Function.update (hashTableSearch ht) key none := by
  have hkey : key ≠ 0 := by
    rintro rfl
    rw [hashTableSearch_zero hinv] at hfound
    cases hfound
  obtain ⟨ht', hremove, hrep⟩ := hinv.represents.remove hashKeyInt_lawful trivial hkey
  rw [hashTableRemove_ok, hfound] at hremove
  obtain ⟨hpresent, rfl⟩ := Prod.mk.inj (Except.ok.inj hremove)
  -- the slot of the key is emptied
  obtain ⟨w, hslot⟩ : ∃ w,
      (hashTableRemove ht key).2 = ⟨ht.table.set w ⟨0, none, .removed⟩, ht.keyCount - 1⟩ := by
    obtain ⟨found, hlookup, -⟩ := lookupEntry_int ht key
    cases found with
    | none =>
      rw [hashTableSearch, Keyed.hashTableSearch, hlookup] at hfound
      cases hfound
    | some w =>
      refine ⟨w, ?_⟩
      rw [hashTableRemove, Keyed.hashTableRemove, hlookup]
      rfl
  have hinv' : (hashTableRemove ht key).2.Inv := by
    refine ⟨⟨_, hrep⟩, fun e he hzero => ?_⟩
    rw [hslot] at he
    rcases List.mem_or_eq_of_mem_set he with he | rfl
    · exact hinv.blank e he hzero
    · rfl
  refine ⟨hpresent, hinv', hashTableSearch_eq hinv' ?_ hrep⟩
  rw [Function.update_of_ne hkey.symm]
  exact hashTableSearch_zero hinv

end Armadito.Jrpc
