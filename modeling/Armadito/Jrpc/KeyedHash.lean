import Armadito.Base
import Armadito.Lib.Probe

/-!
# Jrpc.KeyedHash

`hash.c`: an open addressing hash table, for every type of keys. A table
calls the hash function and the comparison that `hash_table_new` sets for its
type; on string keys both read the string, which the NULL key of an unused
slot does not have. So each operation may fail.

A table that gets full is copied to one of twice its size. The copy moves
every slot, also the empty ones and the removed ones, and marks all of them
as occupied.
-/

namespace Armadito.Jrpc

/-- The state of an entry. -/
inductive HashState where
  | empty
  | removed
  | occupied
  deriving DecidableEq, Repr

/-- The hash function of integer keys. -/
def himult64 (p : Nat) : Nat := p * 11400712997709160919 % 2 ^ 64

namespace Keyed

/-! ## Types of keys -/

/-- What `hash_table_new` sets for an `enum hash_table_type`, and the NULL
pointer among the keys. -/
structure HashTableType (κ : Type) where
  null : κ
  hashFun : κ → Except Fault Nat
  equalFun : κ → κ → Except Fault Bool

/-- A `char` is signed: the bytes from 128 on are negative. -/
def signedChar (c : Char) : UInt32 :=
  if c.toNat < 128 then UInt32.ofNat c.toNat else UInt32.ofNat c.toNat - 256

/-- The loop of `pjw32`, once. -/
def pjw32Step (h : UInt32) (c : Char) : UInt32 :=
  let h := (h <<< 4) + signedChar c
  let high := h &&& 0xF0000000
  let h := if high ≠ 0 then h ^^^ (high >>> 24) else h
  h &&& ~~~high

/-- The hash function of strings. -/
def pjw32 (s : CString) : UInt32 := s.foldl pjw32Step 0

/-- The hash function of pointers. -/
def fmix64 (p : UInt64) : UInt64 :=
  let k := p ^^^ (p >>> 33)
  let k := k * 0xff51afd7ed558ccd
  let k := k ^^^ (k >>> 33)
  let k := k * 0xc4ceb9fe1a85ec53
  k ^^^ (k >>> 33)

/-- `HASH_KEY_INT`: the pointer is the integer. -/
def hashKeyInt : HashTableType Nat where
  null := 0
  hashFun := fun p => .ok (himult64 p)
  equalFun := fun k1 k2 => .ok (k1 = k2)

/-- `HASH_KEY_PTR`. -/
def hashKeyPtr : HashTableType Nat where
  null := 0
  hashFun := fun p => .ok (fmix64 (UInt64.ofNat p)).toNat
  equalFun := fun k1 k2 => .ok (k1 = k2)

/-- `HASH_KEY_STR`: a key is the string that it points to. -/
def hashKeyStr : HashTableType (Option CString) where
  null := none
  hashFun := fun
    | some s => .ok (pjw32 s).toNat
    | none => .error .nullDeref
  equalFun := fun
    | some s1, some s2 => .ok (s1 = s2)
    | _, _ => .error .nullDeref

/-! ## Tables -/

/-- `struct hash_table_entry`; a NULL value is `none`. -/
structure HashTableEntry (κ ν : Type) where
  key : κ
  value : Option ν
  state : HashState
  deriving DecidableEq, Repr

/-- `struct hash_table`; its size is the length of the table. -/
structure HashTable (κ ν : Type) where
  table : List (HashTableEntry κ ν)
  keyCount : Nat
  deriving DecidableEq, Repr

variable {κ ν : Type}

/-- The number of entries. -/
def HashTable.size (ht : HashTable κ ν) : Nat := ht.table.length

section Operations

variable (t : HashTableType κ)

/-- What `calloc` makes of a slot. -/
def nullEntry : HashTableEntry κ ν := ⟨t.null, none, .empty⟩

/-- The entry of an index. -/
def HashTable.entry (ht : HashTable κ ν) (w : Nat) : HashTableEntry κ ν :=
  ht.table.getD w (nullEntry t)

/-- `hash_table_new`. -/
def hashTableNew : HashTable κ ν := ⟨List.replicate 64 (nullEntry t), 0⟩

/-- A loop that stops at the first slot for which `stop` says so. -/
def slotLoop (stop : Nat → Except Fault Bool) : List Nat → Except Fault (Option Nat)
  | [] => return none
  | w :: ws => do
    if ← stop w then return some w
    else slotLoop stop ws

/-- The loops over the slots, from the one with number `h`. -/
def firstSlot (table : List (HashTableEntry κ ν)) (h : Nat)
    (stop : HashTableEntry κ ν → Except Fault Bool) : Except Fault (Option Nat) :=
  slotLoop (fun w => stop (table.getD w (nullEntry t))) (Probe.order table.length h)

/-- One old slot is moved. A loop that finds no empty slot ends at the last
one it looked at. -/
def rehashEntry (table : List (HashTableEntry κ ν)) (old : HashTableEntry κ ν) :
    Except Fault (List (HashTableEntry κ ν)) := do
  let h := (← t.hashFun old.key) % table.length
  let last := (h + (table.length - 1)) % table.length
  let w ← firstSlot t table h fun e => .ok (e.state = .empty)
  return table.set (w.getD last) ⟨old.key, old.value, .occupied⟩

/-- `hash_table_rehash`. -/
def hashTableRehash (ht : HashTable κ ν) : Except Fault (HashTable κ ν) := do
  let table ← ht.table.foldlM (rehashEntry t) (List.replicate (2 * ht.size) (nullEntry t))
  return { ht with table }

/-- `hash_table_must_rehash`. -/
def hashTableMustRehash (ht : HashTable κ ν) : Bool := 23 * ht.keyCount > 16 * ht.size

/-- `hash_table_check_overflow`. -/
def hashTableCheckOverflow (ht : HashTable κ ν) : Except Fault (HashTable κ ν) :=
  if hashTableMustRehash ht then hashTableRehash t ht else .ok ht

/-- Where an insertion ends its loop. -/
def insertStops (key : κ) (e : HashTableEntry κ ν) : Except Fault Bool :=
  if e.state ≠ .occupied then .ok true else t.equalFun e.key key

/-- The assertion says that there was a slot. -/
def hashTableInsert (ht : HashTable κ ν) (key : κ) (value : Option ν) :
    Except Fault (HashTable κ ν) := do
  let ht ← hashTableCheckOverflow t ht
  let h := (← t.hashFun key) % ht.size
  match ← firstSlot t ht.table h (insertStops t key) with
  | none => .error .assertFailed
  | some w => return ⟨ht.table.set w ⟨key, value, .occupied⟩, ht.keyCount + 1⟩

/-- Where a search ends its loop: at an empty slot it has failed. -/
def lookupStops (key : κ) (e : HashTableEntry κ ν) : Except Fault Bool :=
  if e.state = .empty then .ok true
  else if e.state = .removed then .ok false
  else t.equalFun e.key key

/-- `lookup_entry`; `none` is NULL. -/
def lookupEntry (ht : HashTable κ ν) (key : κ) : Except Fault (Option Nat) := do
  let h := (← t.hashFun key) % ht.size
  match ← firstSlot t ht.table h (lookupStops t key) with
  | none => return none
  | some w => return if (ht.entry t w).state = .empty then none else some w

/-- `hash_table_search`. -/
def hashTableSearch (ht : HashTable κ ν) (key : κ) : Except Fault (Option ν) := do
  match ← lookupEntry t ht key with
  | none => return none
  | some w => return (ht.entry t w).value

/-- Whether there was such a key, and the table. -/
def hashTableRemove (ht : HashTable κ ν) (key : κ) : Except Fault (Bool × HashTable κ ν) := do
  match ← lookupEntry t ht key with
  | none => return (false, ht)
  | some w => return (true, ⟨ht.table.set w ⟨t.null, none, .removed⟩, ht.keyCount - 1⟩)

end Operations

end Keyed

end Armadito.Jrpc
