import Armadito.Jrpc.KeyedMap

/-!
# Jrpc.KeyedCalls

Sequences of insertions and removals on the tables of `Jrpc.KeyedHash`.
Whatever keys they have, no loop of the table runs around it in vain: an
insertion finds a slot, and so does every entry that a rehash moves.
`key_count` may be more than the number of keys, never less.
-/

namespace Armadito.Jrpc.Keyed

variable {κ ν : Type} {t : HashTableType κ} {hash : κ → Nat} {Ok : κ → Prop}

/-- A call of `hash_table_insert` or `hash_table_remove`; a value may be
NULL. -/
inductive Call (κ ν : Type) where
  | insert (key : κ) (value : Option ν)
  | remove (key : κ)
  deriving DecidableEq, Repr

/-- The key of a call. -/
def Call.key : Call κ ν → κ
  | .insert key _ => key
  | .remove key => key

/-- The table after a call, unless that ends the process. -/
def callStep (t : HashTableType κ) (ht : HashTable κ ν) (call : Call κ ν) :
    Option (HashTable κ ν) :=
  match call with
  | .insert key value => (hashTableInsert t ht key value).toOption
  | .remove key => ((hashTableRemove t ht key).map Prod.snd).toOption

variable [DecidableEq κ]

/-! ## The invariant of every sequence -/

theorem hashTableNew_inv : Inv t hash Ok (hashTableNew t : HashTable κ ν) :=
  hashTableNew_represents.inv

/-- **A removal** of a key finds its slot, or leaves the table alone. -/
theorem hashTableRemove_spec {ht : HashTable κ ν} (hl : t.Lawful hash Ok)
    (hinv : Inv t hash Ok ht) {key : κ} (hok : Ok key) (hkey : key ≠ t.null) :
    ∃ present ht', hashTableRemove t ht key = .ok (present, ht') ∧ Inv t hash Ok ht' := by
  obtain ⟨found, hlookup, hsome, -⟩ := lookupEntry_spec hl hinv hok
  cases found with
  | none =>
    refine ⟨false, ht, ?_, hinv⟩
    simp only [hashTableRemove, hlookup, bind, Except.bind]
    rfl
  | some w =>
    obtain ⟨hw, hocc, hk⟩ := hsome w rfl
    refine ⟨true, ⟨ht.table.set w ⟨t.null, none, .removed⟩, ht.keyCount - 1⟩, ?_,
      hinv.removed hw hocc (by rwa [hk])⟩
    simp only [hashTableRemove, hlookup, bind, Except.bind]
    rfl

theorem Inv.callStep (hl : t.Lawful hash Ok) (hnull : Ok t.null) {ht : HashTable κ ν}
    (hinv : Inv t hash Ok ht) {call : Call κ ν} (hok : Ok call.key)
    (hkey : call.key ≠ t.null) :
    ∃ ht', Keyed.callStep t ht call = some ht' ∧ Inv t hash Ok ht' := by
  cases call with
  | insert key value =>
    change Ok key at hok
    obtain ⟨ht', w, -, -, -, hinsert, hinv'⟩ :=
      hashTableInsert_spec hl hinv hok (fun _ => hnull) value
    refine ⟨_, ?_, hinv'⟩
    rw [Keyed.callStep, hinsert]
    rfl
  | remove key =>
    change Ok key at hok
    change key ≠ t.null at hkey
    obtain ⟨present, ht', hremove, hinv'⟩ := hashTableRemove_spec hl hinv hok hkey
    refine ⟨ht', ?_, hinv'⟩
    rw [Keyed.callStep, hremove]
    rfl

theorem Inv.calls (hl : t.Lawful hash Ok) (hnull : Ok t.null) (calls : List (Call κ ν))
    (hkeys : ∀ c ∈ calls, Ok c.key ∧ c.key ≠ t.null) :
    ∀ {ht : HashTable κ ν}, Inv t hash Ok ht →
      ∃ ht', Transition.run (Keyed.callStep t) ht calls = some ht' ∧ Inv t hash Ok ht' := by
  induction calls with
  | nil =>
    intro ht hinv
    exact ⟨ht, rfl, hinv⟩
  | cons call calls ih =>
    intro ht hinv
    obtain ⟨hok, hkey⟩ := hkeys call List.mem_cons_self
    obtain ⟨ht₁, hstep, hinv₁⟩ := hinv.callStep hl hnull hok hkey
    obtain ⟨ht', hrun, hinv'⟩ := ih (fun c hc => hkeys c (List.mem_cons_of_mem call hc)) hinv₁
    exact ⟨ht', Transition.run_cons_eq_some.mpr ⟨ht₁, hstep, hrun⟩, hinv'⟩

/-! ## What the loops find -/

/-- The loop of `hash_table_rehash` for an old slot, when those in front of
it have been moved, stops at an empty slot. -/
def MoveFindsSlot (t : HashTableType κ) (ht : HashTable κ ν)
    (done : List (HashTableEntry κ ν)) (old : HashTableEntry κ ν) : Prop :=
  ∃ table h w,
    done.foldlM (rehashEntry t) (List.replicate (2 * ht.size) (nullEntry t)) = .ok table ∧
      t.hashFun old.key = .ok h ∧
      firstSlot t table (h % table.length) (fun e => .ok (e.state = .empty)) = .ok (some w) ∧
      w < table.length ∧ (table.getD w (nullEntry t)).state = .empty

/-- The loop of `hash_table_insert`, after the overflow check, stops at a
slot that is not occupied or has an equal key. -/
def InsertFindsSlot (t : HashTableType κ) (ht : HashTable κ ν) (key : κ) : Prop :=
  ∃ ht' h w, hashTableCheckOverflow t ht = .ok ht' ∧ t.hashFun key = .ok h ∧
    firstSlot t ht'.table (h % ht'.size) (insertStops t key) = .ok (some w) ∧ w < ht'.size ∧
    ((ht'.entry t w).state ≠ .occupied ∨ (ht'.entry t w).key = key)

/-- What a further call with the key finds. -/
structure FindsSlots (t : HashTableType κ) (ht : HashTable κ ν) (key : κ) : Prop where
  insert : InsertFindsSlot t ht key
  rehash : hashTableMustRehash ht = true →
    ∀ done old rest, ht.table = done ++ old :: rest → MoveFindsSlot t ht done old
  remove : ∀ w, lookupEntry t ht key = .ok (some w) → 0 < ht.keyCount

theorem Inv.insertFindsSlot (hl : t.Lawful hash Ok) (hnull : Ok t.null) {ht : HashTable κ ν}
    (hinv : Inv t hash Ok ht) {key : κ} (hok : Ok key) : InsertFindsSlot t ht key := by
  obtain ⟨ht', hcheck, hinv', -, hload⟩ := hashTableCheckOverflow_spec hl hinv fun _ => hnull
  obtain ⟨w, htaken⟩ := hinv'.exists_takenSlot hload key
  obtain ⟨hw, hstop, -⟩ := htaken.spec
  exact ⟨ht', hash key, w, hcheck, hl.hashFun key hok,
    htaken.firstSlot_eq hl hinv'.usable hok, hw, hstop⟩

/-- An unused slot has the NULL key, which is moved like any other. -/
theorem Inv.ok_of_mem {ht : HashTable κ ν} (hinv : Inv t hash Ok ht) (hnull : Ok t.null) :
    ∀ e ∈ ht.table, Ok e.key := by
  intro e he
  by_cases hkey : e.key = t.null
  · rwa [hkey]
  · exact hinv.usable e he (hinv.occupied e he hkey)

theorem Inv.moveFindsSlot (hl : t.Lawful hash Ok) (hnull : Ok t.null) {ht : HashTable κ ν}
    (hinv : Inv t hash Ok ht) {done rest : List (HashTableEntry κ ν)}
    {old : HashTableEntry κ ν} (htable : ht.table = done ++ old :: rest) :
    MoveFindsSlot t ht done old := by
  have hok := hinv.ok_of_mem hnull
  have hlen : done.length < 2 * ht.size := by
    rw [HashTable.size, htable, List.length_append, List.length_cons]
    omega
  obtain ⟨table, hfold, hcopied⟩ :=
    Copied.foldl hl done (fun e he => hok e (by rw [htable]; simp [he]))
      (copied_replicate (2 * ht.size)) (by rw [List.length_nil]; omega)
  rw [List.nil_append] at hcopied
  obtain ⟨w, hfirst⟩ := hcopied.finds_empty hlen (hash old.key % table.length)
  obtain ⟨hw, hstop, -⟩ := Probe.first_eq_some hfirst
  refine ⟨table, hash old.key, w, hfold, hl.hashFun _ (hok old (by rw [htable]; simp)), ?_, hw,
    by simpa using hstop⟩
  rw [firstSlot_eq (p := fun e => e.state = .empty) fun _ _ => rfl, hfirst]

/-- A slot with a key has been counted. -/
theorem Inv.keyCount_pos {ht : HashTable κ ν} (hinv : Inv t hash Ok ht)
    {e : HashTableEntry κ ν} (he : e ∈ ht.table) (hkey : e.key ≠ t.null) :
    0 < ht.keyCount := by
  have hcount := hinv.count
  have hpos : 0 < ht.table.countP (fun e => e.key ≠ t.null) :=
    List.countP_pos_iff.mpr ⟨e, he, by simpa using hkey⟩
  omega

theorem Inv.findsSlots (hl : t.Lawful hash Ok) (hnull : Ok t.null) {ht : HashTable κ ν}
    (hinv : Inv t hash Ok ht) {key : κ} (hok : Ok key) (hkey : key ≠ t.null) :
    FindsSlots t ht key where
  insert := hinv.insertFindsSlot hl hnull hok
  rehash _ _ _ _ htable := hinv.moveFindsSlot hl hnull htable
  remove w hlookup := by
    obtain ⟨found, hlookup', hsome, -⟩ := lookupEntry_spec hl hinv hok
    rw [hlookup] at hlookup'
    cases hlookup'
    obtain ⟨hw, -, hk⟩ := hsome w rfl
    exact hinv.keyCount_pos ((layout t hash).slot_mem hw) (by
      show (ht.entry t w).key ≠ t.null
      rwa [hk])

/-- **The assertion of `hash_table_insert` holds.** After any insertions and
removals of keys that are not 0, none of which ends the process, a further
insertion finds a slot, every entry of a rehash is moved to an empty one,
and a removal finds `key_count` positive. -/
theorem calls_find_slots (calls : List (Call Nat ν)) (hkeys : ∀ c ∈ calls, c.key ≠ 0) :
    ∃ ht, Transition.run (callStep hashKeyInt) (hashTableNew hashKeyInt) calls = some ht ∧
      ∀ key, key ≠ 0 → FindsSlots hashKeyInt ht key := by
  obtain ⟨ht, hrun, hinv⟩ := Inv.calls hashKeyInt_lawful trivial calls
    (fun c hc => ⟨trivial, hkeys c hc⟩) hashTableNew_inv
  exact ⟨ht, hrun, fun key hkey => hinv.findsSlots hashKeyInt_lawful trivial trivial hkey⟩

/-- A fresh key, the same key again, and its removal. -/
theorem calls_find_slots_twice :
    ∃ ht : HashTable Nat Nat, Transition.run (callStep hashKeyInt) (hashTableNew hashKeyInt)
        [.insert 1 (some 10), .insert 1 (some 11), .insert 65 none, .remove 1] = some ht ∧
      ht.keyCount = 2 ∧ FindsSlots hashKeyInt ht 1 := by
  obtain ⟨ht, hrun, hfinds⟩ := calls_find_slots (ν := Nat)
    [.insert 1 (some 10), .insert 1 (some 11), .insert 65 none, .remove 1]
    (by simp [Call.key])
  refine ⟨ht, hrun, ?_, hfinds 1 (by decide)⟩
  have hcount : (Transition.run (callStep hashKeyInt) (hashTableNew hashKeyInt)
      ([.insert 1 (some 10), .insert 1 (some 11), .insert 65 none, .remove 1] :
        List (Call Nat Nat))).map HashTable.keyCount = some 2 := rfl
  rw [hrun] at hcount
  exact Option.some.inj hcount

end Armadito.Jrpc.Keyed
