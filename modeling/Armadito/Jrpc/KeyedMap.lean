import Mathlib.Logic.Function.Basic
import Armadito.Jrpc.KeyedTable
import Armadito.Lib.Run

/-!
# Jrpc.KeyedMap

When a hash table is a map. An insertion takes the first slot that is not
occupied, which may be a removed one before the slot of the same key: then
the key has two slots, and after a removal the older value is found again.
As long as no insertion does that, every operation answers as a map does.
-/

namespace Armadito.Jrpc.Keyed

variable {κ ν : Type} {t : HashTableType κ} {hash : κ → Nat} {Ok : κ → Prop}

/-! ## Operations -/

/-- A call on a table. -/
inductive Op (κ ν : Type) where
  | insert (key : κ) (value : ν)
  | remove (key : κ)
  | search (key : κ)

/-- The key of a call. -/
def Op.key : Op κ ν → κ
  | .insert key _ => key
  | .remove key => key
  | .search key => key

/-- What a call returns. -/
inductive Reply (ν : Type) where
  | inserted
  | removed (present : Bool)
  | found (value : Option ν)
  deriving DecidableEq, Repr

/-- A call on the table of the code. -/
def runOp (t : HashTableType κ) (ht : HashTable κ ν) : Op κ ν →
    Except Fault (HashTable κ ν × Reply ν)
  | .insert key value => do return (← hashTableInsert t ht key (some value), .inserted)
  | .remove key => do
    let (present, ht) ← hashTableRemove t ht key
    return (ht, .removed present)
  | .search key => do return (ht, .found (← hashTableSearch t ht key))

/-- The table after some operations, and what they replied. -/
def runOps (t : HashTableType κ) : HashTable κ ν → List (Op κ ν) →
    Except Fault (HashTable κ ν × List (Reply ν))
  | ht, [] => return (ht, [])
  | ht, op :: ops => do
    let (ht, reply) ← runOp t ht op
    let (ht, replies) ← runOps t ht ops
    return (ht, reply :: replies)

/-- The operations as steps of a run. -/
def step (t : HashTableType κ) (ht : HashTable κ ν) (op : Op κ ν) : Option (HashTable κ ν) :=
  match runOp t ht op with
  | .ok (ht, _) => some ht
  | .error _ => none

/-! ## What a map replies -/

section Map

variable [DecidableEq κ]

/-- The value of the latest insertion of the key that no removal follows;
`past` has the latest operation first. -/
def latest : List (Op κ ν) → κ → Option ν
  | [], _ => none
  | .insert key value :: past, k => if k = key then some value else latest past k
  | .remove key :: past, k => if k = key then none else latest past k
  | .search _ :: past, k => latest past k

/-- What the call returns on a map. -/
def mapReply (past : List (Op κ ν)) : Op κ ν → Reply ν
  | .insert _ _ => .inserted
  | .remove key => .removed (latest past key).isSome
  | .search key => .found (latest past key)

/-- What the calls return on a map, one after the other. -/
def mapReplies (past : List (Op κ ν)) : List (Op κ ν) → List (Reply ν)
  | [] => []
  | op :: ops => mapReply past op :: mapReplies (op :: past) ops

end Map

/-- Unless a rehash is due, no removed slot lies before the slot of the key
on the way from its home. -/
def InPlace (t : HashTableType κ) (ht : HashTable κ ν) (key : κ) : Prop :=
  hashTableMustRehash ht = false → ∀ h, t.hashFun key = .ok h →
    ∀ before w after, Probe.order ht.size (h % ht.size) = before ++ w :: after →
      (ht.entry t w).key = key → ∀ u ∈ before, (ht.entry t u).state ≠ .removed

/-- Insertions are in place; nothing is asked of the other operations. -/
def OpInPlace (t : HashTableType κ) (ht : HashTable κ ν) : Op κ ν → Prop
  | .insert key _ => InPlace t ht key
  | .remove _ => True
  | .search _ => True

/-- No slot has the key. -/
theorem inPlace_of_absent {ht : HashTable κ ν} {key : κ}
    (habsent : ∀ e ∈ ht.table, e.key ≠ key) : InPlace t ht key := by
  intro _ h _ before w after horder hw
  have hmem : w ∈ Probe.order ht.size (h % ht.size) := by
    rw [horder]
    exact List.mem_append_right _ List.mem_cons_self
  have hlt : w < ht.table.length := Probe.lt_of_mem_order hmem
  rw [HashTable.entry, List.getD_eq_getElem _ _ hlt] at hw
  exact absurd hw (habsent _ (List.getElem_mem hlt))

/-- The slots in the order of the probes are tested one by one. -/
instance InPlace.decidable [DecidableEq κ] (ht : HashTable κ ν) (key : κ) :
    Decidable (InPlace t ht key) :=
  match hhash : t.hashFun key with
  | .error _ => .isTrue fun _ h hh => by
    rw [hhash] at hh
    cases hh
  | .ok h =>
    decidable_of_iff (hashTableMustRehash ht = false →
        ∀ i (hi : i < (Probe.order ht.size (h % ht.size)).length),
          (ht.entry t (Probe.order ht.size (h % ht.size))[i]).key = key →
            ∀ u ∈ (Probe.order ht.size (h % ht.size)).take i, (ht.entry t u).state ≠ .removed) <| by
      constructor
      · intro htests hmust h' hh' before w after horder hw u hu
        obtain rfl : h = h' := Except.ok.inj (hhash.symm.trans hh')
        refine htests hmust before.length (by simp [horder]) (by simpa [horder] using hw) u ?_
        rwa [horder, List.take_left]
      · intro hplace hmust i hi hkey
        refine hplace hmust h hhash _ _ ((Probe.order ht.size (h % ht.size)).drop (i + 1)) ?_ hkey
        rw [← List.drop_eq_getElem_cons, List.take_append_drop]

instance OpInPlace.decidable [DecidableEq κ] (ht : HashTable κ ν) :
    ∀ op : Op κ ν, Decidable (OpInPlace t ht op)
  | .insert key _ => InPlace.decidable ht key
  | .remove _ => .isTrue trivial
  | .search _ => .isTrue trivial

/-! ## Tables that stand for maps -/

variable [DecidableEq κ]

/-- A table that stands for a map. -/
structure Represents (t : HashTableType κ) (hash : κ → Nat) (Ok : κ → Prop)
    (ht : HashTable κ ν) (m : κ → Option ν) : Prop where
  inv : Inv t hash Ok ht
  distinct : ((layout t hash).keys ht.table).Nodup
  value : ∀ e ∈ ht.table, e.key ≠ t.null → e.value ≠ none
  map : ∀ k, k ≠ t.null → ((layout t hash).find ht.table k).bind (·.value) = m k

variable {ht : HashTable κ ν} {m : κ → Option ν} {key : κ}

/-- A lookup finds the slot that the map has. -/
theorem Represents.lookup (h : Represents t hash Ok ht m) (hl : t.Lawful hash Ok)
    (hok : Ok key) (hkey : key ≠ t.null) :
    ∃ found, lookupEntry t ht key = .ok found ∧
      found.map (ht.entry t) = (layout t hash).find ht.table key ∧
      ∀ w, found = some w → w < ht.table.length ∧ (ht.entry t w).state = .occupied ∧
        (ht.entry t w).key = key := by
  obtain ⟨found, hlookup, hsome, hnone⟩ := lookupEntry_spec hl h.inv hok
  refine ⟨found, hlookup, ?_, hsome⟩
  cases found with
  | some w =>
    obtain ⟨hw, -, hk⟩ := hsome w rfl
    rw [Option.map_some, eq_comm, Probe.Layout.find_eq_some h.distinct, layout_key_eq_some]
    exact ⟨(layout t hash).slot_mem hw, by rwa [hk], hk⟩
  | none =>
    rw [Option.map_none, eq_comm, Probe.Layout.find_eq_none]
    intro e he hek
    exact hnone hkey ⟨e, he, (layout_key_eq_some.mp hek).2⟩ rfl

/-- What the map has of a key says whether the key is in the table. -/
theorem Represents.isSome (h : Represents t hash Ok ht m) (hkey : key ≠ t.null) :
    ((layout t hash).find ht.table key).isSome = (m key).isSome := by
  rw [← h.map key hkey]
  cases hfind : (layout t hash).find ht.table key with
  | none => rfl
  | some e =>
    obtain ⟨he, hek⟩ := (Probe.Layout.find_eq_some h.distinct).mp hfind
    obtain ⟨v, hv⟩ := Option.ne_none_iff_exists'.mp
      (h.value e he (layout_key_eq_some.mp hek).1)
    rw [Option.bind_some, hv]
    rfl

theorem Represents.search (h : Represents t hash Ok ht m) (hl : t.Lawful hash Ok)
    (hok : Ok key) (hkey : key ≠ t.null) : hashTableSearch t ht key = .ok (m key) := by
  obtain ⟨found, hlookup, hfind, -⟩ := h.lookup hl hok hkey
  rw [← h.map key hkey, ← hfind]
  simp only [hashTableSearch, hlookup, bind, Except.bind]
  cases found <;> rfl

theorem Represents.remove (h : Represents t hash Ok ht m) (hl : t.Lawful hash Ok)
    (hok : Ok key) (hkey : key ≠ t.null) :
    ∃ ht', hashTableRemove t ht key = .ok ((m key).isSome, ht') ∧
      Represents t hash Ok ht' (Function.update m key none) := by
  obtain ⟨found, hlookup, hfind, hsome⟩ := h.lookup hl hok hkey
  have hpresent := h.isSome hkey
  rw [← hfind] at hpresent
  cases found with
  | none =>
    refine ⟨ht, ?_, ?_⟩
    · rw [← hpresent]
      simp only [hashTableRemove, hlookup, bind, Except.bind]
      rfl
    · have hm : m key = none := by
        rw [Option.map_none] at hpresent
        exact Option.isNone_iff_eq_none.mp (by simpa using hpresent.symm)
      rwa [← hm, Function.update_eq_self]
  | some w =>
    obtain ⟨hw, hocc, hk⟩ := hsome w rfl
    have hslot : (layout t hash).key ((layout t hash).slot ht.table w) = some key :=
      layout_key_eq_some.mpr ⟨by rwa [← hk] at hkey, hk⟩
    have hdistinct : ((layout t hash).keys
        (ht.table.set w ⟨t.null, none, .removed⟩)).Nodup := by
      refine Probe.Layout.nodup_set h.distinct hw fun k hk' => ?_
      rw [layout_key_null _ rfl] at hk'
      cases hk'
    refine ⟨⟨ht.table.set w ⟨t.null, none, .removed⟩, ht.keyCount - 1⟩, ?_,
      h.inv.removed hw hocc (by rwa [hk]), hdistinct, ?_, ?_⟩
    · rw [← hpresent]
      simp only [hashTableRemove, hlookup, bind, Except.bind]
      rfl
    · intro e he hne
      rcases List.mem_or_eq_of_mem_set he with he | rfl
      · exact h.value e he hne
      · exact absurd rfl hne
    · intro k hne
      -- the emptied slot was the only one with the key
      rw [Probe.Layout.find_set h.distinct hw hdistinct, layout_key_null _ rfl, hslot,
        Function.update_apply, if_neg (by simp)]
      by_cases hk' : k = key
      · rw [if_pos hk', if_pos (congrArg some hk'.symm)]
        rfl
      · rw [if_neg hk', if_neg (fun heq => hk' (Option.some.inj heq).symm)]
        exact h.map k hne

/-- What the map has of the NULL key does not matter. -/
theorem Represents.congr (h : Represents t hash Ok ht m) {m' : κ → Option ν}
    (hm : ∀ k, k ≠ t.null → m k = m' k) : Represents t hash Ok ht m' :=
  ⟨h.inv, h.distinct, h.value, fun k hk => (h.map k hk).trans (hm k hk)⟩

/-- The check before an insertion keeps the map. -/
theorem Represents.checked (h : Represents t hash Ok ht m) {ht' : HashTable κ ν}
    (hchecked : Checked t hash ht ht') (hinv : Inv t hash Ok ht') :
    Represents t hash Ok ht' m := by
  cases hchecked with
  | same _ => exact h
  | rehashed hmust hcount hcopied =>
    refine ⟨hinv, hcopied.keys.nodup_iff.mpr h.distinct, ?_, ?_⟩
    · intro e he hne
      obtain ⟨old, hold, rfl⟩ := hcopied.mem he (by
        rw [hinv.occupied e he hne]
        decide)
      exact h.value old hold hne
    · intro k hk
      rw [hcopied.find h.distinct, ← h.map k hk, Option.bind_map]
      rfl

/-- In place, no removed slot lies before the one of the key, also after the
check. -/
theorem Checked.not_removed_before (hl : t.Lawful hash Ok) (hok : Ok key)
    (hplace : InPlace t ht key) {ht' : HashTable κ ν} (hchecked : Checked t hash ht ht')
    {before after : List Nat} {u : Nat}
    (horder : Probe.order ht'.table.length (hash key % ht'.table.length) = before ++ u :: after)
    (hu : (ht'.entry t u).key = key) : ∀ x ∈ before, (ht'.entry t x).state ≠ .removed := by
  cases hchecked with
  | same hmust => exact hplace hmust (hash key) (hl.hashFun key hok) before u after horder hu
  | rehashed _ _ hcopied =>
    -- a copied table has no removed slot
    intro x hx hremoved
    have hxlt : x < ht'.table.length := by
      have hmem : x ∈ Probe.order ht'.table.length (hash key % ht'.table.length) := by
        rw [horder]
        exact List.mem_append_left _ hx
      exact Probe.lt_of_mem_order hmem
    obtain ⟨old, -, hmoved⟩ := hcopied.mem ((layout t hash).slot_mem hxlt) (by
      show (ht'.entry t x).state ≠ .empty
      rw [hremoved]
      decide)
    have hocc : (ht'.entry t x).state = .occupied := congrArg (·.state) hmoved.symm
    rw [hremoved] at hocc
    cases hocc

/-- In place, an insertion does not pass over the slot of its key. -/
theorem Represents.taken (h : Represents t hash Ok ht m) (hl : t.Lawful hash Ok)
    (hok : Ok key) (hkey : key ≠ t.null) (hplace : InPlace t ht key) {ht' : HashTable κ ν}
    (hchecked : Checked t hash ht ht') (hinv : Inv t hash Ok ht') {w : Nat}
    (htaken : TakenSlot t hash ht'.table key w) {f : HashTableEntry κ ν} (hf : f ∈ ht'.table)
    (hfk : f.key = key) : f = ht'.entry t w := by
  have hdistinct := (h.checked hchecked hinv).distinct
  obtain ⟨u, hu, hslot⟩ := (layout t hash).exists_slot hf
  have hfu : ht'.entry t u = f := hslot
  obtain ⟨before, after, horder, hbusy⟩ :=
    hinv.reached u hu key (layout_key_eq_some.mpr ⟨by rw [hslot, hfk]; exact hkey,
      by rw [hslot, hfk]⟩)
  have hfirst : (before ++ u :: after).find? (fun w => (ht'.entry t w).state ≠ .occupied ||
      (ht'.entry t w).key = key) = some w := by
    rw [← horder]
    exact htaken
  rw [List.find?_append] at hfirst
  cases hfind : before.find? (fun w => (ht'.entry t w).state ≠ .occupied ||
      (ht'.entry t w).key = key) with
  | none =>
    rw [hfind, Option.none_or, List.find?_cons_of_pos (by simp [hfu, hfk])] at hfirst
    cases hfirst
    exact hfu.symm
  | some x =>
    rw [hfind, Option.some_or] at hfirst
    cases hfirst
    have hx := List.mem_of_find?_eq_some hfind
    have hstop : (ht'.entry t w).state ≠ .occupied ∨ (ht'.entry t w).key = key := by
      simpa using List.find?_some hfind
    have hxbusy : (ht'.entry t w).state ≠ .empty := hbusy w hx
    have hxk : (ht'.entry t w).key = key := by
      refine hstop.resolve_left fun hfree => ?_
      have hnot := hchecked.not_removed_before hl hok hplace horder (by rw [hfu, hfk]) w hx
      cases hstate : (ht'.entry t w).state with
      | empty => exact hxbusy hstate
      | removed => exact hnot hstate
      | occupied => exact hfree hstate
    have hw : w < ht'.table.length := htaken.spec.1
    exact Probe.Layout.eq_of_key hdistinct hf ((layout t hash).slot_mem hw)
      (layout_key_eq_some.mpr ⟨by rwa [hfk], hfk⟩)
      (layout_key_eq_some.mpr ⟨fun hnil => hkey (hxk.symm.trans hnil), hxk⟩)

/-- The slot that is taken held no key but the one that is inserted. -/
theorem TakenSlot.key_eq {table : List (HashTableEntry κ ν)} {w : Nat}
    (htaken : TakenSlot t hash table key w)
    (hoccupied : ∀ e ∈ table, e.key ≠ t.null → e.state = .occupied) {k : κ}
    (hslot : (layout t hash).key ((layout t hash).slot table w) = some k) :
    k ≠ t.null ∧ k = key := by
  obtain ⟨hw, hstop, -⟩ := htaken.spec
  obtain ⟨hkeyed, hwk⟩ := layout_key_eq_some.mp hslot
  have hstate := hoccupied _ ((layout t hash).slot_mem hw) hkeyed
  have hwkey := hstop.resolve_left fun hfree => hfree hstate
  exact ⟨hwk ▸ hkeyed, hwk.symm.trans hwkey⟩

theorem Represents.insert (h : Represents t hash Ok ht m) (hl : t.Lawful hash Ok)
    (hok : Ok key) (hkey : key ≠ t.null)
    (hnull : hashTableMustRehash ht = true → Ok t.null) (hplace : InPlace t ht key)
    (value : ν) :
    ∃ ht' w, Checked t hash ht ht' ∧ w < ht'.table.length ∧
      hashTableInsert t ht key (some value) =
        .ok ⟨ht'.table.set w ⟨key, some value, .occupied⟩, ht'.keyCount + 1⟩ ∧
      Represents t hash Ok ⟨ht'.table.set w ⟨key, some value, .occupied⟩, ht'.keyCount + 1⟩
        (Function.update m key (some value)) := by
  obtain ⟨ht', w, hchecked, hinv, htaken, hinsert, hinv'⟩ :=
    hashTableInsert_spec hl h.inv hok hnull (some value)
  have h' := h.checked hchecked hinv
  have hw := htaken.spec.1
  have hnew : (layout t hash).key (⟨key, some value, .occupied⟩ : HashTableEntry κ ν) =
      some key := layout_key_eq_some.mpr ⟨hkey, rfl⟩
  have hdistinct : ((layout t hash).keys
      (ht'.table.set w ⟨key, some value, .occupied⟩)).Nodup := by
    refine Probe.Layout.nodup_set h'.distinct hw fun k hk f hf hfk => ?_
    rw [hnew] at hk
    cases hk
    exact h.taken hl hok hkey hplace hchecked hinv htaken hf (layout_key_eq_some.mp hfk).2
  refine ⟨ht', w, hchecked, hw, hinsert, hinv', hdistinct, ?_, ?_⟩
  · intro e he hne
    rcases List.mem_or_eq_of_mem_set he with he | rfl
    · exact h'.value e he hne
    · exact Option.some_ne_none value
  · intro k hne
    rw [Probe.Layout.find_set h'.distinct hw hdistinct, hnew, Function.update_apply]
    by_cases hk : k = key
    · rw [if_pos (congrArg some hk.symm), if_pos hk]
      rfl
    · have hold : (layout t hash).key ((layout t hash).slot ht'.table w) ≠ some k :=
        fun hslot => hk (htaken.key_eq hinv.occupied hslot).2
      rw [if_neg (fun heq => hk (Option.some.inj heq).symm), if_neg hold, if_neg hk]
      exact h'.map k hne

/-- The NULL key can be inserted as well. No lookup depends on it. -/
theorem Represents.insert_null (h : Represents t hash Ok ht m) (hl : t.Lawful hash Ok)
    (hnull : Ok t.null) (value : ν) :
    ∃ ht' w, Checked t hash ht ht' ∧
      hashTableInsert t ht t.null (some value) =
        .ok ⟨ht'.table.set w ⟨t.null, some value, .occupied⟩, ht'.keyCount + 1⟩ ∧
      Represents t hash Ok ⟨ht'.table.set w ⟨t.null, some value, .occupied⟩,
        ht'.keyCount + 1⟩ m := by
  obtain ⟨ht', w, hchecked, hinv, htaken, hinsert, hinv'⟩ :=
    hashTableInsert_spec hl h.inv hnull (fun _ => hnull) (some value)
  have h' := h.checked hchecked hinv
  have hw := htaken.spec.1
  have hnew : (layout t hash).key (⟨t.null, some value, .occupied⟩ : HashTableEntry κ ν) =
      none := layout_key_null _ rfl
  have hdistinct : ((layout t hash).keys
      (ht'.table.set w ⟨t.null, some value, .occupied⟩)).Nodup :=
    Probe.Layout.nodup_set h'.distinct hw fun k hk => by rw [hnew] at hk; cases hk
  refine ⟨ht', w, hchecked, hinsert, hinv', hdistinct, ?_, ?_⟩
  · intro e he hne
    rcases List.mem_or_eq_of_mem_set he with he | rfl
    · exact h'.value e he hne
    · exact absurd rfl hne
  · intro k hne
    have hold : (layout t hash).key ((layout t hash).slot ht'.table w) ≠ some k := by
      intro hslot
      obtain ⟨hne', heq⟩ := htaken.key_eq hinv.occupied hslot
      exact hne' heq
    rw [Probe.Layout.find_set h'.distinct hw hdistinct, hnew, if_neg (by simp), if_neg hold]
    exact h'.map k hne

/-! ## Tables from which nothing is removed -/

/-- Nothing was removed since the last rehash. -/
def NoneRemoved (ht : HashTable κ ν) : Prop := ∀ e ∈ ht.table, e.state ≠ .removed

omit [DecidableEq κ] in
theorem hashTableNew_noneRemoved : NoneRemoved (hashTableNew t : HashTable κ ν) := by
  intro e he
  rw [List.eq_of_mem_replicate he]
  exact fun hremoved => by cases hremoved

/-- Then every insertion is in place. -/
theorem NoneRemoved.inPlace (h : NoneRemoved ht) (key : κ) : InPlace t ht key := by
  intro _ hash _ before w after horder _ u hu
  have hmem : u ∈ Probe.order ht.size (hash % ht.size) := by
    rw [horder]
    exact List.mem_append_left _ hu
  exact h _ ((layout t fun _ => hash).slot_mem (Probe.lt_of_mem_order hmem))

theorem NoneRemoved.inserted (h : NoneRemoved ht) {ht' : HashTable κ ν}
    (hchecked : Checked t hash ht ht') (w : Nat) (value : Option ν) (count : Nat) :
    NoneRemoved ⟨ht'.table.set w ⟨key, value, .occupied⟩, count⟩ := by
  intro e he
  rcases List.mem_or_eq_of_mem_set he with he | rfl
  · cases hchecked with
    | same _ => exact h e he
    | rehashed _ _ hcopied =>
      intro hremoved
      obtain ⟨old, -, rfl⟩ := hcopied.mem he (by rw [hremoved]; decide)
      cases hremoved
  · exact fun hremoved => by cases hremoved

/-! ## One operation, every run -/

theorem hashTableNew_represents :
    Represents t hash Ok (hashTableNew t : HashTable κ ν) fun _ => none := by
  have hmem : ∀ e ∈ (hashTableNew t : HashTable κ ν).table, e = nullEntry t :=
    fun e he => List.eq_of_mem_replicate he
  have hnull : ∀ e ∈ (hashTableNew t : HashTable κ ν).table, e.key = t.null := by
    intro e he
    rw [hmem e he]
    rfl
  have hcount : (hashTableNew t : HashTable κ ν).table.countP (fun e => e.key ≠ t.null) = 0 :=
    List.countP_eq_zero.mpr fun e he => by simp [hnull e he]
  have hused : (hashTableNew t : HashTable κ ν).table.countP
      (fun e => e.state = .occupied) = 0 :=
    List.countP_eq_zero.mpr fun e he => by simp [hmem e he, nullEntry]
  have hkeys : (layout t hash).keys (hashTableNew t : HashTable κ ν).table = [] := by
    rw [← List.length_eq_zero_iff, length_keys, hcount]
  refine ⟨⟨Nat.le_refl 64, ?_, ?_, ?_, ?_, ?_, Nat.zero_le _⟩, ?_, ?_, ?_⟩
  · exact fun e he hne => absurd (hnull e he) hne
  · intro e he hocc
    rw [hmem e he] at hocc
    cases hocc
  · exact Probe.Layout.reached_replicate (layout_key_null _ rfl) 64
  · exact Nat.le_of_eq hcount
  · rw [hused]
    exact Nat.zero_le _
  · rw [hkeys]
    exact List.nodup_nil
  · exact fun e he hne => absurd (hnull e he) hne
  · intro k _
    have hnone : (layout t hash).find (hashTableNew t : HashTable κ ν).table k = none := by
      rw [Probe.Layout.find_eq_none]
      intro e he
      rw [layout_key_null e (hnull e he)]
      exact (Option.some_ne_none k).symm
    rw [hnone]
    rfl

theorem latest_insert (past : List (Op κ ν)) (key : κ) (value : ν) :
    latest (.insert key value :: past) = Function.update (latest past) key (some value) := by
  funext k
  rw [latest, Function.update_apply]

theorem latest_remove (past : List (Op κ ν)) (key : κ) :
    latest (.remove key :: past) = Function.update (latest past) key none := by
  funext k
  rw [latest, Function.update_apply]

/-- One operation replies as the map of the past does. -/
theorem Represents.op {past : List (Op κ ν)} (h : Represents t hash Ok ht (latest past))
    (hl : t.Lawful hash Ok) (hnull : Ok t.null) {op : Op κ ν} (hok : Ok op.key)
    (hkey : op.key ≠ t.null) (hplace : OpInPlace t ht op) :
    ∃ ht', runOp t ht op = .ok (ht', mapReply past op) ∧
      Represents t hash Ok ht' (latest (op :: past)) := by
  cases op with
  | insert key value =>
    simp only [Op.key] at hok hkey
    obtain ⟨ht', w, -, -, hinsert, h'⟩ := h.insert hl hok hkey (fun _ => hnull) hplace value
    refine ⟨_, ?_, by rwa [latest_insert]⟩
    rw [runOp, hinsert]
    rfl
  | remove key =>
    simp only [Op.key] at hok hkey
    obtain ⟨ht', hremove, h'⟩ := h.remove hl hok hkey
    refine ⟨ht', ?_, by rwa [latest_remove]⟩
    rw [runOp, hremove]
    rfl
  | search key =>
    simp only [Op.key] at hok hkey
    refine ⟨ht, ?_, h⟩
    rw [runOp, h.search hl hok hkey]
    rfl

theorem Represents.ops (hl : t.Lawful hash Ok) (hnull : Ok t.null) (ops : List (Op κ ν)) :
    ∀ {past : List (Op κ ν)} {ht : HashTable κ ν}, Represents t hash Ok ht (latest past) →
      (∀ op ∈ ops, Ok op.key ∧ op.key ≠ t.null) →
      Transition.AllSteps (step t) (OpInPlace t) ht ops →
      ∃ ht', runOps t ht ops = .ok (ht', mapReplies past ops) := by
  induction ops with
  | nil =>
    intro past ht _ _ _
    exact ⟨ht, rfl⟩
  | cons op ops ih =>
    intro past ht h hkeys hall
    obtain ⟨hok, hkey⟩ := hkeys op List.mem_cons_self
    obtain ⟨ht₁, hop, h₁⟩ := h.op hl hnull hok hkey hall.1
    have hstep : step t ht op = some ht₁ := by rw [step, hop]
    obtain ⟨ht', hops⟩ := ih h₁ (fun o ho => hkeys o (List.mem_cons_of_mem _ ho))
      (hall.2 ht₁ hstep)
    refine ⟨ht', ?_⟩
    rw [runOps, hop]
    simp only [bind, Except.bind, hops]
    rfl

theorem hashKeyInt_lawful : hashKeyInt.Lawful himult64 fun _ => True :=
  ⟨fun _ _ => rfl, fun _ _ _ _ => rfl⟩

theorem hashKeyPtr_lawful :
    hashKeyPtr.Lawful (fun p => (fmix64 (UInt64.ofNat p)).toNat) fun _ => True :=
  ⟨fun _ _ => rfl, fun _ _ _ _ => rfl⟩

/-- The hash of a string key, on the keys that have one. -/
def strHash : Option CString → Nat
  | some s => (pjw32 s).toNat
  | none => 0

theorem hashKeyStr_lawful : hashKeyStr.Lawful strHash (· ≠ none) where
  hashFun := by
    intro k hk
    cases k with
    | none => exact absurd rfl hk
    | some s => rfl
  equalFun := by
    intro k1 k2 hk1 hk2
    cases k1 with
    | none => exact absurd rfl hk1
    | some s1 =>
      cases k2 with
      | none => exact absurd rfl hk2
      | some s2 => simp [hashKeyStr]

/-- Only the keys that are accepted can be hashed. -/
def HashTableType.Decides (t : HashTableType κ) (Ok : κ → Prop) : Prop :=
  ∀ k h, t.hashFun k = .ok h → Ok k

theorem hashKeyStr_decides : hashKeyStr.Decides (· ≠ none) := by
  intro k h hhash hnone
  rw [hnone] at hhash
  cases hhash

/-- **A table with integer or pointer keys is a map** in every run whose
insertions are in place. -/
theorem runOps_map {t : HashTableType Nat} (ht : t = hashKeyInt ∨ t = hashKeyPtr)
    {ops : List (Op Nat ν)} (hkeys : ∀ op ∈ ops, op.key ≠ 0)
    (hplace : Transition.AllSteps (step t) (OpInPlace t) (hashTableNew t) ops) :
    ∃ ht', runOps t (hashTableNew t) ops = .ok (ht', mapReplies [] ops) := by
  have hnew : latest ([] : List (Op Nat ν)) = fun _ => none := rfl
  rcases ht with rfl | rfl
  · exact Represents.ops hashKeyInt_lawful trivial ops (hnew ▸ hashTableNew_represents)
      (fun op hop => ⟨trivial, hkeys op hop⟩) hplace
  · exact Represents.ops hashKeyPtr_lawful trivial ops (hnew ▸ hashTableNew_represents)
      (fun op hop => ⟨trivial, hkeys op hop⟩) hplace

/-- The keys 1 and 65 hash to one slot. The value of 65 is replaced while 1 is
there, and 1 is inserted again after it was removed. -/
theorem runOps_map_colliding :
    ∃ ht' : HashTable Nat Nat,
      runOps hashKeyInt (hashTableNew hashKeyInt)
          [.insert 1 10, .insert 65 20, .insert 65 21, .remove 1, .search 65, .insert 1 11,
            .search 1, .remove 65, .search 65, .insert 65 22, .search 65] =
        .ok (ht', [.inserted, .inserted, .inserted, .removed true, .found (some 21), .inserted,
          .found (some 11), .removed true, .found none, .inserted, .found (some 22)]) :=
  runOps_map (.inl rfl) (by simp [Op.key]) (by decide +kernel)

/-- The second insertion of 65 takes the slot that 1 has left, and its older
value comes back when 65 is removed. -/
theorem removed_key_found :
    ∃ ht' : HashTable Nat Nat,
      runOps hashKeyInt (hashTableNew hashKeyInt)
          [.insert 1 10, .insert 65 20, .remove 1, .insert 65 21, .remove 65, .search 65] =
        .ok (ht', [.inserted, .inserted, .removed true, .inserted, .removed true,
          .found (some 20)]) ∧
      mapReplies [] ([.insert 1 10, .insert 65 20, .remove 1, .insert 65 21, .remove 65,
          .search 65] : List (Op Nat Nat)) =
        [.inserted, .inserted, .removed true, .inserted, .removed true, .found none] :=
  ⟨_, rfl, rfl⟩

end Armadito.Jrpc.Keyed
