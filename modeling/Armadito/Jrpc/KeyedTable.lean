import Mathlib.Data.List.Perm.Basic
import Armadito.Jrpc.KeyedHash
import Armadito.Lib.ProbeTable

/-!
# Jrpc.KeyedTable

What every table of `Jrpc.KeyedHash` keeps, whatever is inserted and removed:
a key is reached from the slot it hashes to, and there is room. The keys may
repeat. `Ok` are the keys that the hash function and the comparison accept.
-/

namespace Armadito.Jrpc.Keyed

variable {κ ν : Type} {t : HashTableType κ} {hash : κ → Nat} {Ok : κ → Prop}

/-! ## Loops that do not fail -/

theorem slotLoop_eq {stop : Nat → Except Fault Bool} {p : Nat → Bool} {ws : List Nat}
    (h : ∀ w ∈ ws, stop w = .ok (p w)) : slotLoop stop ws = .ok (ws.find? p) := by
  induction ws with
  | nil => rfl
  | cons w ws ih =>
    rw [slotLoop, h w List.mem_cons_self, List.find?_cons]
    cases hp : p w with
    | true => rfl
    | false => exact ih fun u hu => h u (List.mem_cons_of_mem w hu)

theorem firstSlot_eq {table : List (HashTableEntry κ ν)}
    {stop : HashTableEntry κ ν → Except Fault Bool} {p : HashTableEntry κ ν → Bool}
    (h : ∀ e ∈ table, stop e = .ok (p e)) (start : Nat) :
    firstSlot t table start stop =
      .ok (Probe.first table.length start fun w => p (table.getD w (nullEntry t))) := by
  refine slotLoop_eq fun w hw => h _ ?_
  rw [List.getD_eq_getElem _ _ (Probe.lt_of_mem_order hw)]
  exact List.getElem_mem _

/-! ## The invariant -/

/-- The hash function and the comparison on the keys they accept. -/
structure HashTableType.Lawful (t : HashTableType κ) [DecidableEq κ] (hash : κ → Nat)
    (Ok : κ → Prop) : Prop where
  hashFun : ∀ k, Ok k → t.hashFun k = .ok (hash k)
  equalFun : ∀ k1 k2, Ok k1 → Ok k2 → t.equalFun k1 k2 = .ok (decide (k1 = k2))

variable [DecidableEq κ]

/-- The table as a probed one: an entry has a key unless it is NULL. -/
def layout (t : HashTableType κ) (hash : κ → Nat) : Probe.Layout (HashTableEntry κ ν) κ where
  blank := nullEntry t
  key := fun e => if e.key = t.null then none else some e.key
  busy := fun e => e.state ≠ .empty
  home := hash

/-- Room is left because a rehash, which makes all old slots occupied, comes
when there were many keys. -/
structure Inv (t : HashTableType κ) (hash : κ → Nat) (Ok : κ → Prop) (ht : HashTable κ ν) :
    Prop where
  size : 64 ≤ ht.size
  occupied : ∀ e ∈ ht.table, e.key ≠ t.null → e.state = .occupied
  usable : ∀ e ∈ ht.table, e.state = .occupied → Ok e.key
  reached : (layout t hash).Reached ht.table
  count : ht.table.countP (fun e => e.key ≠ t.null) ≤ ht.keyCount
  used : 46 * ht.table.countP (fun e => e.state = .occupied) ≤ 7 * ht.size + 46 * ht.keyCount
  load : 23 * ht.keyCount ≤ 16 * ht.size + 23

/-- The part of the invariant that does not count: searches find what there
is, however full the table. -/
structure Chained (t : HashTableType κ) (hash : κ → Nat) (Ok : κ → Prop) (ht : HashTable κ ν) :
    Prop where
  pos : 0 < ht.size
  occupied : ∀ e ∈ ht.table, e.key ≠ t.null → e.state = .occupied
  usable : ∀ e ∈ ht.table, e.state = .occupied → Ok e.key
  reached : (layout t hash).Reached ht.table

theorem Inv.chained {ht : HashTable κ ν} (hinv : Inv t hash Ok ht) : Chained t hash Ok ht :=
  ⟨Nat.lt_of_lt_of_le (by decide) hinv.size, hinv.occupied, hinv.usable, hinv.reached⟩

@[simp] theorem layout_slot (table : List (HashTableEntry κ ν)) (w : Nat) :
    (layout t hash).slot table w = table.getD w (nullEntry t) := rfl

theorem layout_key_eq_some {e : HashTableEntry κ ν} {k : κ} :
    (layout t hash).key e = some k ↔ e.key ≠ t.null ∧ e.key = k := by
  simp [layout]

theorem layout_key_null (e : HashTableEntry κ ν) (h : e.key = t.null) :
    (layout t hash).key e = none := if_pos h

/-- The table has as many slots with a key as the layout has keys. -/
theorem length_keys (table : List (HashTableEntry κ ν)) :
    ((layout t hash).keys table).length = table.countP fun e => e.key ≠ t.null := by
  rw [Probe.Layout.keys, List.length_filterMap_eq_countP]
  apply List.countP_congr
  intro e _
  by_cases h : e.key = t.null
  · simp [layout, h]
  · simp [layout, h]

/-! ## Rehashing -/

/-- An old slot as it is moved. -/
def moved (e : HashTableEntry κ ν) : HashTableEntry κ ν := ⟨e.key, e.value, .occupied⟩

/-- The new table after some old slots have been moved. -/
structure Copied (t : HashTableType κ) (hash : κ → Nat) (n : Nat)
    (done table : List (HashTableEntry κ ν)) : Prop where
  length : table.length = n
  perm : (table.filter fun e => e.state ≠ .empty).Perm (done.map moved)
  empty : ∀ e ∈ table, e.state = .empty → e = nullEntry t
  reached : (layout t hash).Reached table

variable {n : Nat} {done table : List (HashTableEntry κ ν)}

theorem copied_replicate (n : Nat) :
    Copied t hash n [] (List.replicate n (nullEntry t : HashTableEntry κ ν)) := by
  refine ⟨List.length_replicate, ?_, fun e he _ => List.eq_of_mem_replicate he, ?_⟩
  · simp [nullEntry]
  · exact Probe.Layout.reached_replicate (layout_key_null _ rfl) n

/-- As long as not every slot is filled, a loop finds an empty one. -/
theorem Copied.finds_empty (h : Copied t hash n done table) (hdone : done.length < n)
    (start : Nat) :
    ∃ w, Probe.first table.length start
      (fun w => (table.getD w (nullEntry t)).state = .empty) = some w := by
  -- fewer slots are filled than there are
  have hempty : ∃ w < table.length, (table.getD w (nullEntry t)).state = .empty := by
    by_contra hno
    have hall : ∀ e ∈ table, decide (e.state ≠ .empty) = true := by
      intro e he
      obtain ⟨w, hw, heq⟩ := (layout t hash).exists_slot he
      rw [decide_eq_true_eq]
      intro hstate
      exact hno ⟨w, hw, by rw [← layout_slot, heq, hstate]⟩
    have hlen := h.perm.length_eq
    rw [List.filter_eq_self.mpr hall, h.length, List.length_map] at hlen
    omega
  obtain ⟨w, hw, hstate⟩ := hempty
  exact Probe.exists_first _ hw (by simpa using hstate)

theorem Copied.step (h : Copied t hash n done table) (hl : t.Lawful hash Ok)
    (hdone : done.length < n) {old : HashTableEntry κ ν} (hold : Ok old.key) :
    ∃ table', rehashEntry t table old = .ok table' ∧ Copied t hash n (done ++ [old]) table' := by
  obtain ⟨w, hfirst⟩ := h.finds_empty hdone (hash old.key % table.length)
  obtain ⟨hw, hstop, hway⟩ := Probe.first_eq_some hfirst
  have hslot : firstSlot t table (hash old.key % table.length)
      (fun e => .ok (e.state = .empty)) = .ok (some w) := by
    rw [firstSlot_eq (p := fun e => e.state = .empty) fun _ _ => rfl, hfirst]
  have hmove : rehashEntry t table old = .ok (table.set w (moved old)) := by
    simp only [rehashEntry, hl.hashFun _ hold, bind, Except.bind, hslot]
    rfl
  have hstate : ((layout t hash).slot table w).state = .empty := by simpa using hstop
  obtain ⟨rest, hperm, hperm'⟩ := (layout t hash).exists_perm_set hw (moved old)
  refine ⟨_, hmove, by rw [List.length_set, h.length], ?_, ?_, ?_⟩
  · have hbefore := hperm.filter fun e => e.state ≠ .empty
    have hafter := hperm'.filter fun e => e.state ≠ .empty
    rw [List.filter_cons_of_neg (by simpa using hstate)] at hbefore
    rw [List.filter_cons_of_pos (by simp [moved])] at hafter
    rw [List.map_append]
    exact hafter.trans (((hbefore.symm.trans h.perm).cons _).trans
      (List.perm_append_singleton _ _).symm)
  · intro e he hestate
    rcases List.mem_cons.mp (hperm'.mem_iff.mp he) with rfl | he
    · cases hestate
    · exact h.empty e (hperm.mem_iff.mpr (List.mem_cons_of_mem _ he)) hestate
  · refine h.reached.set hw (by simp [layout, moved]) fun k hk => ?_
    obtain ⟨-, rfl⟩ := layout_key_eq_some.mp hk
    exact Probe.Way.mono hway fun u hu => of_decide_eq_false hu

theorem Copied.foldl (hl : t.Lawful hash Ok) (olds : List (HashTableEntry κ ν))
    (holds : ∀ e ∈ olds, Ok e.key) :
    ∀ {done table : List (HashTableEntry κ ν)}, Copied t hash n done table →
      done.length + olds.length ≤ n →
      ∃ table', olds.foldlM (rehashEntry t) table = .ok table' ∧
        Copied t hash n (done ++ olds) table' := by
  induction olds with
  | nil =>
    intro done table h _
    rw [List.append_nil]
    exact ⟨table, rfl, h⟩
  | cons old olds ih =>
    intro done table h hlen
    rw [List.length_cons] at hlen
    obtain ⟨table₁, hstep, h₁⟩ := h.step hl (by omega) (holds old List.mem_cons_self)
    obtain ⟨table', hfold, h'⟩ := ih (fun e he => holds e (List.mem_cons_of_mem _ he)) h₁ (by
      rw [List.length_append, List.length_singleton]
      omega)
    refine ⟨table', ?_, ?_⟩
    · rw [List.foldlM_cons, hstep]
      exact hfold
    · rwa [List.append_cons]

/-- What is counted of the copy was there before. -/
theorem Copied.countP (h : Copied t hash n done table) {p : HashTableEntry κ ν → Bool}
    (hp : p (nullEntry t) = false) : table.countP p = done.countP fun e => p (moved e) := by
  have hfilter : table.countP p = (table.filter fun e => e.state ≠ .empty).countP p := by
    rw [List.countP_filter]
    apply List.countP_congr
    intro e he
    by_cases hstate : e.state = .empty
    · rw [h.empty e he hstate, hp]
      simp
    · simp [hstate]
  rw [hfilter, h.perm.countP_eq, List.countP_map]
  rfl

theorem Copied.mem (h : Copied t hash n done table) {e : HashTableEntry κ ν} (he : e ∈ table)
    (hstate : e.state ≠ .empty) : ∃ old ∈ done, moved old = e :=
  List.mem_map.mp (h.perm.mem_iff.mp (List.mem_filter.mpr ⟨he, by simpa using hstate⟩))

theorem Copied.moved_mem (h : Copied t hash n done table) {old : HashTableEntry κ ν}
    (hold : old ∈ done) : moved old ∈ table :=
  (List.mem_filter.mp (h.perm.mem_iff.mpr (List.mem_map.mpr ⟨old, hold, rfl⟩))).1

/-- The keys are the same after a rehash. -/
theorem Copied.keys (h : Copied t hash n done table) :
    ((layout t hash).keys table).Perm ((layout t hash).keys done) := by
  have hmoved : (layout t hash).keys (done.map moved) = (layout t hash).keys done := by
    rw [Probe.Layout.keys, List.filterMap_map]
    rfl
  have hbusy : (layout t hash).keys table =
      (layout t hash).keys (table.filter fun e => e.state ≠ .empty) := by
    rw [Probe.Layout.keys, Probe.Layout.keys, List.filterMap_filter]
    apply List.filterMap_congr
    intro e he
    by_cases hstate : e.state = .empty
    · rw [h.empty e he hstate, layout_key_null _ rfl]
      simp [nullEntry]
    · simp [hstate]
  rw [hbusy, ← hmoved]
  exact Probe.Layout.keys_perm h.perm

/-- The map is the same after a rehash, slot by slot. -/
theorem Copied.find (h : Copied t hash n done table)
    (hdistinct : ((layout t hash).keys done).Nodup) (k : κ) :
    (layout t hash).find table k = ((layout t hash).find done k).map moved := by
  have hdistinct' := h.keys.nodup_iff.mpr hdistinct
  apply Option.ext
  intro e
  rw [Probe.Layout.find_eq_some hdistinct', Option.map_eq_some_iff]
  simp only [Probe.Layout.find_eq_some hdistinct]
  constructor
  · rintro ⟨he, hkey⟩
    have hstate : e.state ≠ .empty := by
      intro hstate
      rw [h.empty e he hstate, layout_key_null _ rfl] at hkey
      cases hkey
    obtain ⟨old, hold, rfl⟩ := h.mem he hstate
    exact ⟨old, ⟨hold, hkey⟩, rfl⟩
  · rintro ⟨old, ⟨hold, hkey⟩, rfl⟩
    exact ⟨h.moved_mem hold, hkey⟩

theorem Copied.chained {ht : HashTable κ ν} {m : Nat}
    (h : Copied t hash (2 * ht.size) ht.table table) (hpos : 0 < ht.size)
    (husable : ∀ e ∈ ht.table, Ok e.key) : Chained t hash Ok ⟨table, m⟩ := by
  refine ⟨?_, ?_, ?_, h.reached⟩
  · rw [HashTable.size, h.length]
    omega
  · intro e he hkey
    have hstate : e.state ≠ .empty := fun hstate => hkey (by rw [h.empty e he hstate]; rfl)
    obtain ⟨old, -, rfl⟩ := h.mem he hstate
    rfl
  · intro e he hstate
    obtain ⟨old, hold, rfl⟩ := h.mem he (by rw [hstate]; decide)
    exact husable old hold

/-- **A rehash** succeeds when the NULL keys of unused slots can be hashed. -/
theorem hashTableRehash_spec {ht : HashTable κ ν} (hl : t.Lawful hash Ok)
    (hinv : Inv t hash Ok ht) (hnull : Ok t.null) (hmust : hashTableMustRehash ht = true) :
    ∃ ht', hashTableRehash t ht = .ok ht' ∧ Inv t hash Ok ht' ∧
      ht'.keyCount = ht.keyCount ∧ Copied t hash (2 * ht.size) ht.table ht'.table := by
  have husable : ∀ e ∈ ht.table, Ok e.key := by
    intro e he
    by_cases hkey : e.key = t.null
    · rwa [hkey]
    · exact hinv.usable e he (hinv.occupied e he hkey)
  have hlen : ([] : List (HashTableEntry κ ν)).length + ht.table.length ≤ 2 * ht.size := by
    rw [List.length_nil, HashTable.size]
    omega
  obtain ⟨table', hfold, hcopied⟩ :=
    Copied.foldl hl ht.table husable (copied_replicate (2 * ht.size)) hlen
  rw [List.nil_append] at hcopied
  refine ⟨{ ht with table := table' }, ?_, ?_, rfl, hcopied⟩
  · rw [hashTableRehash, hfold]
    rfl
  · have hsize : (⟨table', ht.keyCount⟩ : HashTable κ ν).size = 2 * ht.size := hcopied.length
    have hkeys := hcopied.countP (p := fun e => e.key ≠ t.null) (by simp [nullEntry])
    have hused := hcopied.countP (p := fun e => e.state = .occupied) (by simp [nullEntry])
    -- every old slot ends up occupied: half of the new ones, and not all have a key
    have hall : ht.table.countP (fun e => decide ((moved e).state = .occupied)) = ht.size :=
      List.countP_eq_length.mpr fun e _ => rfl
    have hmin := hinv.size
    have hcount := hinv.count
    have hload := hinv.load
    have hfull : 23 * ht.keyCount > 16 * ht.size := by simpa [hashTableMustRehash] using hmust
    have hch : Chained t hash Ok ⟨table', ht.keyCount⟩ :=
      hcopied.chained (by omega) husable
    refine ⟨?_, hch.occupied, hch.usable, hch.reached, ?_, ?_, ?_⟩
    · omega
    · show table'.countP (fun e => e.key ≠ t.null) ≤ ht.keyCount
      rw [hkeys]
      exact hcount
    · show 46 * table'.countP (fun e => e.state = .occupied) ≤ _
      rw [hused, hall, hsize]
      show 46 * ht.size ≤ 7 * (2 * ht.size) + 46 * ht.keyCount
      omega
    · show 23 * ht.keyCount ≤ _
      omega

/-! ## Exchanging one slot -/

theorem Chained.exchange {ht : HashTable κ ν} (hch : Chained t hash Ok ht) {w : Nat}
    (hw : w < ht.table.length) {e : HashTableEntry κ ν} (hbusy : e.state ≠ .empty)
    (hocc : e.key ≠ t.null → e.state = .occupied) (hok : e.state = .occupied → Ok e.key)
    (hway : e.key ≠ t.null → (layout t hash).OnWay ht.table e.key w) (n : Nat) :
    Chained t hash Ok ⟨ht.table.set w e, n⟩ := by
  have hsize : (⟨ht.table.set w e, n⟩ : HashTable κ ν).size = ht.size := List.length_set
  refine ⟨hsize ▸ hch.pos, ?_, ?_, ?_⟩
  · intro f hf hne
    rcases List.mem_or_eq_of_mem_set hf with hf | rfl
    · exact hch.occupied f hf hne
    · exact hocc hne
  · intro f hf hstate
    rcases List.mem_or_eq_of_mem_set hf with hf | rfl
    · exact hch.usable f hf hstate
    · exact hok hstate
  · refine hch.reached.set hw hbusy fun k hk => ?_
    obtain ⟨hne, rfl⟩ := layout_key_eq_some.mp hk
    exact hway hne

/-- The invariant after one slot has been exchanged, when the new numbers
fit. -/
theorem Inv.exchange {ht : HashTable κ ν} (hinv : Inv t hash Ok ht) {w : Nat}
    (hw : w < ht.table.length) {e : HashTableEntry κ ν} (hbusy : e.state ≠ .empty)
    (hocc : e.key ≠ t.null → e.state = .occupied) (hok : e.state = .occupied → Ok e.key)
    (hway : e.key ≠ t.null → (layout t hash).OnWay ht.table e.key w) {n : Nat}
    (hcount : (ht.table.set w e).countP (fun e => e.key ≠ t.null) ≤ n)
    (hused : 46 * (ht.table.set w e).countP (fun e => e.state = .occupied) ≤
      7 * ht.size + 46 * n)
    (hload : 23 * n ≤ 16 * ht.size + 23) : Inv t hash Ok ⟨ht.table.set w e, n⟩ := by
  have hsize : (⟨ht.table.set w e, n⟩ : HashTable κ ν).size = ht.size := List.length_set
  have hch := hinv.chained.exchange hw hbusy hocc hok hway n
  exact ⟨hsize ▸ hinv.size, hch.occupied, hch.usable, hch.reached, hcount, hsize ▸ hused,
    hsize ▸ hload⟩

/-! ## Inserting -/

/-- The table that an insertion goes into. -/
inductive Checked (t : HashTableType κ) (hash : κ → Nat) (ht : HashTable κ ν) :
    HashTable κ ν → Prop where
  | same (h : hashTableMustRehash ht = false) : Checked t hash ht ht
  | rehashed {ht' : HashTable κ ν} (h : hashTableMustRehash ht = true)
      (hcount : ht'.keyCount = ht.keyCount)
      (hcopied : Copied t hash (2 * ht.size) ht.table ht'.table) : Checked t hash ht ht'

theorem exists_room {ht : HashTable κ ν} (hinv : Inv t hash Ok ht)
    (hload : 23 * ht.keyCount ≤ 16 * ht.size) :
    ∃ w < ht.table.length, (ht.table.getD w (nullEntry t)).state ≠ .occupied := by
  have hmin := hinv.size
  have hused := hinv.used
  by_contra hno
  have hall : ∀ e ∈ ht.table, decide (e.state = .occupied) = true := by
    intro e he
    obtain ⟨w, hw, heq⟩ := (layout t hash).exists_slot he
    rw [decide_eq_true_eq]
    by_contra hstate
    exact hno ⟨w, hw, by rwa [← layout_slot, heq]⟩
  rw [List.countP_eq_length.mpr hall] at hused
  rw [HashTable.size] at hload hused hmin
  omega

/-- After the check one more key is no overload. -/
theorem hashTableCheckOverflow_spec {ht : HashTable κ ν} (hl : t.Lawful hash Ok)
    (hinv : Inv t hash Ok ht) (hnull : hashTableMustRehash ht = true → Ok t.null) :
    ∃ ht', hashTableCheckOverflow t ht = .ok ht' ∧ Inv t hash Ok ht' ∧
      Checked t hash ht ht' ∧ 23 * ht'.keyCount ≤ 16 * ht'.size := by
  have hmin := hinv.size
  have hload := hinv.load
  rw [hashTableCheckOverflow]
  by_cases hmust : hashTableMustRehash ht = true
  · obtain ⟨ht', hrehash, hinv', hcount, hcopied⟩ :=
      hashTableRehash_spec hl hinv (hnull hmust) hmust
    have hsize : ht'.size = 2 * ht.size := hcopied.length
    rw [if_pos hmust]
    refine ⟨ht', hrehash, hinv', .rehashed hmust hcount hcopied, ?_⟩
    omega
  · have hfull : ¬ 23 * ht.keyCount > 16 * ht.size := by
      simpa [hashTableMustRehash] using hmust
    rw [if_neg hmust]
    refine ⟨ht, rfl, hinv, .same (by simpa using hmust), ?_⟩
    omega

/-- The slot that an insertion takes. -/
def TakenSlot (t : HashTableType κ) (hash : κ → Nat) (table : List (HashTableEntry κ ν))
    (key : κ) (w : Nat) : Prop :=
  Probe.first table.length (hash key % table.length)
    (fun w => (table.getD w (nullEntry t)).state ≠ .occupied ||
      (table.getD w (nullEntry t)).key = key) = some w

theorem TakenSlot.spec {key : κ} {w : Nat} (h : TakenSlot t hash table key w) :
    w < table.length ∧ ((table.getD w (nullEntry t)).state ≠ .occupied ∨
        (table.getD w (nullEntry t)).key = key) ∧
      (layout t hash).OnWay table key w := by
  obtain ⟨hw, hstop, hway⟩ := Probe.first_eq_some h
  refine ⟨hw, by simpa using hstop, Probe.Way.mono hway fun u hu hempty => ?_⟩
  have hempty' : (table.getD u (nullEntry t)).state = .empty := hempty
  simp only [hempty'] at hu
  cases hu

theorem firstSlot_insertStops {table : List (HashTableEntry κ ν)} (hl : t.Lawful hash Ok)
    (husable : ∀ e ∈ table, e.state = .occupied → Ok e.key) {key : κ} (hok : Ok key)
    (start : Nat) :
    firstSlot t table start (insertStops t key) =
      .ok (Probe.first table.length start
        fun w => (table.getD w (nullEntry t)).state ≠ .occupied ||
          (table.getD w (nullEntry t)).key = key) := by
  rw [firstSlot_eq (p := fun e => e.state ≠ .occupied || e.key = key)]
  intro e he
  rw [insertStops]
  by_cases hocc : e.state = .occupied
  · rw [if_neg (not_not.mpr hocc), hl.equalFun _ _ (husable e he hocc) hok]
    simp [hocc]
  · rw [if_pos hocc]
    simp [hocc]

theorem TakenSlot.firstSlot_eq {table : List (HashTableEntry κ ν)} {key : κ} {w : Nat}
    (h : TakenSlot t hash table key w) (hl : t.Lawful hash Ok)
    (husable : ∀ e ∈ table, e.state = .occupied → Ok e.key) (hok : Ok key) :
    firstSlot t table (hash key % table.length) (insertStops t key) = .ok (some w) := by
  rw [firstSlot_insertStops hl husable hok]
  exact congrArg Except.ok h

/-- The loop of an insertion stops at the room that is left, if not before. -/
theorem Inv.exists_takenSlot {ht : HashTable κ ν} (hinv : Inv t hash Ok ht)
    (hload : 23 * ht.keyCount ≤ 16 * ht.size) (key : κ) :
    ∃ w, TakenSlot t hash ht.table key w := by
  obtain ⟨w₀, hw₀, hstate₀⟩ := exists_room hinv hload
  refine Probe.exists_first _ hw₀ ?_
  rw [Bool.or_eq_true, decide_eq_true_eq]
  exact .inl hstate₀

/-- **An insertion** takes a slot: the assertion holds. -/
theorem hashTableInsert_spec {ht : HashTable κ ν} (hl : t.Lawful hash Ok)
    (hinv : Inv t hash Ok ht) {key : κ} (hok : Ok key)
    (hnull : hashTableMustRehash ht = true → Ok t.null) (value : Option ν) :
    ∃ ht' w, Checked t hash ht ht' ∧ Inv t hash Ok ht' ∧ TakenSlot t hash ht'.table key w ∧
      hashTableInsert t ht key value =
        .ok ⟨ht'.table.set w ⟨key, value, .occupied⟩, ht'.keyCount + 1⟩ ∧
      Inv t hash Ok ⟨ht'.table.set w ⟨key, value, .occupied⟩, ht'.keyCount + 1⟩ := by
  obtain ⟨ht', hcheck, hinv', hchecked, hload⟩ := hashTableCheckOverflow_spec hl hinv hnull
  obtain ⟨w, htaken⟩ := hinv'.exists_takenSlot hload key
  obtain ⟨hw, hstop, hway⟩ := htaken.spec
  have hslot : firstSlot t ht'.table (hash key % ht'.size) (insertStops t key) =
      .ok (some w) := htaken.firstSlot_eq hl hinv'.usable hok
  refine ⟨ht', w, hchecked, hinv', htaken, ?_, ?_⟩
  · simp only [hashTableInsert, hcheck, bind, Except.bind, hl.hashFun key hok, hslot]
    rfl
  · obtain ⟨rest, hperm, hperm'⟩ :=
      (layout t hash).exists_perm_set hw ⟨key, value, .occupied⟩
    have hcount := hinv'.count
    have hused := hinv'.used
    rw [hperm.countP_eq, List.countP_cons] at hcount hused
    refine hinv'.exchange hw (by simp) (fun _ => rfl) (fun _ => hok) (fun _ => hway) ?_ ?_ ?_
    · rw [hperm'.countP_eq, List.countP_cons]
      split <;> omega
    · rw [hperm'.countP_eq, List.countP_cons]
      split <;> omega
    · omega

/-! ## Looking up -/

/-- Where a lookup ends. -/
def endsLookup (key : κ) (e : HashTableEntry κ ν) : Bool :=
  e.state = .empty || (e.state = .occupied && e.key = key)

theorem lookupStops_eq (hl : t.Lawful hash Ok) {key : κ} (hok : Ok key) {e : HashTableEntry κ ν}
    (husable : e.state = .occupied → Ok e.key) :
    lookupStops t key e = .ok (endsLookup key e) := by
  rw [lookupStops, endsLookup]
  cases hstate : e.state with
  | empty => simp
  | removed => simp
  | occupied =>
    rw [if_neg (by decide), if_neg (by decide), hl.equalFun _ _ (husable hstate) hok]
    simp

theorem lookupEntry_eq {ht : HashTable κ ν} (hl : t.Lawful hash Ok)
    (husable : ∀ e ∈ ht.table, e.state = .occupied → Ok e.key) {key : κ} (hok : Ok key) :
    lookupEntry t ht key =
      .ok ((Probe.first ht.table.length (hash key % ht.table.length)
        fun w => endsLookup key (ht.entry t w)).bind
          fun w => if (ht.entry t w).state = .empty then none else some w) := by
  have hslot : firstSlot t ht.table (hash key % ht.table.length) (lookupStops t key) =
      .ok (Probe.first ht.table.length (hash key % ht.table.length)
        fun w => endsLookup key (ht.table.getD w (nullEntry t))) := by
    exact firstSlot_eq (fun e he => lookupStops_eq hl hok (husable e he)) _
  simp only [lookupEntry, hl.hashFun key hok, bind, Except.bind, HashTable.size, hslot]
  show _ = Except.ok ((Probe.first ht.table.length (hash key % ht.table.length)
    fun w => endsLookup key (ht.table.getD w (nullEntry t))).bind _)
  cases Probe.first ht.table.length (hash key % ht.table.length)
      fun w => endsLookup key (ht.table.getD w (nullEntry t)) with
  | none => rfl
  | some w => rfl

/-- The slot that a lookup returns is occupied and has the key. -/
theorem slot_of_endsLookup {ht : HashTable κ ν} {key : κ} {start w : Nat}
    (h : ((Probe.first ht.table.length start fun w => endsLookup key (ht.entry t w)).bind
      fun w => if (ht.entry t w).state = .empty then none else some w) = some w) :
    w < ht.table.length ∧ (ht.entry t w).state = .occupied ∧ (ht.entry t w).key = key := by
  obtain ⟨u, hfirst, hu⟩ := Option.bind_eq_some_iff.mp h
  split_ifs at hu with hempty
  cases hu
  obtain ⟨hlt, hstop, -⟩ := Probe.first_eq_some hfirst
  rw [endsLookup, Bool.or_eq_true, Bool.and_eq_true, decide_eq_true_eq, decide_eq_true_eq,
    decide_eq_true_eq] at hstop
  exact ⟨hlt, hstop.resolve_left hempty⟩

/-- A lookup ends at an occupied slot with the key, if there is one. -/
theorem Chained.lookupEntry_spec {ht : HashTable κ ν} (hl : t.Lawful hash Ok)
    (hch : Chained t hash Ok ht) {key : κ} (hok : Ok key) :
    ∃ found, lookupEntry t ht key = .ok found ∧
      (∀ w, found = some w → w < ht.table.length ∧ (ht.entry t w).state = .occupied ∧
        (ht.entry t w).key = key) ∧
      (key ≠ t.null → (∃ e ∈ ht.table, e.key = key) → found ≠ none) := by
  refine ⟨_, lookupEntry_eq hl hch.usable hok, ?_, ?_⟩
  · exact fun w hw => slot_of_endsLookup hw
  · rintro hne ⟨e, he, rfl⟩
    have hocc := hch.occupied e he hne
    obtain ⟨w, hfirst, -, -, hbusy⟩ := hch.reached.first he
      (layout_key_eq_some.mpr ⟨hne, rfl⟩) (endsLookup e.key)
      (by simp [endsLookup, hocc]) (by simp [layout, hocc])
    have hfirst' : Probe.first ht.table.length (hash e.key % ht.table.length)
        (fun w => endsLookup e.key (ht.entry t w)) = some w := hfirst
    have hbusy' : (ht.entry t w).state ≠ .empty := hbusy
    rw [hfirst', Option.bind_some, if_neg hbusy']
    exact Option.some_ne_none w

theorem lookupEntry_spec {ht : HashTable κ ν} (hl : t.Lawful hash Ok) (hinv : Inv t hash Ok ht)
    {key : κ} (hok : Ok key) :
    ∃ found, lookupEntry t ht key = .ok found ∧
      (∀ w, found = some w → w < ht.table.length ∧ (ht.entry t w).state = .occupied ∧
        (ht.entry t w).key = key) ∧
      (key ≠ t.null → (∃ e ∈ ht.table, e.key = key) → found ≠ none) :=
  hinv.chained.lookupEntry_spec hl hok

/-- **A removal** of a key that is there empties an occupied slot. -/
theorem Inv.removed {ht : HashTable κ ν} (hinv : Inv t hash Ok ht) {w : Nat}
    (hw : w < ht.table.length) (hocc : (ht.entry t w).state = .occupied)
    (hkey : (ht.entry t w).key ≠ t.null) :
    Inv t hash Ok ⟨ht.table.set w ⟨t.null, none, .removed⟩, ht.keyCount - 1⟩ := by
  obtain ⟨rest, hperm, hperm'⟩ :=
    (layout t hash).exists_perm_set hw ⟨t.null, none, .removed⟩
  have hslot : (layout t hash).slot ht.table w = ht.entry t w := rfl
  have hcount := hinv.count
  have hused := hinv.used
  have hload := hinv.load
  rw [hperm.countP_eq, hslot, List.countP_cons_of_pos (by simpa using hkey)] at hcount
  rw [hperm.countP_eq, hslot, List.countP_cons_of_pos (by simpa using hocc)] at hused
  refine hinv.exchange hw (by simp) (fun hne => absurd rfl hne) (fun h => by cases h)
    (fun hne => absurd rfl hne) ?_ ?_ ?_
  · rw [hperm'.countP_eq, List.countP_cons_of_neg (by simp)]
    omega
  · rw [hperm'.countP_eq, List.countP_cons_of_neg (by simp)]
    omega
  · omega

end Armadito.Jrpc.Keyed
