import Armadito.Jrpc.KeyedCalls

/-!
# Jrpc.Occupancy

When the states of the slots and `key_count` tell the truth. An insertion
counts one more key also when it overwrites one, and a rehash marks every
slot that it moves as occupied, the empty ones too. As long as no insertion
overwrites and no rehash is due, the occupied slots are those of the keys.
-/

namespace Armadito.Jrpc.Keyed

variable {κ ν : Type} {t : HashTableType κ} {hash : κ → Nat} {Ok : κ → Prop}

/-- The keys that have been inserted and not removed since; the latest call
is the first. -/
def Live : List (Call κ ν) → κ → Prop
  | [], _ => False
  | .insert key _ :: past, k => k = key ∨ Live past k
  | .remove key :: past, k => k ≠ key ∧ Live past k

/-- The keys of the OCCUPIED slots. -/
def occupiedKeys (table : List (HashTableEntry κ ν)) : List κ :=
  (table.filter fun e => e.state = .occupied).map (·.key)

/-- The OCCUPIED slots are those of the live keys, one for each, and
`key_count` is their number. -/
structure Truthful (ht : HashTable κ ν) (live : κ → Prop) : Prop where
  keys : ∀ k, k ∈ occupiedKeys ht.table ↔ live k
  distinct : (occupiedKeys ht.table).Nodup
  count : ht.keyCount = (occupiedKeys ht.table).length

/-- The call overwrites no key, and no rehash is due. -/
def Plain (ht : HashTable κ ν) : Call κ ν → Prop
  | .insert key _ => hashTableMustRehash ht = false ∧ key ∉ occupiedKeys ht.table
  | .remove _ => True

/-! ## The layout of the occupied slots -/

/-- The table as a probed one: an entry has a key while it is occupied. -/
def occupiedLayout (t : HashTableType κ) (hash : κ → Nat) :
    Probe.Layout (HashTableEntry κ ν) κ where
  blank := nullEntry t
  key := fun e => if e.state = .occupied then some e.key else none
  busy := fun e => e.state ≠ .empty
  home := hash

theorem occupiedLayout_key {e : HashTableEntry κ ν} {k : κ} :
    (occupiedLayout t hash).key e = some k ↔ e.state = .occupied ∧ e.key = k := by
  simp [occupiedLayout]

/-- What one slot adds. -/
theorem occupiedKeys_cons (e : HashTableEntry κ ν) (table : List (HashTableEntry κ ν)) :
    occupiedKeys (e :: table) =
      (if e.state = .occupied then [e.key] else []) ++ occupiedKeys table := by
  rw [occupiedKeys, occupiedKeys, List.filter_cons]
  by_cases hocc : e.state = .occupied
  · simp [hocc]
  · simp [hocc]

theorem occupiedKeys_perm {table table' : List (HashTableEntry κ ν)} (h : table.Perm table') :
    (occupiedKeys table).Perm (occupiedKeys table') :=
  (h.filter _).map _

theorem mem_occupiedKeys {table : List (HashTableEntry κ ν)} {k : κ} :
    k ∈ occupiedKeys table ↔ ∃ e ∈ table, e.state = .occupied ∧ e.key = k := by
  simp [occupiedKeys, and_assoc]

/-- A slot without a key is filled. -/
theorem occupiedKeys_set_occupied {table : List (HashTableEntry κ ν)} {w : Nat}
    (hw : w < table.length)
    (hfree : ((occupiedLayout t hash).slot table w).state ≠ .occupied) (key : κ)
    (value : Option ν) :
    (occupiedKeys (table.set w ⟨key, value, .occupied⟩)).Perm (key :: occupiedKeys table) := by
  obtain ⟨rest, hperm, hperm'⟩ :=
    (occupiedLayout t hash).exists_perm_set hw ⟨key, value, .occupied⟩
  have hold := occupiedKeys_perm hperm
  rw [occupiedKeys_cons, if_neg hfree, List.nil_append] at hold
  have hnew := occupiedKeys_perm hperm'
  rw [occupiedKeys_cons, if_pos rfl] at hnew
  exact hnew.trans (hold.symm.cons key)

/-- A slot with a key is cleared. -/
theorem occupiedKeys_set_cleared {table : List (HashTableEntry κ ν)} {w : Nat}
    (hw : w < table.length)
    (hocc : ((occupiedLayout t hash).slot table w).state = .occupied)
    {e : HashTableEntry κ ν} (he : e.state ≠ .occupied) :
    (occupiedKeys table).Perm
      (((occupiedLayout t hash).slot table w).key :: occupiedKeys (table.set w e)) := by
  obtain ⟨rest, hperm, hperm'⟩ := (occupiedLayout t hash).exists_perm_set hw e
  have hold := occupiedKeys_perm hperm
  rw [occupiedKeys_cons, if_pos hocc] at hold
  have hnew := occupiedKeys_perm hperm'
  rw [occupiedKeys_cons, if_neg he, List.nil_append] at hnew
  exact hold.trans (hnew.symm.cons _)

/-- A table that tells the truth, and in which every key is reached. -/
structure Occupancy (t : HashTableType κ) (hash : κ → Nat) (Ok : κ → Prop)
    (ht : HashTable κ ν) (live : κ → Prop) : Prop where
  usable : ∀ e ∈ ht.table, e.state = .occupied → Ok e.key
  reached : (occupiedLayout t hash).Reached ht.table
  truthful : Truthful ht live

theorem hashTableNew_occupancy :
    Occupancy t hash Ok (hashTableNew t : HashTable κ ν) fun _ => False := by
  have hmem : ∀ e ∈ (hashTableNew t : HashTable κ ν).table, e = nullEntry t :=
    fun e he => List.eq_of_mem_replicate he
  have hkeys : occupiedKeys (hashTableNew t : HashTable κ ν).table = [] := by
    rw [occupiedKeys, List.map_eq_nil_iff, List.filter_eq_nil_iff]
    intro e he
    simp [hmem e he, nullEntry]
  refine ⟨?_, Probe.Layout.reached_replicate (by simp [occupiedLayout, nullEntry]) 64, ?_⟩
  · intro e he hocc
    rw [hmem e he] at hocc
    cases hocc
  · refine ⟨?_, ?_, ?_⟩
    · intro k
      simp [hkeys]
    · rw [hkeys]
      exact List.nodup_nil
    · rw [hkeys]
      rfl

/-! ## One call -/

variable [DecidableEq κ] {ht : HashTable κ ν} {live : κ → Prop} {key : κ}

theorem Occupancy.insert (h : Occupancy t hash Ok ht live) (hl : t.Lawful hash Ok)
    (hok : Ok key) (value : Option ν) (hplain : Plain ht (.insert key value))
    {ht' : HashTable κ ν} (hinsert : hashTableInsert t ht key value = .ok ht') :
    Occupancy t hash Ok ht' fun k => k = key ∨ live k := by
  obtain ⟨hmust, hfresh⟩ := hplain
  have hcheck : hashTableCheckOverflow t ht = .ok ht := by
    rw [hashTableCheckOverflow, if_neg (by simp [hmust])]
  have hslot : firstSlot t ht.table (hash key % ht.size) (insertStops t key) = _ :=
    firstSlot_insertStops hl h.usable hok (hash key % ht.size)
  simp only [hashTableInsert, hcheck, bind, Except.bind, hl.hashFun key hok, hslot] at hinsert
  cases hfirst : Probe.first ht.table.length (hash key % ht.size) fun w =>
      (ht.table.getD w (nullEntry t)).state ≠ .occupied ||
        (ht.table.getD w (nullEntry t)).key = key with
  | none =>
    rw [hfirst] at hinsert
    cases hinsert
  | some w =>
    rw [hfirst] at hinsert
    cases hinsert
    have htaken : TakenSlot t hash ht.table key w := hfirst
    obtain ⟨hw, hstop, hway⟩ := htaken.spec
    -- the slot was free: no occupied one has the key
    have hfree : ((occupiedLayout t hash).slot ht.table w).state ≠ .occupied := by
      intro hocc
      have hk := hstop.resolve_left fun hne => hne hocc
      exact hfresh (mem_occupiedKeys.mpr
        ⟨_, (occupiedLayout t hash).slot_mem hw, hocc, hk⟩)
    have hkeys := occupiedKeys_set_occupied hw hfree key value
    refine ⟨?_, ?_, ?_, ?_, ?_⟩
    · intro e he hocc
      rcases List.mem_or_eq_of_mem_set he with he | rfl
      · exact h.usable e he hocc
      · exact hok
    · refine h.reached.set hw (by simp [occupiedLayout]) fun k hk => ?_
      obtain ⟨-, rfl⟩ := occupiedLayout_key.mp hk
      exact hway
    · intro k
      rw [hkeys.mem_iff, List.mem_cons, h.truthful.keys]
    · rw [hkeys.nodup_iff, List.nodup_cons]
      exact ⟨hfresh, h.truthful.distinct⟩
    · show ht.keyCount + 1 = _
      rw [hkeys.length_eq, List.length_cons, h.truthful.count]

/-- A lookup finds the live keys. -/
theorem Occupancy.lookup (h : Occupancy t hash Ok ht live) (hl : t.Lawful hash Ok)
    (hok : Ok key) :
    ∃ found, lookupEntry t ht key = .ok found ∧ (found = none → ¬ live key) ∧
      ∀ w, found = some w → w < ht.table.length ∧
        ((occupiedLayout t hash).slot ht.table w).state = .occupied ∧
        ((occupiedLayout t hash).slot ht.table w).key = key := by
  refine ⟨_, lookupEntry_eq hl h.usable hok, ?_, ?_⟩
  · intro hnone hlive
    obtain ⟨e, he, hocc, hk⟩ := mem_occupiedKeys.mp ((h.truthful.keys key).mpr hlive)
    obtain ⟨w, hfirst, -, -, hbusy⟩ := h.reached.first he (occupiedLayout_key.mpr ⟨hocc, hk⟩)
      (endsLookup key) (by simp [endsLookup, hocc, hk]) (by simp [occupiedLayout, hocc])
    have hfirst' : Probe.first ht.table.length (hash key % ht.table.length)
        (fun w => endsLookup key (ht.entry t w)) = some w := hfirst
    have hbusy' : (ht.entry t w).state ≠ .empty := hbusy
    rw [hfirst', Option.bind_some, if_neg hbusy'] at hnone
    cases hnone
  · exact fun w hw => slot_of_endsLookup hw

theorem Occupancy.remove (h : Occupancy t hash Ok ht live) (hl : t.Lawful hash Ok)
    (hok : Ok key) {present : Bool} {ht' : HashTable κ ν}
    (hremove : hashTableRemove t ht key = .ok (present, ht')) :
    Occupancy t hash Ok ht' fun k => k ≠ key ∧ live k := by
  obtain ⟨found, hlookup, hnone, hsome⟩ := h.lookup hl hok
  simp only [hashTableRemove, hlookup, bind, Except.bind] at hremove
  cases found with
  | none =>
    cases hremove
    refine ⟨h.usable, h.reached, ?_, h.truthful.distinct, h.truthful.count⟩
    intro k
    rw [h.truthful.keys]
    constructor
    · intro hk
      exact ⟨fun heq => hnone rfl (heq ▸ hk), hk⟩
    · exact And.right
  | some w =>
    cases hremove
    obtain ⟨hw, hocc, hk⟩ := hsome w rfl
    have hkeys : (occupiedKeys ht.table).Perm
        (key :: occupiedKeys (ht.table.set w ⟨t.null, none, .removed⟩)) := by
      rw [← hk]
      exact occupiedKeys_set_cleared hw hocc (by simp)
    have hdistinct := hkeys.nodup_iff.mp h.truthful.distinct
    rw [List.nodup_cons] at hdistinct
    refine ⟨?_, ?_, ?_, ?_, ?_⟩
    · intro e he hstate
      rcases List.mem_or_eq_of_mem_set he with he | rfl
      · exact h.usable e he hstate
      · cases hstate
    · refine h.reached.set hw (by simp [occupiedLayout]) fun k hk => ?_
      obtain ⟨hstate, -⟩ := occupiedLayout_key.mp hk
      cases hstate
    · intro k
      rw [← h.truthful.keys, hkeys.mem_iff, List.mem_cons]
      constructor
      · intro hmem
        exact ⟨fun heq => hdistinct.1 (heq ▸ hmem), .inr hmem⟩
      · rintro ⟨hne, heq | hmem⟩
        · exact absurd heq hne
        · exact hmem
    · exact hdistinct.2
    · show ht.keyCount - 1 = _
      rw [h.truthful.count, hkeys.length_eq, List.length_cons, Nat.add_sub_cancel]

/-! ## Every run -/

theorem Occupancy.callStep {past : List (Call κ ν)}
    (h : Occupancy t hash Ok ht (Live past)) (hl : t.Lawful hash Ok) (hdecides : t.Decides Ok)
    {call : Call κ ν} (hplain : Plain ht call) {ht' : HashTable κ ν}
    (hstep : Keyed.callStep t ht call = some ht') :
    Occupancy t hash Ok ht' (Live (call :: past)) := by
  cases call with
  | insert key value =>
    cases hinsert : hashTableInsert t ht key value with
    | error e =>
      rw [Keyed.callStep, hinsert] at hstep
      cases hstep
    | ok ht₁ =>
      rw [Keyed.callStep, hinsert] at hstep
      cases hstep
      obtain ⟨_, -, hrest⟩ := bind_eq_ok.mp hinsert
      obtain ⟨n, hhash, -⟩ := bind_eq_ok.mp hrest
      exact h.insert hl (hdecides key n hhash) value hplain hinsert
  | remove key =>
    cases hremove : hashTableRemove t ht key with
    | error e =>
      rw [Keyed.callStep, hremove] at hstep
      cases hstep
    | ok r =>
      rw [Keyed.callStep, hremove] at hstep
      cases hstep
      obtain ⟨found, hlookup, -⟩ := bind_eq_ok.mp hremove
      obtain ⟨n, hhash, -⟩ := bind_eq_ok.mp hlookup
      exact h.remove hl (hdecides key n hhash) hremove

theorem Occupancy.calls (hl : t.Lawful hash Ok) (hdecides : t.Decides Ok)
    (calls : List (Call κ ν)) :
    ∀ {past : List (Call κ ν)} {ht ht' : HashTable κ ν},
      Occupancy t hash Ok ht (Live past) →
      Transition.AllSteps (Keyed.callStep t) Plain ht calls →
      Transition.run (Keyed.callStep t) ht calls = some ht' →
      Occupancy t hash Ok ht' (Live (calls.reverse ++ past)) := by
  induction calls with
  | nil =>
    intro past ht ht' h _ hrun
    cases hrun
    exact h
  | cons call calls ih =>
    intro past ht ht' h hall hrun
    obtain ⟨ht₁, hstep, hrun⟩ := Transition.run_cons_eq_some.mp hrun
    rw [List.reverse_cons, List.append_assoc]
    exact ih (h.callStep hl hdecides hall.1 hstep) (hall.2 ht₁ hstep) hrun

/-- In every run of plain calls the table tells the truth. -/
def StaysTruthful (t : HashTableType κ) (ν : Type) : Prop :=
  ∀ (calls : List (Call κ ν)) (ht : HashTable κ ν),
    Transition.AllSteps (Keyed.callStep t) Plain (hashTableNew t) calls →
      Transition.run (Keyed.callStep t) (hashTableNew t) calls = some ht →
      Truthful ht (Live calls.reverse)

theorem staysTruthful (hl : t.Lawful hash Ok) (hdecides : t.Decides Ok) :
    StaysTruthful t ν := by
  intro calls ht hall hrun
  have hnew : (Live ([] : List (Call κ ν))) = fun _ => False := rfl
  have h := Occupancy.calls hl hdecides calls (hnew ▸ hashTableNew_occupancy) hall hrun
  rw [List.append_nil] at h
  exact h.truthful

/-- **With keys of any type**, the states of the slots and `key_count` tell
the truth in every run that overwrites no key and comes to no rehash. -/
theorem staysTruthful_of_plain :
    StaysTruthful hashKeyInt ν ∧ StaysTruthful hashKeyPtr ν ∧ StaysTruthful hashKeyStr ν :=
  ⟨staysTruthful hashKeyInt_lawful fun _ _ _ => trivial,
    staysTruthful hashKeyPtr_lawful fun _ _ _ => trivial,
    staysTruthful hashKeyStr_lawful hashKeyStr_decides⟩

/-- Two keys, the first of them removed. -/
theorem truthful_twoKeys :
    ∃ ht : HashTable Nat Nat, Transition.run (Keyed.callStep hashKeyInt)
        (hashTableNew hashKeyInt) [.insert 1 (some 10), .insert 65 none, .remove 1] = some ht ∧
      Truthful ht (Live [.remove 1, .insert 65 none, .insert 1 (some 10)]) := by
  have hkeys : (Transition.run (Keyed.callStep hashKeyInt) (hashTableNew hashKeyInt)
      ([.insert 1 (some 10)] : List (Call Nat Nat))).map
        (fun ht => (hashTableMustRehash ht, occupiedKeys ht.table)) = some (false, [1]) := rfl
  have hall : Transition.AllSteps (Keyed.callStep hashKeyInt) Plain
      (hashTableNew hashKeyInt : HashTable Nat Nat)
      [.insert 1 (some 10), .insert 65 none, .remove 1] := by
    refine ⟨⟨rfl, by decide⟩, fun ht hstep => ⟨?_, fun _ _ => ⟨trivial, fun _ _ => trivial⟩⟩⟩
    have hrun := Transition.run_cons_eq_some.mpr ⟨ht, hstep, Transition.run_nil _ ht⟩
    rw [hrun, Option.map_some, Option.some.injEq, Prod.mk.injEq] at hkeys
    refine ⟨hkeys.1, ?_⟩
    rw [hkeys.2]
    decide
  have hsome : (Transition.run (Keyed.callStep hashKeyInt) (hashTableNew hashKeyInt)
      ([.insert 1 (some 10), .insert 65 none, .remove 1] : List (Call Nat Nat))).isSome :=
    rfl
  obtain ⟨ht, hrun⟩ := Option.isSome_iff_exists.mp hsome
  exact ⟨ht, hrun, staysTruthful_of_plain.1 _ ht hall hrun⟩

/-- One key inserted 46 times. -/
def reinsertions : List (Call Nat Nat) := List.replicate 46 (.insert 1 (some 0))

/-- The table has grown, and 63 of its occupied slots have no key. -/
theorem not_truthful_reinsertions :
    ∃ ht, Transition.run (Keyed.callStep hashKeyInt) (hashTableNew hashKeyInt) reinsertions =
        some ht ∧
      ht.size = 128 ∧ ht.keyCount = 46 ∧ (occupiedKeys ht.table).length = 64 ∧
      (occupiedKeys ht.table).count 0 = 63 ∧ ¬ Truthful ht (Live reinsertions.reverse) := by
  have heval : (Transition.run (Keyed.callStep hashKeyInt) (hashTableNew hashKeyInt)
      reinsertions).map (fun ht => (ht.size, ht.keyCount, (occupiedKeys ht.table).length,
        (occupiedKeys ht.table).count 0)) = some (128, 46, 64, 63) := by
    decide +kernel
  obtain ⟨ht, hrun, hht⟩ := Option.map_eq_some_iff.mp heval
  simp only [Prod.mk.injEq] at hht
  obtain ⟨hsize, hcount, hlen, hnull⟩ := hht
  refine ⟨ht, hrun, hsize, hcount, hlen, hnull, ?_⟩
  intro htruthful
  have hsame := htruthful.count
  rw [hcount, hlen] at hsame
  cases hsame

end Armadito.Jrpc.Keyed
