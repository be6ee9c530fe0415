import Armadito.Jrpc.KeyedCalls

/-!
# Jrpc.ProbeChains

The probe chains of the tables of `Jrpc.KeyedHash`, for every type of keys
and every key, the NULL key of unused slots among them. A rehash makes an
unused slot an occupied one with the NULL key, and a removal may then take
it out; so `key_count`, which is a `size_t`, can come to say anything. The
chains do not depend on it.
-/

namespace Armadito.Jrpc.Keyed

/-- The three that `hash_table_new` knows. -/
inductive IsKeyType : {κ : Type} → HashTableType κ → Prop where
  | int : IsKeyType hashKeyInt
  | ptr : IsKeyType hashKeyPtr
  | str : IsKeyType hashKeyStr

/-- What may happen to a table. An insertion makes a rehash of its own when
`key_count` asks for one; `count` sets `key_count` to whatever it wrapped
around to. -/
inductive TableStep (κ ν : Type) where
  | call (c : Call κ ν)
  | rehash
  | count (keyCount : Nat)
  deriving DecidableEq, Repr

variable {κ ν : Type} {t : HashTableType κ} {hash : κ → Nat} {Ok : κ → Prop}

/-- The table after a step, unless that ends the process. -/
def tableStep (t : HashTableType κ) (ht : HashTable κ ν) :
    TableStep κ ν → Option (HashTable κ ν)
  | .call c => callStep t ht c
  | .rehash => (hashTableRehash t ht).toOption
  | .count keyCount => some { ht with keyCount }

theorem toOption_eq_some {ε α : Type} {x : Except ε α} {a : α} :
    x.toOption = some a ↔ x = .ok a := by
  cases x with
  | ok b => simp [Except.toOption]
  | error e => simp [Except.toOption]

variable [DecidableEq κ] {ht ht' : HashTable κ ν} {key : κ} {value : Option ν}

theorem Chained.setCount (hch : Chained t hash Ok ht) (n : Nat) :
    Chained t hash Ok { ht with keyCount := n } :=
  ⟨hch.pos, hch.occupied, hch.usable, hch.reached⟩

/-! ## Rehashing -/

omit [DecidableEq κ] in
/-- All the keys have been hashed. -/
theorem ok_of_foldlM (hdecides : t.Decides Ok) {olds table table' : List (HashTableEntry κ ν)}
    (h : olds.foldlM (rehashEntry t) table = .ok table') : ∀ e ∈ olds, Ok e.key := by
  induction olds generalizing table with
  | nil => simp
  | cons old olds ih =>
    rw [List.foldlM_cons] at h
    obtain ⟨table₁, hstep, hrest⟩ := bind_eq_ok.mp h
    obtain ⟨n, hhash, -⟩ := bind_eq_ok.mp hstep
    intro e he
    rcases List.mem_cons.mp he with rfl | he
    · exact hdecides _ n hhash
    · exact ih hrest e he

theorem hashTableRehash_copied (hl : t.Lawful hash Ok) (hdecides : t.Decides Ok)
    (h : hashTableRehash t ht = .ok ht') :
    (∀ e ∈ ht.table, Ok e.key) ∧ Copied t hash (2 * ht.size) ht.table ht'.table := by
  obtain ⟨table, hfold, hret⟩ := bind_eq_ok.mp h
  have hok := ok_of_foldlM hdecides hfold
  obtain ⟨table', hfold', hcopied⟩ := Copied.foldl hl ht.table hok
    (copied_replicate (2 * ht.size)) (by rw [List.length_nil, HashTable.size]; omega)
  rw [hfold] at hfold'
  cases hfold'
  cases hret
  exact ⟨hok, hcopied⟩

/-- The keys of a table that are not NULL. -/
def Has (t : HashTableType κ) (ht : HashTable κ ν) (key : κ) : Prop :=
  key ≠ t.null ∧ ∃ e ∈ ht.table, e.key = key

theorem Copied.has {n : Nat} (h : Copied t hash n ht.table ht'.table) (hhas : Has t ht key) :
    Has t ht' key := by
  obtain ⟨hne, old, hold, hkey⟩ := hhas
  exact ⟨hne, _, h.moved_mem hold, hkey⟩

theorem Chained.checkOverflow (hch : Chained t hash Ok ht) (hl : t.Lawful hash Ok)
    (hdecides : t.Decides Ok) (h : hashTableCheckOverflow t ht = .ok ht') :
    Chained t hash Ok ht' ∧ ∀ k, Has t ht k → Has t ht' k := by
  rw [hashTableCheckOverflow] at h
  by_cases hmust : hashTableMustRehash ht = true
  · rw [if_pos hmust] at h
    obtain ⟨hok, hcopied⟩ := hashTableRehash_copied hl hdecides h
    exact ⟨hcopied.chained hch.pos hok, fun k => hcopied.has⟩
  · rw [if_neg hmust] at h
    cases h
    exact ⟨hch, fun k hk => hk⟩

/-! ## One call -/

omit [DecidableEq κ] in
/-- A key that the exchanged slot does not hold stays. -/
theorem Has.set {w n : Nat} (h : Has t ht key) (hw : w < ht.table.length)
    (hne : (ht.entry t w).key ≠ key) (e : HashTableEntry κ ν) :
    Has t ⟨ht.table.set w e, n⟩ key := by
  obtain ⟨hnull, f, hf, rfl⟩ := h
  obtain ⟨rest, hperm, hperm'⟩ := Probe.exists_perm_set hw e
  rw [HashTable.entry, List.getD_eq_getElem _ _ hw] at hne
  refine ⟨hnull, f, hperm'.mem_iff.mpr (List.mem_cons_of_mem _ ?_), rfl⟩
  rcases List.mem_cons.mp (hperm.mem_iff.mp hf) with rfl | hf
  · exact absurd rfl hne
  · exact hf

theorem Chained.insert (hch : Chained t hash Ok ht) (hl : t.Lawful hash Ok)
    (hdecides : t.Decides Ok) (h : hashTableInsert t ht key value = .ok ht') :
    Chained t hash Ok ht' ∧ (key ≠ t.null → Has t ht' key) ∧ ∀ k, Has t ht k → Has t ht' k := by
  obtain ⟨ht₁, hcheck, h⟩ := bind_eq_ok.mp h
  obtain ⟨n, hhash, h⟩ := bind_eq_ok.mp h
  obtain ⟨found, hfound, h⟩ := bind_eq_ok.mp h
  have hok : Ok key := hdecides key n hhash
  rw [hl.hashFun key hok] at hhash
  cases hhash
  obtain ⟨hch₁, hkeep⟩ := hch.checkOverflow hl hdecides hcheck
  cases found with
  | none => cases h
  | some w =>
    cases h
    rw [HashTable.size, firstSlot_insertStops hl hch₁.usable hok] at hfound
    have htaken : TakenSlot t hash ht₁.table key w := Except.ok.inj hfound
    obtain ⟨hw, hstop, hway⟩ := htaken.spec
    refine ⟨hch₁.exchange hw (by simp) (fun _ => rfl) (fun _ => hok) (fun _ => hway) _, ?_, ?_⟩
    · exact fun hne => ⟨hne, _, List.mem_set hw _, rfl⟩
    · intro k hk
      by_cases hkey : k = key
      · subst hkey
        exact ⟨hk.1, _, List.mem_set hw _, rfl⟩
      · -- the slot is free, or has the key that is inserted
        refine (hkeep k hk).set hw ?_ _
        intro heq
        rcases hstop with hfree | hsame
        · refine hfree (hch₁.occupied _ ((layout t hash).slot_mem hw) ?_)
          exact fun hnull => hk.1 (heq.symm.trans hnull)
        · exact hkey (heq.symm.trans hsame)

theorem Chained.remove (hch : Chained t hash Ok ht) (hl : t.Lawful hash Ok)
    (hdecides : t.Decides Ok) {present : Bool}
    (h : hashTableRemove t ht key = .ok (present, ht')) :
    Chained t hash Ok ht' ∧ ∀ k, k ≠ key → Has t ht k → Has t ht' k := by
  obtain ⟨found, hfound, h⟩ := bind_eq_ok.mp h
  obtain ⟨n, hhash, -⟩ := bind_eq_ok.mp hfound
  cases found with
  | none =>
    cases h
    exact ⟨hch, fun k _ hk => hk⟩
  | some w =>
    cases h
    obtain ⟨found, hfound', hsome, -⟩ := hch.lookupEntry_spec hl (hdecides key n hhash)
    rw [hfound] at hfound'
    cases hfound'
    obtain ⟨hw, hocc, hkey⟩ := hsome w rfl
    refine ⟨hch.exchange hw (by simp) (fun hne => absurd rfl hne) (fun h => by cases h)
      (fun hne => absurd rfl hne) _, ?_⟩
    intro k hne hk
    exact hk.set hw (fun heq => hne (heq.symm.trans hkey)) _

/-- **One step** keeps the chains, and every key but one that it removes. -/
theorem Chained.tableStep (hch : Chained t hash Ok ht) (hl : t.Lawful hash Ok)
    (hdecides : t.Decides Ok) {step : TableStep κ ν} (h : Keyed.tableStep t ht step = some ht') :
    Chained t hash Ok ht' ∧ ∀ k, step ≠ .call (.remove k) → Has t ht k → Has t ht' k := by
  cases step with
  | call c =>
    cases c with
    | insert key value =>
      obtain ⟨hch', -, hkeep⟩ := hch.insert hl hdecides (toOption_eq_some.mp h)
      exact ⟨hch', fun k _ hk => hkeep k hk⟩
    | remove key =>
      rw [Keyed.tableStep, callStep] at h
      cases hremove : hashTableRemove t ht key with
      | error e =>
        rw [hremove] at h
        cases h
      | ok r =>
        rw [hremove] at h
        cases h
        obtain ⟨hch', hkeep⟩ := hch.remove hl hdecides hremove
        exact ⟨hch', fun k hne hk => hkeep k (fun heq => hne (heq ▸ rfl)) hk⟩
  | rehash =>
    obtain ⟨hok, hcopied⟩ := hashTableRehash_copied hl hdecides (toOption_eq_some.mp h)
    exact ⟨hcopied.chained hch.pos hok, fun k _ hk => hcopied.has hk⟩
  | count keyCount =>
    cases h
    exact ⟨hch.setCount keyCount, fun k _ hk => hk⟩

theorem Chained.run (hl : t.Lawful hash Ok) (hdecides : t.Decides Ok) (hch : Chained t hash Ok ht)
    {steps : List (TableStep κ ν)}
    (hrun : Transition.run (Keyed.tableStep t) ht steps = some ht') : Chained t hash Ok ht' :=
  Transition.run_invariant (P := Chained t hash Ok)
    (fun _ _ _ hch hstep => (hch.tableStep hl hdecides hstep).1) steps ht ht' hch hrun

theorem Has.run (hl : t.Lawful hash Ok) (hdecides : t.Decides Ok) {steps : List (TableStep κ ν)}
    (hnot : .call (.remove key) ∉ steps) :
    ∀ {ht : HashTable κ ν}, Chained t hash Ok ht → Has t ht key →
      Transition.run (Keyed.tableStep t) ht steps = some ht' → Has t ht' key := by
  induction steps with
  | nil =>
    intro ht _ hhas hrun
    cases hrun
    exact hhas
  | cons step steps ih =>
    intro ht hch hhas hrun
    obtain ⟨ht₁, hstep, hrun⟩ := Transition.run_cons_eq_some.mp hrun
    obtain ⟨hch₁, hkeep⟩ := hch.tableStep hl hdecides hstep
    have hne : step ≠ .call (.remove key) := fun heq => hnot (heq ▸ List.mem_cons_self)
    exact ih (fun hmem => hnot (List.mem_cons_of_mem _ hmem)) hch₁ (hkeep key hne hhas) hrun

/-- Inserted and not removed since. -/
theorem has_of_inserted (hl : t.Lawful hash Ok) (hdecides : t.Decides Ok)
    {before after : List (TableStep κ ν)} (hne : key ≠ t.null)
    (hnot : .call (.remove key) ∉ after) (hch : Chained t hash Ok ht)
    (hrun : Transition.run (Keyed.tableStep t) ht
      (before ++ .call (.insert key value) :: after) = some ht') : Has t ht' key := by
  rw [Transition.run_append] at hrun
  obtain ⟨ht₁, hbefore, hrun⟩ := Option.bind_eq_some_iff.mp hrun
  obtain ⟨ht₂, hinsert, hafter⟩ := Transition.run_cons_eq_some.mp hrun
  have hch₁ := hch.run hl hdecides hbefore
  obtain ⟨hch₂, hhas, -⟩ := hch₁.insert hl hdecides (toOption_eq_some.mp hinsert)
  exact Has.run hl hdecides hnot hch₂ (hhas hne) hafter

/-! ## What a table keeps -/

/-- From the home position of the key cyclically up to the slot. -/
def UnbrokenTo (t : HashTableType κ) (ht : HashTable κ ν) (w : Nat) : Prop :=
  ∃ h d, t.hashFun (ht.entry t w).key = .ok h ∧ d < ht.size ∧ w = (h % ht.size + d) % ht.size ∧
    ∀ j ≤ d, (ht.entry t ((h % ht.size + j) % ht.size)).state ≠ .empty

/-- The loop of `lookup_entry` passes `d` slots and stops at the next, or
after the last. -/
def LooksUp (t : HashTableType κ) (ht : HashTable κ ν) (key : κ) (h d : Nat) : Prop :=
  (∀ j < d, lookupStops t key (ht.entry t ((h % ht.size + j) % ht.size)) = .ok false) ∧
  (d < ht.size → lookupStops t key (ht.entry t ((h % ht.size + d) % ht.size)) = .ok true) ∧
  lookupEntry t ht key = .ok (
    if d < ht.size ∧ (ht.entry t ((h % ht.size + d) % ht.size)).state ≠ .empty then
      some ((h % ht.size + d) % ht.size)
    else none)

theorem Chained.unbrokenTo (hch : Chained t hash Ok ht) (hl : t.Lawful hash Ok) {w : Nat}
    (hw : w < ht.size) (hocc : (ht.entry t w).state = .occupied)
    (hne : (ht.entry t w).key ≠ t.null) : UnbrokenTo t ht w := by
  have hmem : ht.entry t w ∈ ht.table := (layout t hash).slot_mem hw
  obtain ⟨d, hd, hwd, hbusy⟩ :=
    Probe.Way.index (hch.reached w hw (ht.entry t w).key (layout_key_eq_some.mpr ⟨hne, rfl⟩))
  refine ⟨_, d, hl.hashFun _ (hch.usable _ hmem hocc), hd, hwd, ?_⟩
  intro j hj
  rcases Nat.lt_or_eq_of_le hj with hj | rfl
  · exact hbusy j hj
  · have hslot : ht.entry t w = ht.entry t ((hash (ht.entry t w).key % ht.size + j) % ht.size) :=
      congrArg (ht.entry t) hwd
    rw [← hslot, hocc]
    simp

theorem Chained.looksUp (hch : Chained t hash Ok ht) (hl : t.Lawful hash Ok) (hok : Ok key) :
    ∃ d ≤ ht.size, LooksUp t ht key (hash key) d := by
  obtain ⟨d, hd, hpassed, hstop, hfirst⟩ := Probe.first_index ht.table.length
    (hash key % ht.table.length) fun w => endsLookup key (ht.entry t w)
  have hstops : ∀ j, lookupStops t key (ht.entry t ((hash key % ht.size + j) % ht.size)) =
      .ok (endsLookup key (ht.entry t ((hash key % ht.size + j) % ht.size))) := by
    intro j
    refine lookupStops_eq hl hok (hch.usable _ ((layout t hash).slot_mem ?_))
    exact Nat.mod_lt _ hch.pos
  refine ⟨d, hd, ?_, ?_, ?_⟩
  · intro j hj
    rw [hstops, HashTable.size, hpassed j hj]
  · intro hlt
    rw [hstops, HashTable.size, hstop hlt]
  · rw [lookupEntry_eq hl hch.usable hok, hfirst, HashTable.size]
    by_cases hlt : d < ht.table.length
    · rw [if_pos hlt, Option.bind_some]
      by_cases hempty :
          (ht.entry t ((hash key % ht.table.length + d) % ht.table.length)).state = .empty
      · rw [if_pos hempty, if_neg fun h => h.2 hempty]
      · rw [if_neg hempty, if_pos ⟨hlt, hempty⟩]
    · rw [if_neg hlt, if_neg fun h => hlt h.1]
      rfl

/-! ## Every key type -/

/-- What holds of every reachable table. -/
structure ChainsKept (t : HashTableType κ) (steps : List (TableStep κ ν)) (ht : HashTable κ ν) :
    Prop where
  unbroken : ∀ w < ht.size, (ht.entry t w).state = .occupied → (ht.entry t w).key ≠ t.null →
    UnbrokenTo t ht w
  found : ∀ before key value after, steps = before ++ .call (.insert key value) :: after →
    key ≠ t.null → .call (.remove key) ∉ after →
    ∃ w, lookupEntry t ht key = .ok (some w) ∧ (ht.entry t w).state = .occupied ∧
      (ht.entry t w).key = key
  bounded : ∀ key h, t.hashFun key = .ok h → ∃ d ≤ ht.size, LooksUp t ht key h d

theorem chainsKept_of_lawful (hl : t.Lawful hash Ok) (hdecides : t.Decides Ok)
    {steps : List (TableStep κ ν)}
    (hrun : Transition.run (tableStep t) (hashTableNew t) steps = some ht) :
    ChainsKept t steps ht := by
  have hnew : Chained t hash Ok (hashTableNew t : HashTable κ ν) := hashTableNew_inv.chained
  have hch := hnew.run hl hdecides hrun
  refine ⟨fun w hw => hch.unbrokenTo hl hw, ?_, ?_⟩
  · rintro before key value after rfl hne hnot
    obtain ⟨-, hthere⟩ := has_of_inserted hl hdecides hne hnot hnew hrun
    have hok : Ok key := by
      obtain ⟨e, he, rfl⟩ := hthere
      exact hch.usable e he (hch.occupied e he hne)
    obtain ⟨found, hlookup, hsome, hthere'⟩ := hch.lookupEntry_spec hl hok
    cases found with
    | none => exact absurd rfl (hthere' hne hthere)
    | some w => exact ⟨w, hlookup, (hsome w rfl).2⟩
  · intro key h hhash
    have hok := hdecides key h hhash
    rw [hl.hashFun key hok] at hhash
    cases hhash
    exact hch.looksUp hl hok

omit [DecidableEq κ] in
/-- **Probe chains are never broken.** For each of the three types of keys,
after any insertions, removals and rehashes that do not end the process: no
slot from the home position of a key up to its slot is empty, a key that
was inserted and not removed since is found, and a lookup of any key that
can be hashed stops within as many steps as there are slots. -/
theorem probe_chains_kept (hkind : IsKeyType t) {steps : List (TableStep κ ν)}
    {ht : HashTable κ ν}
    (hrun : Transition.run (tableStep t) (hashTableNew t) steps = some ht) :
    ChainsKept t steps ht := by
  cases hkind with
  | int => exact chainsKept_of_lawful hashKeyInt_lawful (fun _ _ _ => trivial) hrun
  | ptr => exact chainsKept_of_lawful hashKeyPtr_lawful (fun _ _ _ => trivial) hrun
  | str => exact chainsKept_of_lawful hashKeyStr_lawful hashKeyStr_decides hrun

/-- Two keys of one home position, a rehash, and the first one removed. -/
theorem probe_chains_kept_65 :
    ∃ ht : HashTable Nat Nat,
      Transition.run (tableStep hashKeyInt) (hashTableNew hashKeyInt)
        [.call (.insert 1 (some 10)), .call (.insert 65 (some 20)), .rehash,
          .call (.remove 1)] = some ht ∧
      ∃ w, lookupEntry hashKeyInt ht 65 = .ok (some w) := by
  obtain ⟨ht, hrun⟩ := Option.isSome_iff_exists.mp
    (show (Transition.run (tableStep hashKeyInt) (hashTableNew hashKeyInt : HashTable Nat Nat)
      [.call (.insert 1 (some 10)), .call (.insert 65 (some 20)), .rehash,
        .call (.remove 1)]).isSome = true by decide +kernel)
  obtain ⟨w, hw, -⟩ := (probe_chains_kept .int hrun).found [.call (.insert 1 (some 10))] 65
    (some 20) [.rehash, .call (.remove 1)] rfl (by decide) (by decide)
  exact ⟨ht, hrun, w, hw⟩

end Armadito.Jrpc.Keyed
