import Armadito.OnDemand.ScanPool

/-!
# OnDemand.PoolRuns

The runs of the pool. A thread in a free slot keeps the pool consistent, and
so does one that clears its slot and goes; a thread in a slot in use does
not, and neither does one that returns before it has found its slot. So the
runs in which the pool is consistent all along are those that serve one
client at a time.
-/

namespace Armadito.OnDemand

open SlotPool

/-- The slot of the thread is its own: it has the pipe and the id, and it is
the one that the thread has found, if it has found one. -/
structure Owns (ctx : Fin poolSize → OndemandThreadContext) (t : ScanThread) : Prop where
  pipe : (ctx t.slot).hPipeInst = some t.pipe
  id : (ctx t.slot).threadId = t.threadId
  id_ne : t.threadId ≠ 0
  found : ∀ i, t.index = some i → i = t.slot

theorem Owns.congr {ctx ctx' : Fin poolSize → OndemandThreadContext} {t : ScanThread}
    (h : Owns ctx t) (hsame : ctx' t.slot = ctx t.slot) : Owns ctx' t := by
  refine ⟨?_, ?_, h.id_ne, h.found⟩
  · rw [hsame, h.pipe]
  · rw [hsame, h.id]

/-- The invariant of the pool. -/
structure Inv (s : PoolState) : Prop where
  slots : Assigned (fun i => (s.scanThreadCtx i).handle.isSome) ScanThread.slot s.threads
  ids : (s.threads.map ScanThread.threadId).Nodup
  owns : ∀ t ∈ s.threads, Owns s.scanThreadCtx t
  free : ∀ i, (s.scanThreadCtx i).handle = none → (s.scanThreadCtx i).threadId = 0
  count : s.scanThreadCount.toNat = s.threads.length

theorem newPool_inv : Inv newPool where
  slots := assigned_nil fun _ => Bool.false_ne_true
  ids := List.nodup_nil
  owns := fun _ ht => absurd ht List.not_mem_nil
  free := fun _ _ => rfl
  count := rfl

theorem Inv.consistent {s : PoolState} (h : Inv s) : Consistent s where
  distinct := h.slots.nodup
  keepsPipe := fun t ht => (h.owns t ht).pipe
  count_threads := h.count
  count_slots := h.count.trans h.slots.card_used.symm
  count_le := by
    rw [h.count]
    exact h.slots.length_le.trans_eq (Fintype.card_fin _)

/-! ## Lookups -/

theorem firstSlot_some {p : Fin poolSize → Bool} {i : Fin poolSize}
    (h : firstSlot p = some i) : p i = true :=
  List.find?_some h

theorem firstSlot_eq_none {p : Fin poolSize → Bool} :
    firstSlot p = none ↔ ∀ i, p i = false := by
  simp [firstSlot, List.find?_eq_none]

theorem runningThread_some {s : PoolState} {threadId : UInt32} {t : ScanThread}
    (h : runningThread s threadId = some t) : t ∈ s.threads ∧ t.threadId = threadId :=
  ⟨List.mem_of_find?_eq_some h, by simpa using List.find?_some h⟩

/-- A running thread finds its own slot. -/
theorem Inv.firstSlot_threadId {s : PoolState} (h : Inv s) {t : ScanThread}
    (ht : t ∈ s.threads) :
    firstSlot (fun i => t.threadId = (s.scanThreadCtx i).threadId) = some t.slot := by
  cases hfirst : firstSlot (fun i => t.threadId = (s.scanThreadCtx i).threadId) with
  | none =>
    have hnot := firstSlot_eq_none.mp hfirst t.slot
    rw [(h.owns t ht).id, decide_eq_false_iff_not] at hnot
    exact absurd rfl hnot
  | some i =>
    have hid : t.threadId = (s.scanThreadCtx i).threadId := by
      simpa using firstSlot_some hfirst
    -- a slot with this id is in use, by a thread with this id
    have hused : (s.scanThreadCtx i).handle.isSome := by
      rw [Option.isSome_iff_ne_none]
      intro hnone
      exact (h.owns t ht).id_ne (hid.trans (h.free i hnone))
    obtain ⟨u, hu, rfl⟩ := (h.slots.used_iff i).mp hused
    have hsame : u = t := by
      apply List.inj_on_of_nodup_map h.ids hu ht
      rw [hid, (h.owns u hu).id]
    rw [hsame]

theorem selectedSlot_used {s : PoolState} {i : Fin poolSize}
    (hused : (s.scanThreadCtx i).handle ≠ none) :
    (s.scanThreadCtx (selectedSlot s)).handle.isSome := by
  cases hfirst : firstSlot fun i => (s.scanThreadCtx i).handle.isSome with
  | none =>
    have hnot := firstSlot_eq_none.mp hfirst i
    rw [Option.isSome_eq_false_iff, Option.isNone_iff_eq_none] at hnot
    exact absurd hnot hused
  | some j =>
    rw [selectedSlot, hfirst]
    exact firstSlot_some hfirst

/-! ## Steps -/

theorem createThread_ctx_ne (s : PoolState) {index i : Fin poolSize} (hne : i ≠ index)
    (hPipe handle : Handle) (threadId : UInt32) :
    (s.createThread index hPipe handle threadId).scanThreadCtx i = s.scanThreadCtx i :=
  Function.update_of_ne hne _ _

theorem scanThreadFinish_ctx_ne (s : PoolState) (t : ScanThread) {index i : Fin poolSize}
    (hne : i ≠ index) : (scanThreadFinish s t index).scanThreadCtx i = s.scanThreadCtx i :=
  Function.update_of_ne hne _ _

/-- What a step does. -/
theorem poolStep_cases {s s' : PoolState} {a : PoolLabel} (h : poolStep s a = some s') :
    (∃ hPipe handle threadId, a = .connect hPipe handle threadId ∧ threadId ≠ 0 ∧
      runningThread s threadId = none ∧ s.scanThreadCount.toNat ≠ poolSize ∧
      s' = s.createThread (selectedSlot s) hPipe handle threadId) ∨
    (∃ t ∈ s.threads, ∃ redirected, a = .start t.threadId redirected ∧
      s' = scanThreadStart s t redirected) ∨
    (∃ t ∈ s.threads, ∃ index, a = .finish t.threadId ∧ t.index = some index ∧
      s' = scanThreadFinish s t index) := by
  cases a with
  | connect hPipe handle threadId =>
    rw [poolStep, mainThreadWork] at h
    split at h
    · cases h
    · next hid =>
      split at h
      · cases h
      · next hcount =>
        rw [not_or, Option.not_isSome_iff_eq_none] at hid
        exact .inl ⟨hPipe, handle, threadId, rfl, hid.1, hid.2, hcount,
          (Option.some.inj h).symm⟩
  | start threadId redirected =>
    rw [poolStep] at h
    cases hrunning : runningThread s threadId with
    | none => simp [hrunning] at h
    | some t =>
      obtain ⟨ht, rfl⟩ := runningThread_some hrunning
      simp only [hrunning] at h
      split at h
      · cases h
      · exact .inr (.inl ⟨t, ht, redirected, rfl, (Option.some.inj h).symm⟩)
  | finish threadId =>
    rw [poolStep] at h
    cases hrunning : runningThread s threadId with
    | none => simp [hrunning] at h
    | some t =>
      obtain ⟨ht, rfl⟩ := runningThread_some hrunning
      simp only [hrunning, Option.map_eq_some_iff] at h
      obtain ⟨index, hindex, rfl⟩ := h
      exact .inr (.inr ⟨t, ht, index, rfl, hindex, rfl⟩)

/-- A thread that is created in a free slot, whichever it is. -/
theorem Inv.createThread {s : PoolState} (h : Inv s) {index : Fin poolSize}
    (hfree : (s.scanThreadCtx index).handle = none) (hPipe handle : Handle)
    {threadId : UInt32} (hne : threadId ≠ 0) (hnew : runningThread s threadId = none) :
    Inv (s.createThread index hPipe handle threadId) where
  slots := by
    refine (h.slots.store (a := ⟨threadId, hPipe, index, none⟩) ?_).congr fun i => ?_
    · simp [hfree]
    · by_cases hi : i = index
      · simp [PoolState.createThread, hi]
      · simp [createThread_ctx_ne s hi, hi]
  ids := by
    refine List.nodup_cons.mpr ⟨?_, h.ids⟩
    rw [List.mem_map]
    rintro ⟨t, ht, hid⟩
    have hnot := List.find?_eq_none.mp hnew t ht
    exact hnot (decide_eq_true hid)
  owns := by
    intro t ht
    rcases List.mem_cons.mp ht with rfl | hold
    · refine ⟨?_, ?_, hne, fun i hi => nomatch hi⟩
      · simp [PoolState.createThread]
      · simp [PoolState.createThread]
    · have hslot : t.slot ≠ index := by
        rintro rfl
        have hused := (h.slots.used_iff t.slot).mpr ⟨t, hold, rfl⟩
        simp [hfree] at hused
      exact (h.owns t hold).congr (createThread_ctx_ne s hslot hPipe handle threadId)
  free := by
    intro i hi
    by_cases hindex : i = index
    · simp [PoolState.createThread, hindex] at hi
    · rw [createThread_ctx_ne s hindex] at hi ⊢
      exact h.free i hi
  count := by
    have hle : s.scanThreadCount.toNat ≤ 3 := h.consistent.count_le
    have hone : (1 : UInt32).toNat = 1 := rfl
    simp only [PoolState.createThread, UInt32.toNat_add, hone, h.count, List.length_cons]
    rw [h.count] at hle
    omega

/-- A thread that starts and finds its slot. -/
theorem Inv.start {s : PoolState} (h : Inv s) {t : ScanThread} (ht : t ∈ s.threads) :
    Inv (scanThreadStart s t true) := by
  have hperm := List.perm_cons_erase ht
  rw [scanThreadStart, h.firstSlot_threadId ht]
  refine ⟨(h.slots.perm hperm).replace rfl, ?_, ?_, h.free, ?_⟩
  · exact (hperm.map ScanThread.threadId).nodup_iff.mp h.ids
  · intro u hu
    rcases List.mem_cons.mp hu with rfl | hu
    · have hown := h.owns t ht
      exact ⟨hown.pipe, hown.id, hown.id_ne, fun i hi => (Option.some.inj hi).symm⟩
    · exact h.owns u (List.mem_of_mem_erase hu)
  · exact h.count.trans hperm.length_eq

/-- A thread that ends clears its own slot. -/
theorem Inv.finish {s : PoolState} (h : Inv s) {t : ScanThread} (ht : t ∈ s.threads) :
    Inv (scanThreadFinish s t t.slot) where
  slots := by
    refine (h.slots.perm (List.perm_cons_erase ht)).release.congr fun i => ?_
    by_cases hi : i = t.slot
    · simp [scanThreadFinish, hi]
    · simp [scanThreadFinish_ctx_ne s t hi, hi]
  ids := (List.erase_sublist.map ScanThread.threadId).nodup h.ids
  owns := by
    intro u hu
    have hslot : u.slot ≠ t.slot := by
      have hnodup := (h.slots.perm (List.perm_cons_erase ht)).nodup
      rw [List.map_cons, List.nodup_cons] at hnodup
      intro heq
      exact hnodup.1 (heq ▸ List.mem_map_of_mem hu)
    exact (h.owns u (List.mem_of_mem_erase hu)).congr (scanThreadFinish_ctx_ne s t hslot)
  free := by
    intro i hi
    by_cases hslot : i = t.slot
    · simp [scanThreadFinish, hslot]
    · rw [scanThreadFinish_ctx_ne s t hslot] at hi ⊢
      exact h.free i hi
  count := by
    have hpos := List.length_pos_of_mem ht
    have hle : (1 : UInt32) ≤ s.scanThreadCount := by
      rw [UInt32.le_iff_toNat_le, h.count]
      exact hpos
    simp only [scanThreadFinish, UInt32.toNat_sub_of_le _ _ hle, h.count,
      List.length_erase_of_mem ht]
    rfl

/-- Allowed steps keep the invariant. -/
theorem poolStep_inv {s s' : PoolState} {a : PoolLabel} (h : Inv s)
    (hstep : poolStep s a = some s') (hok : Allowed s a) : Inv s' := by
  rcases poolStep_cases hstep with ⟨hPipe, handle, threadId, rfl, hne, hnew, -, rfl⟩ |
    ⟨t, ht, redirected, rfl, rfl⟩ | ⟨t, ht, index, rfl, hindex, rfl⟩
  · exact h.createThread (hok _) hPipe handle hne hnew
  · obtain rfl : redirected = true := hok
    exact h.start ht
  · obtain rfl := (h.owns t ht).found index hindex
    exact h.finish ht

/-- The others do not leave the pool consistent. -/
theorem poolStep_not_consistent {s s' : PoolState} {a : PoolLabel} (h : Inv s)
    (hstep : poolStep s a = some s') (hnot : ¬ Allowed s a) : ¬ Consistent s' := by
  intro hcons
  rcases poolStep_cases hstep with ⟨hPipe, handle, threadId, rfl, -, -, -, rfl⟩ |
    ⟨t, ht, redirected, rfl, rfl⟩ | ⟨t, ht, index, rfl, -, -⟩
  · -- the thread goes to the slot of another one
    obtain ⟨i, hi⟩ := not_forall.mp hnot
    exact h.slots.not_nodup (a := ⟨threadId, hPipe, selectedSlot s, none⟩)
      (selectedSlot_used hi) hcons.distinct
  · -- the thread is gone, and its slot is not cleared
    obtain rfl : redirected = false := Bool.eq_false_of_not_eq_true hnot
    have hcount := hcons.count_threads
    rw [scanThreadStart, h.firstSlot_threadId ht] at hcount
    have hlength := List.length_erase_add_one ht
    simp only [Bool.false_eq_true, if_false, h.count] at hcount
    omega
  · exact hnot trivial

/-! ## Runs -/

/-- The count of a run is never below that of its threads and never above the
limit, whatever its steps are. -/
theorem run_count_bounds (as : List PoolLabel) (s s' : PoolState)
    (hs : s.threads.length ≤ s.scanThreadCount.toNat ∧ s.scanThreadCount.toNat ≤ poolSize)
    (hrun : Transition.run poolStep s as = some s') :
    s'.threads.length ≤ s'.scanThreadCount.toNat ∧ s'.scanThreadCount.toNat ≤ poolSize := by
  have hone : (1 : UInt32).toNat = 1 := rfl
  refine Transition.run_invariant (P := fun s => s.threads.length ≤ s.scanThreadCount.toNat ∧
    s.scanThreadCount.toNat ≤ 3) ?_ as s s' hs hrun
  intro u a u' ⟨hge, hle⟩ hstep
  rcases poolStep_cases hstep with ⟨hPipe, handle, threadId, rfl, -, -, hlimit, rfl⟩ |
    ⟨t, ht, redirected, rfl, rfl⟩ | ⟨t, ht, index, rfl, -, rfl⟩
  · have hlt : u.scanThreadCount.toNat < 3 := lt_of_le_of_ne hle hlimit
    simp only [PoolState.createThread, UInt32.toNat_add, hone, List.length_cons]
    omega
  · have hlength := List.length_erase_add_one ht
    rw [scanThreadStart]
    split
    · exact ⟨by simp only; omega, hle⟩
    · split
      · exact ⟨by simp only [List.length_cons]; omega, hle⟩
      · exact ⟨by simp only; omega, hle⟩
  · have hlength := List.length_erase_add_one ht
    have hcount : (1 : UInt32) ≤ u.scanThreadCount := by
      rw [UInt32.le_iff_toNat_le, hone]
      omega
    simp only [scanThreadFinish, UInt32.toNat_sub_of_le _ _ hcount, hone]
    omega

/-- **The pool is consistent in every state of a run** if and only if every
client of the run connects when no slot is in use, and every thread that
starts can disable the redirection. -/
theorem run_consistent_iff (as : List PoolLabel) (s : PoolState)
    (hrun : Transition.run poolStep newPool as = some s) :
    (∀ before after s', as = before ++ after →
        Transition.run poolStep newPool before = some s' → Consistent s') ↔
      Transition.AllSteps poolStep Allowed newPool as :=
  Transition.reached_iff_allSteps (fun _ h => Inv.consistent h) (fun _ _ _ => poolStep_inv)
    (fun _ _ _ => poolStep_not_consistent) as newPool s newPool_inv hrun

instance Allowed.decidable (s : PoolState) : ∀ a, Decidable (Allowed s a)
  | .connect _ _ _ => inferInstanceAs (Decidable (∀ i, (s.scanThreadCtx i).handle = none))
  | .start _ redirected => inferInstanceAs (Decidable (redirected = true))
  | .finish _ => inferInstanceAs (Decidable True)

/-- Two clients, one after the other. -/
def twoInTurn : List PoolLabel :=
  [.connect 10 20 1, .start 1 true, .finish 1, .connect 11 21 2, .start 2 true, .finish 2]

theorem twoInTurn_consistent :
    ¬ ∃ before after s', twoInTurn = before ++ after ∧
      Transition.run poolStep newPool before = some s' ∧ ¬ Consistent s' := by
  rintro ⟨before, after, s', hsplit, hbefore, hnot⟩
  have hruns : (Transition.run poolStep newPool twoInTurn).isSome := by decide
  obtain ⟨s, hrun⟩ := Option.isSome_iff_exists.mp hruns
  exact hnot ((run_consistent_iff twoInTurn s hrun).mpr (by decide) before after s' hsplit hbefore)

/-- Two clients, the second one while the first one is served. -/
def twoAtOnce : List PoolLabel :=
  [.connect 10 20 1, .start 1 true, .connect 11 21 2, .start 2 true, .finish 1]

/-- The first thread has closed the pipe of the second one, which is still
running, and has cleared its slot. -/
theorem twoAtOnce_closes_other_pipe :
    ∃ s, Transition.run poolStep newPool twoAtOnce = some s ∧
      s.threads = [⟨2, 11, 0, some 0⟩] ∧ s.closed = [some 11] ∧ ¬ Consistent s := by
  refine ⟨_, rfl, by decide, by decide, fun h => ?_⟩
  have hcount := h.count_slots
  revert hcount
  decide

end Armadito.OnDemand
