import Armadito.OnAccess.ScanPort

/-!
# OnAccess.ScanPortRuns

The runs of the scan threads. A thread that waits has a request or a
completion to wait for, and a message is always in exactly one place. What
`UserScanFinalize` waits for is a matter of numbers: each thread that is not
past its last request needs one completion to end, and after `CancelIoEx`
only the messages still in the queue complete a request.
-/

namespace Armadito.OnAccess.Windows

open Armadito.Core (A6oFileStatus)
open Tally Transition

/-! ## Steps -/

/-- What a step does, label by label. -/
inductive Stepped (s : PortState) : PortLabel → PortState → Prop where
  | send (message : ScannerMessage) (hopen : s.finalizing ≠ .closed) :
    Stepped s (.send message) { s with queue := s.queue ++ [message] }
  | deliver {requests : Nat} {message : ScannerMessage} {queue : List ScannerMessage}
      (hrequests : s.requests = requests + 1) (hqueue : s.queue = message :: queue) :
    Stepped s .deliver
      { s with requests, queue, completions := s.completions ++ [.received message] }
  | start {i : Nat} (ok : Bool) (hi : s.workers[i]? = some .starting) :
    Stepped s (.start i ok)
      { s with workers := s.workers.set i (if ok then .waiting else .exited) }
  | dequeue {i : Nat} {c : Completion} {completions : List Completion}
      (hi : s.workers[i]? = some .waiting) (hc : s.completions = c :: completions) :
    Stepped s (.dequeue i) { s with workers := s.workers.set i c.worker, completions }
  | reply {i : Nat} {message : ScannerMessage} (scan : Option A6oFileStatus) (ok : Bool)
      (hi : s.workers[i]? = some (.received message)) :
    Stepped s (.reply i scan ok)
      { s with
        workers := s.workers.set i .replied
        replies := s.replies ++ [(scannerReply message scan, ok)] }
  | check {i : Nat} (hi : s.workers[i]? = some .replied) :
    Stepped s (.check i)
      { s with workers := s.workers.set i (if s.finalized then .exited else .pumping) }
  | pumped {i : Nat} (hi : s.workers[i]? = some .pumping) :
    Stepped s (.pump i true)
      { s with workers := s.workers.set i .waiting, requests := s.requests + 1 }
  | pumpFailed {i : Nat} (hi : s.workers[i]? = some .pumping) :
    Stepped s (.pump i false) { s with workers := s.workers.set i .exited }
  | setFinalized (hno : s.finalizing = .no) :
    Stepped s .setFinalized { s with finalized := true, finalizing := .flagged }
  | cancelIo (hflagged : s.finalizing = .flagged) :
    Stepped s .cancelIo { s.cancelIo with finalizing := .cancelled }
  | close (hcancelled : s.finalizing = .cancelled) (hall : ∀ w ∈ s.workers, w = .exited) :
    Stepped s .close { s with finalizing := .closed }

theorem portStep_cases {s s' : PortState} {l : PortLabel} (h : portStep s l = some s') :
    Stepped s l s' := by
  cases l with
  | send message =>
    obtain ⟨hopen, h⟩ := Option.ite_none_left_eq_some.mp h
    exact Option.some.inj h ▸ .send message hopen
  | deliver =>
    simp only [portStep] at h
    split at h
    · next hrequests hqueue => exact Option.some.inj h ▸ .deliver hrequests hqueue
    · cases h
  | start i ok =>
    obtain ⟨hi, h⟩ := Option.ite_none_right_eq_some.mp h
    exact Option.some.inj h ▸ .start ok hi
  | dequeue i =>
    obtain ⟨hi, h⟩ := Option.ite_none_right_eq_some.mp h
    split at h
    · cases h
    · next hc => exact Option.some.inj h ▸ .dequeue hi hc
  | reply i scan ok =>
    simp only [portStep] at h
    split at h
    · next hi => exact Option.some.inj h ▸ .reply scan ok hi
    · cases h
  | check i =>
    obtain ⟨hi, h⟩ := Option.ite_none_right_eq_some.mp h
    exact Option.some.inj h ▸ .check hi
  | pump i ok =>
    obtain ⟨hi, h⟩ := Option.ite_none_right_eq_some.mp h
    split_ifs at h with hok
    · exact Option.some.inj h ▸ hok ▸ .pumped hi
    · rw [Bool.not_eq_true] at hok
      exact Option.some.inj h ▸ hok ▸ .pumpFailed hi
  | setFinalized =>
    obtain ⟨hno, h⟩ := Option.ite_none_right_eq_some.mp h
    exact Option.some.inj h ▸ .setFinalized hno
  | cancelIo =>
    obtain ⟨hflagged, h⟩ := Option.ite_none_right_eq_some.mp h
    exact Option.some.inj h ▸ .cancelIo hflagged
  | close =>
    obtain ⟨hboth, h⟩ := Option.ite_none_right_eq_some.mp h
    exact Option.some.inj h ▸ .close hboth.1 hboth.2

/-! ## Every message in one place -/

/-- The id of the message that a step sends. -/
def PortLabel.sent : PortLabel → Multiset Nat
  | .send message => {message.messageId}
  | _ => 0

/-- The messages that were replied to. -/
def replyIds (s : PortState) : Multiset Nat := total (fun r => {r.1.messageId}) s.replies

/-- The ids of the messages in the queue, completed, in the hands of a
thread, and answered. -/
def accounted (s : PortState) : Multiset Nat :=
  total (fun m => {m.messageId}) s.queue + total Completion.held s.completions +
    total Worker.held s.workers + replyIds s

/-- A thread that moves without a message. -/
theorem total_held_set {workers : List Worker} {i : Nat} {w : Worker}
    (hi : workers[i]? = some w) (hw : w.held = 0) (w' : Worker) :
    total Worker.held (workers.set i w') = total Worker.held workers + w'.held := by
  have hset := total_set_add Worker.held w' hi
  rwa [hw, add_zero] at hset

theorem Completion.held_worker (c : Completion) : c.worker.held = c.held := by
  cases c with
  | received message => rfl
  | aborted => rfl

theorem total_held_aborted (n : Nat) :
    total Completion.held (List.replicate n .aborted) = 0 := by
  induction n with
  | zero => rfl
  | succ n ih => rw [List.replicate_succ, total_cons, ih, Completion.held, add_zero]

theorem accounted_step {s s' : PortState} {l : PortLabel} (h : portStep s l = some s') :
    accounted s' = accounted s + l.sent := by
  cases portStep_cases h with
  | send message hopen =>
    simp only [accounted, replyIds, total_append, total_cons, total_nil, add_zero, PortLabel.sent]
    ac_rfl
  | deliver hrequests hqueue =>
    simp only [accounted, replyIds, hqueue, total_append, total_cons, total_nil, add_zero,
      PortLabel.sent, Completion.held]
    ac_rfl
  | start ok hi =>
    simp only [accounted, replyIds, total_held_set hi rfl, PortLabel.sent]
    cases ok <;> simp [Worker.held]
  | dequeue hi hc =>
    simp only [accounted, replyIds, total_held_set hi rfl, hc, total_cons, PortLabel.sent,
      Completion.held_worker, add_zero]
    ac_rfl
  | @reply i message scan ok hi =>
    have hset := total_set_add Worker.held .replied hi
    rw [show Worker.replied.held = 0 from rfl, add_zero] at hset
    simp only [accounted, replyIds, ← hset, total_append, total_cons, total_nil, add_zero,
      PortLabel.sent, scannerReply, Worker.held]
    ac_rfl
  | check hi =>
    simp only [accounted, replyIds, total_held_set hi rfl, PortLabel.sent]
    cases s.finalized <;> simp [Worker.held]
  | pumped hi =>
    simp [accounted, replyIds, total_held_set hi rfl, PortLabel.sent, Worker.held]
  | pumpFailed hi =>
    simp [accounted, replyIds, total_held_set hi rfl, PortLabel.sent, Worker.held]
  | setFinalized hno =>
    simp [accounted, replyIds, PortLabel.sent]
  | cancelIo hflagged =>
    simp [accounted, replyIds, PortState.cancelIo, total_append, total_held_aborted,
      PortLabel.sent]
  | close hcancelled hall =>
    simp [accounted, replyIds, PortLabel.sent]

theorem accounted_userScanInit : accounted userScanInit = 0 := by
  decide

theorem sentIds_eq_accounted {as : List PortLabel} {s : PortState}
    (hrun : run portStep userScanInit as = some s) : total PortLabel.sent as = accounted s := by
  have h := run_history (P := fun past t => total PortLabel.sent past = accounted t)
    (fun past t l t' ht hstep => by
      rw [total_append, ht, accounted_step hstep, total_cons, total_nil, add_zero])
    as [] userScanInit s accounted_userScanInit.symm hrun
  rwa [List.nil_append] at h

/-! ## A request for each thread that waits -/

/-- Each thread that waits, or is about to, has a request or a completion. -/
def Expected (s : PortState) : Prop :=
  total Worker.expects s.workers ≤ s.requests + s.completions.length

theorem total_set_le {f : Worker → Nat} {workers : List Worker} {i : Nat} {w w' : Worker}
    (hi : workers[i]? = some w) (hle : f w' ≤ f w) :
    total f (workers.set i w') ≤ total f workers := by
  have hset := total_set_add f w' hi
  omega

theorem Completion.expects_worker (c : Completion) : c.worker.expects = 0 := by
  cases c with
  | received message => rfl
  | aborted => rfl

theorem Expected.step {s s' : PortState} {l : PortLabel} (h : Expected s)
    (hstep : portStep s l = some s') : Expected s' := by
  unfold Expected at h ⊢
  cases portStep_cases hstep with
  | send message hopen => exact h
  | deliver hrequests hqueue =>
    simp only [List.length_append, List.length_cons, List.length_nil]
    omega
  | start ok hi =>
    refine (total_set_le hi ?_).trans h
    cases ok <;> simp [Worker.expects]
  | @dequeue i c completions hi hc =>
    have hset := total_set_add Worker.expects c.worker hi
    rw [Completion.expects_worker] at hset
    simp only [Worker.expects] at hset
    simp only [hc, List.length_cons] at h
    show total Worker.expects (s.workers.set i c.worker) ≤ s.requests + completions.length
    omega
  | reply scan ok hi => exact (total_set_le hi (Nat.zero_le _)).trans h
  | check hi =>
    refine (total_set_le hi ?_).trans h
    cases s.finalized <;> simp [Worker.expects]
  | @pumped i hi =>
    have hset := total_set_add Worker.expects .waiting hi
    simp only [Worker.expects] at hset
    show total Worker.expects (s.workers.set i .waiting) ≤ s.requests + 1 + s.completions.length
    omega
  | pumpFailed hi => exact (total_set_le hi (Nat.zero_le _)).trans h
  | setFinalized hno => exact h
  | cancelIo hflagged =>
    simp only [PortState.cancelIo, List.length_append, List.length_replicate]
    omega
  | close hcancelled hall => exact h

theorem expected_of_run {as : List PortLabel} {s : PortState}
    (hrun : run portStep userScanInit as = some s) : Expected s :=
  run_invariant (fun _ _ _ h hstep => h.step hstep) as userScanInit s
    (show total Worker.expects _ ≤ _ by decide) hrun

/-! ## At rest -/

theorem le_total {f : Worker → Nat} {workers : List Worker} {w : Worker} (hw : w ∈ workers) :
    f w ≤ total f workers := by
  induction workers with
  | nil => cases hw
  | cons w' workers ih =>
    rw [total_cons]
    rcases List.mem_cons.mp hw with rfl | hw
    · exact Nat.le_add_right _ _
    · exact (ih hw).trans (Nat.le_add_left _ _)

/-- The threads have ended, or wait. -/
theorem AtRest.worker {s : PortState} (h : AtRest s) {w : Worker} (hw : w ∈ s.workers) :
    w = .waiting ∨ w = .exited := by
  obtain ⟨i, hi⟩ := List.mem_iff_getElem?.mp hw
  cases w with
  | starting =>
    have hstep := h (.start i true) trivial
    simp [portStep, hi] at hstep
  | waiting => exact .inl rfl
  | received message =>
    have hstep := h (.reply i none true) trivial
    simp [portStep, hi] at hstep
  | replied =>
    have hstep := h (.check i) trivial
    simp [portStep, hi] at hstep
  | pumping =>
    have hstep := h (.pump i true) trivial
    simp [portStep, hi] at hstep
  | exited => exact .inr rfl

/-- A thread that waits has a request, and no message is left for it. -/
theorem AtRest.waiting {s : PortState} (h : AtRest s) (hexp : Expected s)
    (hw : Worker.waiting ∈ s.workers) : s.completions = [] ∧ s.queue = [] ∧ 0 < s.requests := by
  obtain ⟨i, hi⟩ := List.mem_iff_getElem?.mp hw
  have hcompletions : s.completions = [] := by
    have hstep := h (.dequeue i) trivial
    cases hc : s.completions with
    | nil => rfl
    | cons c completions => simp [portStep, hi, hc] at hstep
  have hrequests : 0 < s.requests := by
    have hone : Worker.waiting.expects ≤ total Worker.expects s.workers := le_total hw
    rw [Expected, hcompletions] at hexp
    simp only [Worker.expects, List.length_nil] at hone hexp
    omega
  refine ⟨hcompletions, ?_, hrequests⟩
  have hstep := h .deliver trivial
  cases hq : s.queue with
  | nil => rfl
  | cons message queue =>
    obtain ⟨requests, hr⟩ := Nat.exists_eq_add_of_lt hrequests
    simp [portStep, hq, hr] at hstep

/-- One file is scanned, then all threads wait again. -/
def oneScan : List PortLabel :=
  (List.range userScanThreadCount).map (.start · true) ++
    [.send ⟨7, "\\Device\\HarddiskVolume1\\a.txt".toList⟩, .deliver, .dequeue 3,
      .reply 3 (some .clean) true, .check 3, .pump 3 true]

/-! ## The end of the threads -/

/-- The steps that are left to the threads, at most. -/
def remaining (s : PortState) : Nat := total Worker.rank s.workers + s.requests

/-- The completions that the threads need to end, and those they can get. -/
def Supplied (s : PortState) : Prop :=
  total Worker.needs s.workers ≤ s.completions.length + s.queue.length

theorem Completion.rank_worker (c : Completion) : c.worker.rank ≤ 2 := by
  cases c with
  | received message => exact Nat.le_refl 2
  | aborted => exact Nat.zero_le 2

theorem Completion.needs_worker (c : Completion) : c.worker.needs = 0 := by
  cases c with
  | received message => rfl
  | aborted => rfl

/-- Once `Finalized` is set, a step of a thread brings the end nearer. -/
theorem remaining_step {s s' : PortState} {l : PortLabel} (hfinal : s.finalized = true)
    (hl : l.Internal) (h : portStep s l = some s') :
    s'.finalized = true ∧ remaining s' < remaining s := by
  unfold remaining
  cases portStep_cases h with
  | send message hopen => cases hl
  | deliver hrequests hqueue =>
    refine ⟨hfinal, ?_⟩
    simp only [hrequests]
    omega
  | @start i ok hi =>
    refine ⟨hfinal, ?_⟩
    have hset := total_set_add Worker.rank (if ok then .waiting else .exited) hi
    have hle : Worker.rank (if ok then .waiting else .exited) ≤ 3 := by
      cases ok <;> simp [Worker.rank]
    rw [show Worker.starting.rank = 4 from rfl] at hset
    show total Worker.rank (s.workers.set i _) + s.requests < _
    omega
  | @dequeue i c completions hi hc =>
    refine ⟨hfinal, ?_⟩
    have hset := total_set_add Worker.rank c.worker hi
    have hle := c.rank_worker
    rw [show Worker.waiting.rank = 3 from rfl] at hset
    show total Worker.rank (s.workers.set i c.worker) + s.requests < _
    omega
  | @reply i message scan ok hi =>
    refine ⟨hfinal, ?_⟩
    have hset := total_set_add Worker.rank .replied hi
    simp only [Worker.rank] at hset ⊢
    omega
  | @check i hi =>
    refine ⟨hfinal, ?_⟩
    have hset := total_set_add Worker.rank .exited hi
    simp only [hfinal, if_true, Worker.rank] at hset ⊢
    omega
  | @pumped i hi =>
    refine ⟨hfinal, ?_⟩
    have hset := total_set_add Worker.rank .waiting hi
    simp only [Worker.rank] at hset ⊢
    omega
  | @pumpFailed i hi =>
    refine ⟨hfinal, ?_⟩
    have hset := total_set_add Worker.rank .exited hi
    simp only [Worker.rank] at hset ⊢
    omega
  | setFinalized hno => cases hl
  | cancelIo hflagged => cases hl
  | close hcancelled hall => cases hl

/-- The threads stop after finitely many steps. -/
theorem length_le_remaining {as : List PortLabel} :
    ∀ {s t : PortState}, s.finalized = true → (∀ l ∈ as, l.Internal) →
      run portStep s as = some t → as.length + remaining t ≤ remaining s := by
  induction as with
  | nil =>
    intro s t _ _ hrun
    cases hrun
    simp
  | cons l as ih =>
    intro s t hfinal hall hrun
    obtain ⟨s', hstep, hrun⟩ := run_cons_eq_some.mp hrun
    obtain ⟨hfinal', hlt⟩ := remaining_step hfinal (hall l List.mem_cons_self) hstep
    have hle := ih hfinal' (fun l' hl' => hall l' (List.mem_cons_of_mem l hl')) hrun
    rw [List.length_cons]
    omega

theorem Supplied.step {s s' : PortState} {l : PortLabel} (hfinal : s.finalized = true)
    (h : Supplied s) (hl : l.Internal) (hstep : portStep s l = some s') : Supplied s' := by
  unfold Supplied at h ⊢
  cases portStep_cases hstep with
  | send message hopen => cases hl
  | deliver hrequests hqueue =>
    simp only [hqueue, List.length_cons] at h
    simp only [List.length_append, List.length_cons, List.length_nil]
    omega
  | start ok hi =>
    refine (total_set_le hi ?_).trans h
    cases ok <;> simp [Worker.needs]
  | @dequeue i c completions hi hc =>
    have hset := total_set_add Worker.needs c.worker hi
    rw [Completion.needs_worker] at hset
    simp only [Worker.needs] at hset
    simp only [hc, List.length_cons] at h
    show total Worker.needs (s.workers.set i c.worker) ≤ completions.length + s.queue.length
    omega
  | reply scan ok hi => exact (total_set_le hi (Nat.zero_le _)).trans h
  | check hi =>
    refine (total_set_le hi ?_).trans h
    simp [hfinal, Worker.needs]
  | pumped hi =>
    have hle : Worker.waiting.needs ≤ Worker.pumping.needs := Nat.le_refl 1
    exact (total_set_le hi hle).trans h
  | pumpFailed hi => exact (total_set_le hi (Nat.zero_le _)).trans h
  | setFinalized hno => cases hl
  | cancelIo hflagged => cases hl
  | close hcancelled hall => cases hl

/-- The same step when the call it makes succeeds. -/
def PortLabel.succeeding : PortLabel → PortLabel
  | .start i _ => .start i true
  | .pump i _ => .pump i true
  | l => l

/-- A step that succeeds uses up one completion for each thread that it
serves. -/
theorem not_supplied_step {s s' : PortState} {l : PortLabel} (h : ¬ Supplied s)
    (hl : l.Internal) (hstep : portStep s l = some s') :
    ∃ t, portStep s l.succeeding = some t ∧ ¬ Supplied t := by
  unfold Supplied at h ⊢
  have hsucc : ∀ {t}, portStep s l = some t →
      ¬ total Worker.needs t.workers ≤ t.completions.length + t.queue.length →
      l.succeeding = l → ∃ t, portStep s l.succeeding = some t ∧
        ¬ total Worker.needs t.workers ≤ t.completions.length + t.queue.length := by
    intro t ht hnot hsame
    exact ⟨t, hsame.symm ▸ ht, hnot⟩
  cases portStep_cases hstep with
  | send message hopen => cases hl
  | deliver hrequests hqueue =>
    refine hsucc hstep ?_ rfl
    simp only [hqueue, List.length_cons] at h
    simp only [List.length_append, List.length_cons, List.length_nil]
    omega
  | @start i ok hi =>
    refine ⟨{ s with workers := s.workers.set i .waiting }, ?_, ?_⟩
    · simp [PortLabel.succeeding, portStep, hi]
    · have hset := total_set_add Worker.needs .waiting hi
      simp only [Worker.needs] at hset ⊢
      omega
  | @dequeue i c completions hi hc =>
    refine hsucc hstep ?_ rfl
    have hset := total_set_add Worker.needs c.worker hi
    rw [Completion.needs_worker] at hset
    simp only [Worker.needs] at hset
    simp only [hc, List.length_cons] at h
    show ¬ total Worker.needs (s.workers.set i c.worker) ≤ completions.length + s.queue.length
    omega
  | @reply i message scan ok hi =>
    refine hsucc hstep ?_ rfl
    have hset := total_set_add Worker.needs .replied hi
    simp only [Worker.needs] at hset ⊢
    omega
  | @check i hi =>
    refine hsucc hstep ?_ rfl
    have hset := total_set_add Worker.needs (if s.finalized then .exited else .pumping) hi
    simp only [Worker.needs] at hset ⊢
    omega
  | @pumped i hi =>
    refine hsucc hstep ?_ rfl
    have hset := total_set_add Worker.needs .waiting hi
    simp only [Worker.needs] at hset ⊢
    omega
  | @pumpFailed i hi =>
    refine ⟨{ s with workers := s.workers.set i .waiting, requests := s.requests + 1 }, ?_, ?_⟩
    · simp [PortLabel.succeeding, portStep, hi]
    · have hset := total_set_add Worker.needs .waiting hi
      simp only [Worker.needs] at hset ⊢
      omega
  | setFinalized hno => cases hl
  | cancelIo hflagged => cases hl
  | close hcancelled hall => cases hl

theorem PortLabel.internal_succeeding {l : PortLabel} (h : l.Internal) :
    l.succeeding.Internal := by
  cases l <;> trivial

/-- Without the completions they need, the threads can get stuck. -/
theorem exists_stuck_of_not_supplied (n : Nat) :
    ∀ s : PortState, remaining s = n → s.finalized = true → ¬ Supplied s →
      ∃ bs t, (∀ l ∈ bs, l.Internal) ∧ run portStep s bs = some t ∧ AtRest t ∧
        ¬ Supplied t := by
  induction n using Nat.strongRecOn with
  | ind n ih =>
    intro s hn hfinal hnot
    by_cases hrest : AtRest s
    · exact ⟨[], s, by simp, rfl, hrest, hnot⟩
    · simp only [AtRest, not_forall] at hrest
      obtain ⟨l, hl, hsome⟩ := hrest
      obtain ⟨s', hstep⟩ := Option.ne_none_iff_exists'.mp hsome
      obtain ⟨t, ht, hnott⟩ := not_supplied_step hnot hl hstep
      have hint := PortLabel.internal_succeeding hl
      obtain ⟨hfinalt, hlt⟩ := remaining_step hfinal hint ht
      obtain ⟨bs, u, hbs, hrun, hu⟩ := ih (remaining t) (hn ▸ hlt) t rfl hfinalt hnott
      exact ⟨l.succeeding :: bs, u, List.forall_mem_cons.mpr ⟨hint, hbs⟩,
        run_cons_eq_some.mpr ⟨t, ht, hrun⟩, hu⟩

theorem finalized_of_run {as : List PortLabel} {s : PortState}
    (hrun : run portStep userScanInit as = some s) : s.finalizing ≠ .no → s.finalized = true := by
  refine run_invariant (P := fun t => t.finalizing ≠ .no → t.finalized = true) ?_ as userScanInit
    s (fun h => absurd rfl h) hrun
  intro t l t' ht hstep
  cases portStep_cases hstep with
  | setFinalized hno => exact fun _ => rfl
  | cancelIo hflagged => exact fun _ => ht (by simp [hflagged])
  | close hcancelled hall => exact fun _ => ht (by simp [hcancelled])
  | _ => exact ht

theorem total_needs_exited {workers : List Worker} (h : ∀ w ∈ workers, w = .exited) :
    total Worker.needs workers = 0 := by
  induction workers with
  | nil => rfl
  | cons w workers ih =>
    rw [total_cons, h w List.mem_cons_self, ih fun w' hw' => h w' (List.mem_cons_of_mem w hw')]
    rfl

/-- While `UserScanFinalize` waits for the threads, they stop after finitely
many steps, whatever the calls return. They have all ended then, in every
case, if and only if there is a completion or a message for each thread that
still needs one. -/
theorem waitForMultipleObjects_ends_iff {as : List PortLabel} {s : PortState}
    (hrun : run portStep userScanInit as = some s) (hwait : s.finalizing = .cancelled) :
    (∀ bs t, (∀ l ∈ bs, l.Internal) → run portStep s bs = some t →
      bs.length ≤ remaining s) ∧
    ((∀ bs t, (∀ l ∈ bs, l.Internal) → run portStep s bs = some t → AtRest t →
      ∀ w ∈ t.workers, w = .exited) ↔
      total Worker.needs s.workers ≤ s.completions.length + s.queue.length) := by
  have hfinal : s.finalized = true := finalized_of_run hrun (by simp [hwait])
  refine ⟨fun bs t hall ht => ?_, fun hends => ?_, fun hsupplied => ?_⟩
  · have := length_le_remaining hfinal hall ht
    omega
  · by_contra hnot
    obtain ⟨bs, t, hall, ht, hrest, hnott⟩ :=
      exists_stuck_of_not_supplied _ s rfl hfinal hnot
    rw [Supplied, total_needs_exited (hends bs t hall ht hrest)] at hnott
    exact hnott (Nat.zero_le _)
  · intro bs t hall ht hrest w hw
    have hrunt : run portStep userScanInit (as ++ bs) = some t := by
      rw [run_append, hrun]
      exact ht
    have hsuppliedt : Supplied t := by
      clear hrest hw hrunt hwait hrun
      induction bs generalizing s with
      | nil =>
        cases ht
        exact hsupplied
      | cons l bs ih =>
        obtain ⟨s', hstep, ht⟩ := run_cons_eq_some.mp ht
        have hl := hall l List.mem_cons_self
        exact ih (remaining_step hfinal hl hstep).1 (Supplied.step hfinal hsupplied hl hstep)
          (fun l' hl' => hall l' (List.mem_cons_of_mem l hl')) ht
    rcases hrest.worker hw with rfl | rfl
    · obtain ⟨hcompletions, hqueue, -⟩ := hrest.waiting (expected_of_run hrunt) hw
      have hone : Worker.waiting.needs ≤ total Worker.needs t.workers := le_total hw
      rw [Supplied, hcompletions, hqueue] at hsuppliedt
      simp only [Worker.needs, List.length_nil] at hone hsuppliedt
      omega
    · rfl

/-- A thread has found `Finalized` unset and makes its next request after the
others were cancelled. -/
def lateRequest : List PortLabel :=
  [.start 0 true, .send ⟨7, "\\Device\\HarddiskVolume1\\a.txt".toList⟩, .deliver, .dequeue 0,
    .reply 0 (some .clean) true, .check 0, .setFinalized, .cancelIo]

theorem lateRequest_waits :
    ∃ s, run portStep userScanInit lateRequest = some s ∧
      ¬ ∀ bs t, (∀ l ∈ bs, l.Internal) → run portStep s bs = some t → AtRest t →
        ∀ w ∈ t.workers, w = .exited := by
  refine ⟨_, rfl, fun hends => ?_⟩
  exact absurd ((@waitForMultipleObjects_ends_iff lateRequest _ rfl rfl).2.mp hends) (by decide)

end Armadito.OnAccess.Windows
