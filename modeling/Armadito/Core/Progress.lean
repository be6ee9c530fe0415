import Armadito.Core.Counters
import Armadito.Lib.InOrder
import Mathlib

/-!
# Core.Progress

The progress values of a run's events.

The level is the quotient of the counters, and it only rises. A thread
measures it, decides, and fires some steps later, so that another thread
can overtake it with a larger value. What it measures is the level while an
`int` can hold the quotient: the cap of 100 comes after the cast.
-/

namespace Armadito.Core.Pool

open EventNew Producers Tally InOrder

/-! ## What is held and what is sent -/

/-- The progress a thread has measured and neither sent nor dropped. -/
def Task.pending : Task → Option Int
  | .running _ (.measured p) | .running _ (.mustSend p _)
  | .running _ (.readMalware p _ _) | .running _ (.readSuspicious p _ _ _) => some p
  | _ => none

/-- The progress that the next step of the thread fires. -/
def Task.firing : Task → Option Int
  | .running _ (.readSuspicious p _ _ _) => some p
  | _ => none

theorem Task.pending_of_firing {t : Task} {p : Int} (h : t.firing = some p) :
    t.pending = some p := by
  cases t with
  | running scan phase =>
    cases phase with
    | readSuspicious _ _ _ _ => exact h
    | _ => cases h
  | _ => cases h

/-- The next step of the thread measures the progress. -/
def Task.measures (o : A6oOnDemand) : Task → Bool
  | .running _ .statusCounted => o.progressPeriod ≠ 0
  | _ => false

/-- The value of a progress event. -/
def progressOf : A6oEventUnion → Option Int
  | .evOnDemandProgress ev => some ev.progress.toInt
  | _ => none

/-- The progress values of the events, in the order they were fired. -/
def progressValues (log : List EventNew.A6oEvent) : List Int :=
  log.filterMap fun e => progressOf e.u

@[simp] theorem progressValues_nil : progressValues [] = [] := rfl

@[simp] theorem progressValues_append (l l' : List EventNew.A6oEvent) :
    progressValues (l ++ l') = progressValues l ++ progressValues l' := by
  simp [progressValues]

/-- **Progress never goes backwards.** -/
structure ProgressForward (s : State) : Prop where
  bounds : ∀ p ∈ progressValues s.log, 0 ≤ p ∧ p ≤ 100
  sorted : (progressValues s.log).Pairwise (· ≤ ·)

/-- The files fit the counters, a thread fires its progress while no thread
holds a smaller one, and it measures a quotient that an `int` can hold. -/
def SentInOrder (s : State) : Label → Prop
  | .handOver _ => s.tasks.length + 1 < 2 ^ 31
  | .thread i _ => (∀ p ∈ (s.tasks[i]?).bind Task.firing,
      ∀ q ∈ s.tasks.filterMap Task.pending, p ≤ q) ∧
      ((s.tasks[i]?).any (Task.measures s.onDemand) → progressQuotient s.onDemand < 2 ^ 31)
  | .toScan count => 0 ≤ count.toInt
  | .race _ _ _ _ | .complete _ _ => True

instance (s : State) : (l : Label) → Decidable (SentInOrder s l)
  | .handOver _ => inferInstanceAs (Decidable (s.tasks.length + 1 < 2 ^ 31))
  | .thread i _ => inferInstanceAs (Decidable ((∀ p ∈ (s.tasks[i]?).bind Task.firing,
      ∀ q ∈ s.tasks.filterMap Task.pending, p ≤ q) ∧
      ((s.tasks[i]?).any (Task.measures s.onDemand) → progressQuotient s.onDemand < 2 ^ 31)))
  | .toScan count => inferInstanceAs (Decidable (0 ≤ count.toInt))
  | .race _ _ _ _ | .complete _ _ => inferInstanceAs (Decidable True)

/-! ## The level -/

/-- The progress as a number that no cast has touched. -/
def level (o : A6oOnDemand) : Int := min (progressQuotient o) 100

theorem level_le (o : A6oOnDemand) : level o ≤ 100 := Int.min_le_right _ _

theorem progressQuotient_nonneg {o : A6oOnDemand} (hscanned : 0 ≤ o.scannedCount.toInt)
    (hscan : 0 ≤ o.toScanCount.toInt) : 0 ≤ progressQuotient o :=
  Int.tdiv_nonneg (by omega) hscan

/-- While `to_scan_count` stays, the level rises with `scanned_count`. -/
theorem level_mono {o o' : A6oOnDemand} (hto : o'.toScanCount = o.toScanCount)
    (hscan : 0 ≤ o.toScanCount.toInt)
    (hle : o.scannedCount.toInt ≤ o'.scannedCount.toInt) : level o ≤ level o' := by
  have hquot : progressQuotient o ≤ progressQuotient o' := by
    rw [progressQuotient, progressQuotient, hto]
    rcases Int.lt_or_eq_of_le hscan with hpos | hzero
    · exact Int.tdiv_le_tdiv hpos (by omega)
    · rw [← hzero, Int.tdiv_zero, Int.tdiv_zero]
  rw [level, level]
  omega

/-- What a thread measures while the quotient fits an `int`. -/
theorem progressValue_eq_level {o : A6oOnDemand} (hnonneg : 0 ≤ progressQuotient o)
    (hfits : progressQuotient o < 2 ^ 31) : progressValue o = level o := by
  rw [progressValue, level, castToInt, if_pos]
  omega

/-- Beyond that the cast has come before the cap. -/
example : progressValue { poolScan with scannedCount := 21474837, toScanCount := 1 } = -2 ^ 31 := by
  decide

/-! ## One step of a thread -/

/-- A step sends the value the thread was about to fire, or sends nothing
and has read the level at most. -/
inductive Publishes (o : A6oOnDemand) (t : Task) (e : Effect) : Prop where
  | holds (hfired : progressValues e.fired = [])
    (hheld : ∀ q, e.task.pending = some q →
      t.pending = some q ∨ (o.toScanCount ≠ 0 ∧ t.measures o ∧ q = progressValue o))
  | sends (p : Int) (hfiring : t.firing = some p)
    (hfired : progressValues e.fired = [(Int32.ofInt p).toInt])
    (hdropped : e.task.pending = none)

theorem Publishes.quiet {o : A6oOnDemand} {t : Task} {e : Effect} (hfired : e.fired = [])
    (hheld : e.task.pending = none ∨ e.task.pending = t.pending) : Publishes o t e := by
  refine .holds (by rw [hfired, progressValues_nil]) ?_
  intro q hq
  rcases hheld with hnone | hsame
  · rw [hnone] at hq
    cases hq
  · exact .inl (hsame ▸ hq)

theorem countStatus_toScanCount (o : A6oOnDemand) (status : A6oFileStatus) :
    (countStatus o status).toScanCount = o.toScanCount := by
  cases status <;> rfl

/-- What a step of a thread does to the progress. -/
structure ProgressSpec (o : A6oOnDemand) (t : Task) (e : Effect) : Prop where
  flags : e.onDemand.flags = o.flags
  toScan : e.onDemand.toScanCount = o.toScanCount
  publishes : Publishes o t e

theorem advance_progress {env : Env} {o : A6oOnDemand} {conf : A6oScanConf} {scan : Scan}
    {phase : Phase} {e : Effect} (h : advance env o conf scan phase = .ok e) :
    ProgressSpec o (.running scan phase) e := by
  cases phase with
  | counted =>
    cases h
    exact ⟨countStatus_flags o _, countStatus_toScanCount o _, .quiet rfl (.inl rfl)⟩
  | statusCounted =>
    rw [advance] at h
    split at h
    · cases h
      exact ⟨rfl, rfl, .quiet rfl (.inl rfl)⟩
    · next hsend =>
      cases h
      refine ⟨rfl, rfl, .holds rfl ?_⟩
      intro q hq
      obtain rfl : progressValue o = q := Option.some.inj hq
      refine .inr ⟨fun hzero => hsend (.inr hzero), ?_, rfl⟩
      simpa [Task.measures] using fun hperiod => hsend (.inl hperiod)
  | measured progress =>
    rw [advance] at h
    split at h
    · cases h
      exact ⟨rfl, rfl, .quiet rfl (.inr rfl)⟩
    · cases h
      exact ⟨rfl, rfl, .quiet rfl (.inl rfl)⟩
  | mustSend progress now =>
    cases h
    exact ⟨rfl, rfl, .quiet rfl (.inr rfl)⟩
  | readMalware progress now malware =>
    cases h
    exact ⟨rfl, rfl, .quiet rfl (.inr rfl)⟩
  | readSuspicious progress now malware suspicious =>
    obtain ⟨fired, hfired, h⟩ := bind_eq_ok.mp h
    cases h
    refine ⟨rfl, rfl, .sends progress rfl ?_ rfl⟩
    rw [fire_eq_ok hfired]
    rfl
  | progressUpdated =>
    obtain ⟨_, -, h⟩ := bind_eq_ok.mp h
    cases h
    exact ⟨rfl, rfl, .quiet rfl (.inl rfl)⟩
  | _ =>
    cases h
    exact ⟨rfl, rfl, .quiet rfl (.inl rfl)⟩

theorem progressValues_detection {env : Env} {o : A6oOnDemand} {report : A6oReport}
    {fired : List EventNew.A6oEvent} (h : fireDetected env o report = .ok fired) :
    progressValues fired = [] := by
  have hmap : progressValues fired = (fired.map (·.u)).filterMap progressOf := by
    rw [progressValues, List.filterMap_map]
    rfl
  rw [hmap, fireDetected_eq_ok h, detection]
  split <;> rfl

theorem taskStep_progress {env : Env} {o : A6oOnDemand} {conf : A6oScanConf} {t : Task}
    {e : Effect} (h : taskStep env o conf t = some (.ok e)) : ProgressSpec o t e := by
  cases t with
  | queued path =>
    obtain ⟨⟨scan, conf'⟩, -, h⟩ := bind_eq_ok.mp (Option.some.inj h)
    obtain ⟨fired, hfired, h⟩ := bind_eq_ok.mp h
    cases h
    refine ⟨rfl, rfl, .holds (progressValues_detection hfired) ?_⟩
    intro q hq
    cases hq
  | running scan phase => exact advance_progress (Option.some.inj h)
  | done scan => cases h

/-! ## The runs -/

/-- What the threads hold. -/
def held (tasks : List Task) : Set Int := {q | q ∈ tasks.filterMap Task.pending}

theorem mem_held {tasks : List Task} {q : Int} :
    q ∈ held tasks ↔ ∃ t ∈ tasks, t.pending = some q := List.mem_filterMap

/-- No thread measures before `to_scan_count` is stored. -/
structure Forward (s : State) : Prop where
  few : s.tasks.length < 2 ^ 31
  toScan : 0 ≤ s.onDemand.toScanCount.toInt
  unmeasured : s.onDemand.toScanCount = 0 → held s.tasks = ∅ ∧ progressValues s.log = []
  order : Published 0 (level s.onDemand) (held s.tasks) (progressValues s.log)

theorem Forward.progressForward {s : State} (h : Forward s) : ProgressForward s where
  bounds p hp := ⟨(h.order.sent_mem p hp).1, (h.order.sent_mem p hp).2.trans (level_le s.onDemand)⟩
  sorted := h.order.sorted

theorem mem_held_set {tasks : List Task} {i : Nat} {t' : Task} {q : Int}
    (h : q ∈ held (tasks.set i t')) : q ∈ held tasks ∨ t'.pending = some q := by
  obtain ⟨u, hu, hq⟩ := mem_held.mp h
  rcases List.mem_or_eq_of_mem_set hu with hold | rfl
  · exact .inl (mem_held.mpr ⟨u, hold, hq⟩)
  · exact .inr hq

/-- While there are fewer than 2³¹ tasks, `scanned_count` does not wrap. -/
theorem total_toInt {tasks : List Task} {c : Int32} (hc : c = .ofNat (total Task.scanned tasks))
    (hfew : tasks.length < 2 ^ 31) : c.toInt = total Task.scanned tasks := by
  rw [hc]
  exact Int32.toInt_ofNat_of_lt (Nat.lt_of_le_of_lt (total_scanned_le_length tasks) hfew)

theorem Forward.quotient_nonneg {s : State} (hs : Forward s) (hinv : Inv s) :
    0 ≤ progressQuotient s.onDemand := by
  have hscanned := total_toInt hinv.scanned hs.few
  exact progressQuotient_nonneg (by omega) hs.toScan

/-- A step of a thread raises the level, or leaves it. -/
theorem level_thread {s : State} (hs : Forward s) (hinv : Inv s) {i : Nat} {env : Env} {t : Task}
    {e : Effect} (ht : s.tasks[i]? = some t) (htask : taskStep env s.onDemand s.conf t
      = some (.ok e)) : level s.onDemand ≤ level e.onDemand := by
  have hbefore := total_toInt hinv.scanned hs.few
  obtain ⟨hcount, hle⟩ := (taskStep_spec htask).scanned.total_set ht hinv.scanned
  have hafter := total_toInt hcount (by rw [List.length_set]; exact hs.few)
  exact level_mono (taskStep_progress htask).toScan hs.toScan (by omega)

theorem published_thread {s : State} (hs : Forward s) {i : Nat} {t : Task} {e : Effect}
    (ht : t ∈ s.tasks) (hpub : Publishes s.onDemand t e)
    (hnonneg : 0 ≤ progressQuotient s.onDemand)
    (hleast : ∀ p, t.firing = some p → ∀ q ∈ held s.tasks, p ≤ q)
    (hfits : t.measures s.onDemand → progressQuotient s.onDemand < 2 ^ 31) :
    Published 0 (level s.onDemand) (held (s.tasks.set i e.task))
      (progressValues (s.log ++ e.fired)) := by
  cases hpub with
  | holds hfired hheld =>
    rw [progressValues_append, hfired, List.append_nil]
    refine hs.order.read (Int.le_min.mpr ⟨hnonneg, by decide⟩) ?_
    intro q hq
    rcases mem_held_set hq with hold | hq
    · exact .inr hold
    · rcases hheld q hq with hold | ⟨-, hmeasures, hvalue⟩
      · exact .inr (mem_held.mpr ⟨t, ht, hold⟩)
      · exact .inl (hvalue.trans (progressValue_eq_level hnonneg (hfits hmeasures)))
  | sends p hfiring hfired hdropped =>
    have hp : p ∈ held s.tasks := mem_held.mpr ⟨t, ht, Task.pending_of_firing hfiring⟩
    obtain ⟨hpos, hle⟩ := hs.order.held_mem p hp
    have hcap := level_le s.onDemand
    rw [progressValues_append, hfired, Int32.toInt_ofInt_of_le (by omega) (by omega)]
    refine hs.order.send hp (hleast p hfiring) ?_
    intro q hq
    rcases mem_held_set hq with hold | hq
    · exact hold
    · rw [hdropped] at hq
      cases hq

/-- Without a total to reach, a thread neither measures nor sends. -/
theorem unmeasured_thread {s : State} (hs : Forward s) {i : Nat} {t : Task} {e : Effect}
    (ht : t ∈ s.tasks) (hpub : Publishes s.onDemand t e) (hzero : s.onDemand.toScanCount = 0) :
    held (s.tasks.set i e.task) = ∅ ∧ progressValues (s.log ++ e.fired) = [] := by
  obtain ⟨hnone, hnothing⟩ := hs.unmeasured hzero
  have hidle : t.pending = none := by
    refine Option.eq_none_iff_forall_not_mem.mpr fun q hq => ?_
    have : q ∈ held s.tasks := mem_held.mpr ⟨t, ht, hq⟩
    rw [hnone] at this
    exact this
  cases hpub with
  | holds hfired hheld =>
    rw [progressValues_append, hfired, hnothing]
    refine ⟨Set.eq_empty_iff_forall_notMem.mpr fun q hq => ?_, rfl⟩
    rcases mem_held_set hq with hold | hq
    · rw [hnone] at hold
      exact hold
    · rcases hheld q hq with hold | ⟨hscan, -⟩
      · rw [hidle] at hold
        cases hold
      · exact hscan hzero
  | sends p hfiring hfired hdropped =>
    rw [Task.pending_of_firing hfiring] at hidle
    cases hidle

theorem forward_thread {s : State} (hs : Forward s) (hinv : Inv s) {i : Nat} {env : Env}
    {t : Task} {r : Except Fault Effect} (ht : s.tasks[i]? = some t)
    (hr : taskStep env s.onDemand s.conf t = some r)
    (hleast : ∀ p, t.firing = some p → ∀ q ∈ held s.tasks, p ≤ q)
    (hfits : t.measures s.onDemand → progressQuotient s.onDemand < 2 ^ 31) :
    Forward (s.apply i r) := by
  cases r with
  | error f => exact ⟨hs.few, hs.toScan, hs.unmeasured, hs.order⟩
  | ok e =>
    have hmem : t ∈ s.tasks := List.mem_of_getElem? ht
    obtain ⟨-, hto, hpub⟩ := taskStep_progress hr
    have hpublished := @published_thread s hs i t e hmem hpub (hs.quotient_nonneg hinv) hleast hfits
    refine ⟨?_, ?_, ?_, hpublished.raise (level_thread hs hinv ht hr)⟩
    · simpa [State.apply] using hs.few
    · simpa [State.apply, hto] using hs.toScan
    · intro hzero
      exact unmeasured_thread hs hmem hpub (hto ▸ hzero)

theorem forward_step {s s' : State} {l : Label} (hs : Forward s) (hinv : Inv s)
    (hok : SentInOrder s l) (h : step s l = some s') : Forward s' := by
  obtain ⟨-, -, hmove⟩ := step_eq_some_iff.mp h
  cases hmove with
  | handOver f _ =>
    have hheld : held (s.tasks ++ [.queued f.path]) = held s.tasks := by
      ext q
      simp [held, Task.pending]
    refine ⟨?_, hs.toScan, ?_, ?_⟩
    · rw [List.length_append]
      exact hok
    · simpa only [hheld] using hs.unmeasured
    · simpa only [hheld] using hs.order
  | thread i env t r ht hr _ =>
    obtain ⟨hleast, hfits⟩ := hok
    rw [ht] at hleast hfits
    exact forward_thread hs hinv ht hr hleast hfits
  | race _ _ _ _ _ => exact ⟨hs.few, hs.toScan, hs.unmeasured, hs.order⟩
  | toScan count hzero =>
    obtain ⟨hnone, hnothing⟩ := hs.unmeasured hzero
    refine ⟨hs.few, hok, fun _ => ⟨hnone, hnothing⟩, ?_⟩
    simp only [hnone, hnothing]
    exact .empty _ _
  | complete duration time _ =>
    have hlog : ∀ ev, progressValues (s.log ++ [⟨time, fireOnDemandCompletedEvent s.onDemand ev⟩])
        = progressValues s.log := by
      intro ev
      rw [progressValues_append]
      exact List.append_nil _
    refine ⟨hs.few, hs.toScan, ?_, ?_⟩
    · simpa only [hlog] using hs.unmeasured
    · simpa only [hlog] using hs.order

theorem forward_start {o : A6oOnDemand} (conf : A6oScanConf) (time : Int64)
    (hzero : o.toScanCount = 0) : Forward (start o conf time) := by
  have hheld : held ([] : List Task) = ∅ := by simp [held]
  refine ⟨by simp [start], by simp [start, hzero], fun _ => ⟨hheld, rfl⟩, ?_⟩
  rw [start, hheld]
  exact .empty _ _

theorem forward_run {realpath : Option (CString → Option CString)} {root : CString}
    {scanId : Int} {flags : Nat} {sendProgress : Int} {o : A6oOnDemand}
    {conf : A6oScanConf} {time : Int64} {labels : List Label} {s : State}
    (hnew : a6oOnDemandNew realpath root scanId flags sendProgress = some o)
    (hall : Transition.AllSteps step SentInOrder (start o conf time) labels)
    (hrun : Transition.run step (start o conf time) labels = some s) : Forward s := by
  obtain ⟨root', -, rfl⟩ := Option.map_eq_some_iff.mp hnew
  refine (Transition.run_invariant_of_allSteps (P := fun s => Forward s ∧ Inv s) ?_ labels _ s
    ⟨forward_start conf time rfl, inv_start conf time rfl rfl rfl⟩ hall hrun).1
  intro s l s' ⟨hs, hinv⟩ hok h
  exact ⟨forward_step hs hinv hok h, inv_step hinv h⟩

/-- **While each thread fires before the threads that measured more, and
measures what an `int` can hold, progress never goes backwards**: in every
state of every run of such steps. -/
theorem progress_forward {realpath : Option (CString → Option CString)} {root : CString}
    {scanId : Int} {flags : Nat} {sendProgress : Int} {o : A6oOnDemand}
    {conf : A6oScanConf} {time : Int64} {labels : List Label} {s : State}
    (hnew : a6oOnDemandNew realpath root scanId flags sendProgress = some o)
    (hall : Transition.AllSteps step SentInOrder (start o conf time) labels)
    (hrun : Transition.run step (start o conf time) labels = some s) : ProgressForward s :=
  (forward_run hnew hall hrun).progressForward

/-! ## Without a pool -/

/-- No pool, and every task but the last is done. -/
structure Serial (s : State) : Prop where
  threaded : s.onDemand.threaded = false
  tasks : ∃ past : List Task, past.all Task.isDone ∧ ∃ current : Option Task,
    s.tasks = past ++ current.toList

theorem filterMap_pending_of_done {tasks : List Task} (h : tasks.all Task.isDone) :
    tasks.filterMap Task.pending = [] := by
  refine List.filterMap_eq_nil_iff.mpr fun t ht => ?_
  have hdone := List.all_eq_true.mp h t ht
  cases t with
  | done _ => rfl
  | _ => cases hdone

/-- The task that can take a step is the last. -/
theorem Serial.last {s : State} (hs : Serial s) {i : Nat} {t : Task} (ht : s.tasks[i]? = some t)
    (hdone : t.isDone = false) :
    ∃ past : List Task, past.all Task.isDone ∧ s.tasks = past ++ [t] ∧ i = past.length := by
  obtain ⟨past, hpast, current, htasks⟩ := hs.tasks
  rw [htasks] at ht
  have hout : past.length ≤ i := by
    by_contra hin
    rw [List.getElem?_append_left (by omega)] at ht
    have := List.all_eq_true.mp hpast t (List.mem_of_getElem? ht)
    rw [hdone] at this
    cases this
  rw [List.getElem?_append_right hout] at ht
  cases current with
  | none => simp at ht
  | some c =>
    obtain ⟨hi, hc⟩ := List.getElem?_eq_some_iff.mp ht
    have hi : i - past.length = 0 := by simpa using hi
    obtain rfl : c = t := by simpa [hi] using hc
    exact ⟨past, hpast, htasks, by omega⟩

theorem serial_step {s s' : State} {l : Label} (hs : Serial s) (h : step s l = some s') :
    Serial s' := by
  obtain ⟨-, -, hmove⟩ := step_eq_some_iff.mp h
  cases hmove with
  | handOver f haccepts =>
    refine ⟨hs.threaded, s.tasks, ?_, some (.queued f.path), rfl⟩
    cases f with
    | poolPush path => simp [State.accepts, hs.threaded] at haccepts
    | scanFile path => simpa [State.accepts, hs.threaded] using haccepts
  | thread i env t r ht hr _ =>
    cases r with
    | error f => exact ⟨hs.threaded, hs.tasks⟩
    | ok e =>
      have hdone : t.isDone = false := by
        cases t with
        | done _ => cases hr
        | _ => rfl
      obtain ⟨past, hpast, htasks, rfl⟩ := hs.last ht hdone
      refine ⟨?_, past, hpast, some e.task, by simp [State.apply, htasks]⟩
      have hflags := (taskStep_progress hr).flags
      have hthreaded := hs.threaded
      simp only [A6oOnDemand.threaded, A6oOnDemand.hasFlag] at hthreaded ⊢
      simpa [State.apply, hflags] using hthreaded
  | race _ _ _ _ _ => exact ⟨hs.threaded, hs.tasks⟩
  | toScan count _ => exact ⟨hs.threaded, hs.tasks⟩
  | complete duration time _ => exact ⟨hs.threaded, hs.tasks⟩

/-- The only thread that fires is the only one that holds a value. -/
theorem Serial.least {s : State} (hs : Serial s) {i : Nat} {p : Int}
    (hp : p ∈ (s.tasks[i]?).bind Task.firing) : ∀ q ∈ s.tasks.filterMap Task.pending, p ≤ q := by
  intro q hq
  obtain ⟨t, ht, hfiring⟩ := Option.bind_eq_some_iff.mp hp
  have hdone : t.isDone = false := by
    cases t with
    | done _ => cases hfiring
    | _ => rfl
  obtain ⟨past, hpast, htasks, -⟩ := hs.last ht hdone
  rw [htasks, List.filterMap_append, filterMap_pending_of_done hpast] at hq
  obtain rfl : q = p := by simpa [Task.pending_of_firing hfiring] using hq
  exact Int.le_refl q

theorem step_length {s s' : State} {l : Label} (h : step s l = some s') :
    s'.tasks.length = s.tasks.length + (handedOver [l]).length := by
  obtain ⟨-, -, hmove⟩ := step_eq_some_iff.mp h
  cases hmove with
  | handOver f _ => simp
  | thread i env t r _ _ _ => cases r <;> simp [State.apply]
  | race _ _ _ _ _ => rfl
  | toScan count _ => rfl
  | complete duration time _ => rfl

/-- A total for which the progress of so many files fits an `int`. -/
def Roomy (files : Nat) (count : Int32) : Prop :=
  count = 0 ∨ (0 < count.toInt ∧ 100 * files < 2 ^ 31 * count.toInt)

instance (files : Nat) (count : Int32) : Decidable (Roomy files count) :=
  inferInstanceAs (Decidable (_ ∨ _))

theorem Roomy.nonneg {files : Nat} {count : Int32} (h : Roomy files count) :
    0 ≤ count.toInt := by
  rcases h with rfl | ⟨hpos, -⟩
  · decide
  · omega

theorem progressQuotient_lt {o : A6oOnDemand} {files : Nat} (hroomy : Roomy files o.toScanCount)
    (hnonneg : 0 ≤ o.scannedCount.toInt) (hle : o.scannedCount.toInt ≤ files) :
    progressQuotient o < 2 ^ 31 := by
  rw [progressQuotient, Int.tdiv_eq_ediv_of_nonneg (by omega)]
  rcases hroomy with hzero | ⟨hpos, hroom⟩
  · rw [hzero, Int32.toInt_zero, Int.ediv_zero]
    decide
  · exact Int.ediv_lt_of_lt_mul hpos (by omega)

theorem step_toScan {s s' : State} {l : Label} {P : Int32 → Prop} (hP : P s.onDemand.toScanCount)
    (hcount : ∀ count, l = .toScan count → P count) (h : step s l = some s') :
    P s'.onDemand.toScanCount := by
  obtain ⟨-, -, hmove⟩ := step_eq_some_iff.mp h
  cases hmove with
  | thread i env t r _ hr _ =>
    cases r with
    | error f => exact hP
    | ok e => exact (taskStep_progress hr).toScan ▸ hP
  | toScan count _ => exact hcount count rfl
  | _ => exact hP

/-- By induction on the labels: `files` is the number of all the files, those
that are still to come included. -/
theorem serial_allSteps {files : Nat} (hmax : files < 2 ^ 31) {labels : List Label} :
    ∀ {s : State}, Serial s → Inv s → Roomy files s.onDemand.toScanCount →
      s.tasks.length + (handedOver labels).length ≤ files →
      (∀ count, .toScan count ∈ labels → Roomy files count) →
      Transition.AllSteps step SentInOrder s labels := by
  induction labels with
  | nil =>
    intro s _ _ _ _ _
    trivial
  | cons l ls ih =>
    intro s hs hinv hroomy hfew hcount
    rw [show l :: ls = [l] ++ ls from rfl, handedOver_append, List.length_append] at hfew
    refine ⟨?_, fun s' hstep => ih (serial_step hs hstep) (inv_step hinv hstep)
      (step_toScan hroomy (fun count hl => hcount count (by simp [hl])) hstep) ?_
      fun count hc => hcount count (List.mem_cons_of_mem l hc)⟩
    · cases l with
      | handOver f =>
        simp only [handedOver_handOver, handedOver_nil, List.length_singleton] at hfew
        show s.tasks.length + 1 < 2 ^ 31
        omega
      | thread i env =>
        have hle := total_scanned_le_length s.tasks
        have hscanned := total_toInt hinv.scanned (by omega)
        exact ⟨fun p hp => hs.least hp,
          fun _ => progressQuotient_lt hroomy (by omega) (by omega)⟩
      | toScan count => exact (hcount count List.mem_cons_self).nonneg
      | race _ _ _ _ => trivial
      | complete duration time => trivial
    · rw [step_length hstep]
      omega

/-- **Without a pool progress never goes backwards** while the files fit
the counters and the totals that are stored. -/
theorem progress_forward_of_serial {realpath : Option (CString → Option CString)}
    {root : CString} {scanId : Int} {flags : Nat} {sendProgress : Int} {o : A6oOnDemand}
    {conf : A6oScanConf} {time : Int64} {labels : List Label} {s : State}
    (hnew : a6oOnDemandNew realpath root scanId flags sendProgress = some o)
    (hserial : o.hasFlag a6oScanThreaded = false) (hfew : (handedOver labels).length < 2 ^ 31)
    (hcount : ∀ count, .toScan count ∈ labels → Roomy (handedOver labels).length count)
    (hrun : Transition.run step (start o conf time) labels = some s) : ProgressForward s := by
  have hs : Serial (start o conf time) := ⟨hserial, [], rfl, none, rfl⟩
  refine (forward_run hnew ?_ hrun).progressForward
  obtain ⟨root', -, rfl⟩ := Option.map_eq_some_iff.mp hnew
  exact serial_allSteps hfew hs (inv_start conf time rfl rfl rfl) (.inl rfl) (by simp [start])
    hcount

/-! ## Witnesses -/

/-- The steps of a thread from its file to the event. -/
def toEvent (i : Nat) : List Label := List.replicate 8 (.thread i untypedFile)

/-- Two files for the pool. -/
def twoFiles : List Label :=
  [.handOver (.poolPush "/r/f".toList), .handOver (.poolPush "/r/g".toList), .toScan 2]

theorem progress_forward_two : ∃ s,
    Transition.run step (start poolScan poolConf 0) (twoFiles ++ toEvent 0 ++ toEvent 1) = some s ∧
    progressValues s.log = [50, 100] ∧ ProgressForward s := by
  have hvalues : (Transition.run step (start poolScan poolConf 0)
      (twoFiles ++ toEvent 0 ++ toEvent 1)).map (fun s => progressValues s.log)
        = some [50, 100] := rfl
  obtain ⟨s, hs, hlog⟩ := Option.map_eq_some_iff.mp hvalues
  exact ⟨s, hs, hlog, progress_forward poolScan_new (by decide +kernel) hs⟩

/-- The first thread measures one file of two, the second both, and the
second is faster. -/
def overtaken : List Label :=
  twoFiles ++ List.replicate 4 (.thread 0 untypedFile) ++ toEvent 1
    ++ List.replicate 4 (.thread 0 untypedFile)

/-- Progress goes back from 100 to 50. -/
theorem progress_backwards : ∃ s,
    Transition.run step (start poolScan poolConf 0) overtaken = some s ∧
    progressValues s.log = [100, 50] ∧ ¬ ProgressForward s := by
  have hvalues : (Transition.run step (start poolScan poolConf 0) overtaken).map
      (fun s => progressValues s.log) = some [100, 50] := rfl
  obtain ⟨s, hs, hlog⟩ := Option.map_eq_some_iff.mp hvalues
  refine ⟨s, hs, hlog, fun h => ?_⟩
  have hsorted := h.sorted
  rw [hlog] at hsorted
  revert hsorted
  decide

end Armadito.Core.Pool
