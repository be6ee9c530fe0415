import Armadito.OnAccess.WatchdogRuns

/-!
# OnAccess.Stamp

The arithmetic of `stamp.h`, and what a round of the watchdog thread takes
out of the queue at a given time. Signed overflow is undefined, so an
operation that would leave the type has no result.
-/

namespace Armadito.OnAccess

open DoublyLinked Watchdog

/-- `ONE_SECOND`, in nanoseconds. -/
def oneSecond : Int := 1000000000

/-- The values of the type `long`, of `tv_sec` and of `tv_nsec`. -/
def IsLong (n : Int) : Prop := -9223372036854775808 ≤ n ∧ n < 9223372036854775808

instance (n : Int) : Decidable (IsLong n) := inferInstanceAs (Decidable (_ ∧ _))

/-- A `long`; none when the value overflows. -/
def long (n : Int) : Option Int := if IsLong n then some n else none

/-- `stamp_add`. -/
def stampAdd (dst src : Timespec) : Option Timespec := do
  let tvNsec ← long (dst.tvNsec + src.tvNsec)
  let dst : Timespec ←
    if tvNsec ≥ oneSecond then do
      let tvNsec ← long (tvNsec - oneSecond)
      let tvSec ← long (dst.tvSec + 1)
      pure { tvSec, tvNsec }
    else pure { dst with tvNsec }
  let tvSec ← long (dst.tvSec + src.tvSec)
  return { dst with tvSec }

/-- `stamp_sub`. -/
def stampSub (dst src : Timespec) : Option Timespec := do
  let tvNsec ← long (dst.tvNsec - src.tvNsec)
  let dst : Timespec ←
    if tvNsec < 0 then do
      let tvNsec ← long (tvNsec + oneSecond)
      let tvSec ← long (dst.tvSec - 1)
      pure { tvSec, tvNsec }
    else pure { dst with tvNsec }
  let tvSec ← long (dst.tvSec - src.tvSec)
  return { dst with tvSec }

theorem long_bind_eq_some {β : Type} {n : Int} {f : Int → Option β} {r : β} :
    (long n).bind f = some r ↔ IsLong n ∧ f n = some r := by
  rw [long]
  split
  case isTrue h => simp [h]
  case isFalse h => simp [h]

theorem long_of_isLong {n : Int} (h : IsLong n) : long n = some n := if_pos h

/-! ## Nanoseconds -/

/-- A stamp as the clock gives it. -/
structure Timespec.Normalised (t : Timespec) : Prop where
  isLong : IsLong t.tvSec
  nonneg : 0 ≤ t.tvNsec
  lt : t.tvNsec < oneSecond

/-- The time in nanoseconds. -/
def Timespec.nanoseconds (t : Timespec) : Int := t.tvSec * oneSecond + t.tvNsec

/-- The stamp of a time. Negative times are rounded down. -/
def ofNanoseconds (n : Int) : Timespec := { tvSec := n / oneSecond, tvNsec := n % oneSecond }

@[simp] theorem nanoseconds_ofNanoseconds (n : Int) : (ofNanoseconds n).nanoseconds = n :=
  Int.ediv_mul_add_emod n oneSecond

theorem ofNanoseconds_normalised {n : Int} (h : IsLong (n / oneSecond)) :
    (ofNanoseconds n).Normalised := by
  refine ⟨h, ?_, ?_⟩
  · exact Int.emod_nonneg n (by decide)
  · exact Int.emod_lt_of_pos n (by decide)

/-- The two fields of a time, from any way to write it with nanoseconds
below a second. -/
theorem ofNanoseconds_eq {n sec nsec : Int} (h : n = sec * oneSecond + nsec) (h0 : 0 ≤ nsec)
    (hlt : nsec < oneSecond) : ofNanoseconds n = ⟨sec, nsec⟩ := by
  simp only [ofNanoseconds, Timespec.mk.injEq, oneSecond] at *
  omega

theorem Timespec.Normalised.ofNanoseconds {t : Timespec} (h : t.Normalised) :
    OnAccess.ofNanoseconds t.nanoseconds = t := ofNanoseconds_eq rfl h.nonneg h.lt

/-- Neither of the two additions to `tv_sec` overflows. -/
def AddFits (a b : Timespec) : Prop :=
  IsLong ((a.nanoseconds + b.nanoseconds) / oneSecond - b.tvSec) ∧
    IsLong ((a.nanoseconds + b.nanoseconds) / oneSecond)

/-- Neither of the two subtractions from `tv_sec` overflows. -/
def SubFits (a b : Timespec) : Prop :=
  IsLong ((a.nanoseconds - b.nanoseconds) / oneSecond + b.tvSec) ∧
    IsLong ((a.nanoseconds - b.nanoseconds) / oneSecond)

theorem stampAdd_eq_some {a b c : Timespec} (ha : a.Normalised) (hb : b.Normalised) :
    stampAdd a b = some c ↔ AddFits a b ∧ c = ofNanoseconds (a.nanoseconds + b.nanoseconds) := by
  obtain ⟨hal, ha0, halt⟩ := ha
  obtain ⟨-, hb0, hblt⟩ := hb
  have hnsec : IsLong (a.tvNsec + b.tvNsec) ∧ IsLong (a.tvNsec + b.tvNsec - oneSecond) := by
    simp only [IsLong, oneSecond] at *
    omega
  rw [stampAdd, long_of_isLong hnsec.1, Option.bind_eq_bind, Option.bind_some]
  by_cases hcarry : a.tvNsec + b.tvNsec ≥ oneSecond
  · have hsum : ofNanoseconds (a.nanoseconds + b.nanoseconds)
        = ⟨a.tvSec + 1 + b.tvSec, a.tvNsec + b.tvNsec - oneSecond⟩ := by
      refine ofNanoseconds_eq ?_ (by omega) (by omega)
      simp only [Timespec.nanoseconds, oneSecond]
      omega
    have hsec : (a.nanoseconds + b.nanoseconds) / oneSecond = a.tvSec + 1 + b.tvSec :=
      congrArg Timespec.tvSec hsum
    rw [if_pos hcarry, long_of_isLong hnsec.2, hsum, AddFits, hsec, Int.add_sub_cancel]
    simp [long_bind_eq_some, and_assoc, @eq_comm _ c]
  · have hsum : ofNanoseconds (a.nanoseconds + b.nanoseconds)
        = ⟨a.tvSec + b.tvSec, a.tvNsec + b.tvNsec⟩ := by
      refine ofNanoseconds_eq ?_ (by omega) (by omega)
      simp only [Timespec.nanoseconds, oneSecond]
      omega
    have hsec : (a.nanoseconds + b.nanoseconds) / oneSecond = a.tvSec + b.tvSec :=
      congrArg Timespec.tvSec hsum
    rw [if_neg hcarry, hsum, AddFits, hsec, Int.add_sub_cancel]
    simp [long_bind_eq_some, hal, @eq_comm _ c]

theorem stampSub_eq_some {a b c : Timespec} (ha : a.Normalised) (hb : b.Normalised) :
    stampSub a b = some c ↔ SubFits a b ∧ c = ofNanoseconds (a.nanoseconds - b.nanoseconds) := by
  obtain ⟨hal, ha0, halt⟩ := ha
  obtain ⟨-, hb0, hblt⟩ := hb
  have hnsec : IsLong (a.tvNsec - b.tvNsec) ∧ IsLong (a.tvNsec - b.tvNsec + oneSecond) := by
    simp only [IsLong, oneSecond] at *
    omega
  rw [stampSub, long_of_isLong hnsec.1, Option.bind_eq_bind, Option.bind_some]
  by_cases hborrow : a.tvNsec - b.tvNsec < 0
  · have hdiff : ofNanoseconds (a.nanoseconds - b.nanoseconds)
        = ⟨a.tvSec - 1 - b.tvSec, a.tvNsec - b.tvNsec + oneSecond⟩ := by
      refine ofNanoseconds_eq ?_ (by omega) (by omega)
      simp only [Timespec.nanoseconds, oneSecond]
      omega
    have hsec : (a.nanoseconds - b.nanoseconds) / oneSecond = a.tvSec - 1 - b.tvSec :=
      congrArg Timespec.tvSec hdiff
    rw [if_pos hborrow, long_of_isLong hnsec.2, hdiff, SubFits, hsec, Int.sub_add_cancel]
    simp [long_bind_eq_some, and_assoc, @eq_comm _ c]
  · have hdiff : ofNanoseconds (a.nanoseconds - b.nanoseconds)
        = ⟨a.tvSec - b.tvSec, a.tvNsec - b.tvNsec⟩ := by
      refine ofNanoseconds_eq ?_ (by omega) (by omega)
      simp only [Timespec.nanoseconds, oneSecond]
      omega
    have hsec : (a.nanoseconds - b.nanoseconds) / oneSecond = a.tvSec - b.tvSec :=
      congrArg Timespec.tvSec hdiff
    rw [if_neg hborrow, hdiff, SubFits, hsec, Int.sub_add_cancel]
    simp [long_bind_eq_some, hal, @eq_comm _ c]

theorem stampAdd_exact {a b c : Timespec} (ha : a.Normalised) (hb : b.Normalised)
    (h : stampAdd a b = some c) :
    c.Normalised ∧ c.nanoseconds = a.nanoseconds + b.nanoseconds := by
  obtain ⟨hfits, rfl⟩ := (stampAdd_eq_some ha hb).mp h
  exact ⟨ofNanoseconds_normalised hfits.2, nanoseconds_ofNanoseconds _⟩

theorem stampSub_exact {a b c : Timespec} (ha : a.Normalised) (hb : b.Normalised)
    (h : stampSub a b = some c) :
    c.Normalised ∧ c.nanoseconds = a.nanoseconds - b.nanoseconds := by
  obtain ⟨hfits, rfl⟩ := (stampSub_eq_some ha hb).mp h
  exact ⟨ofNanoseconds_normalised hfits.2, nanoseconds_ofNanoseconds _⟩

theorem stampSub_stampAdd {a b c d : Timespec} (ha : a.Normalised) (hb : b.Normalised)
    (hadd : stampAdd a b = some c) (hsub : stampSub c b = some d) : d = a := by
  obtain ⟨hc, hcn⟩ := stampAdd_exact ha hb hadd
  obtain ⟨-, rfl⟩ := (stampSub_eq_some hc hb).mp hsub
  rw [hcn, Int.add_sub_cancel, ha.ofNanoseconds]

/-! ## Comparison -/

theorem stampCmp_cases {a b : Timespec} (ha : a.Normalised) (hb : b.Normalised) :
    a.nanoseconds < b.nanoseconds ∧ stampCmp a b = -1 ∨
      a.nanoseconds = b.nanoseconds ∧ stampCmp a b = 0 ∨
      b.nanoseconds < a.nanoseconds ∧ stampCmp a b = 1 := by
  obtain ⟨-, ha0, halt⟩ := ha
  obtain ⟨-, hb0, hblt⟩ := hb
  simp only [Timespec.nanoseconds, oneSecond] at *
  fun_cases stampCmp a b with
  | case1 h => exact .inl ⟨by omega, rfl⟩
  | case2 h h' => exact .inr (.inr ⟨by omega, rfl⟩)
  | case3 h h' h'' => exact .inl ⟨by omega, rfl⟩
  | case4 h h' h'' h''' => exact .inr (.inr ⟨by omega, rfl⟩)
  | case5 h h' h'' h''' => exact .inr (.inl ⟨by omega, rfl⟩)

theorem isDue_eq {before : Timespec} {entry : QueueEntry} (hb : before.Normalised)
    (he : entry.timestamp.Normalised) :
    isDue before entry = decide (entry.timestamp.nanoseconds ≤ before.nanoseconds) := by
  rw [isDue]
  obtain ⟨hlt, hcmp⟩ | ⟨heq, hcmp⟩ | ⟨hgt, hcmp⟩ := stampCmp_cases he hb
  · simp [hcmp, Int.le_of_lt hlt]
  · simp [hcmp, heq]
  · simp [hcmp, hgt]

/-! ## The watchdog thread -/

/-- `timeout` of the thread. -/
def timeout : Timespec := { tvSec := 0, tvNsec := 100000 * 1000 }

variable {α : Type*} [DecidableEq α]

/-- A round of `watchdog_thread_fun`, up to the answers: the clock says
`now`. -/
def watchdogThreadRound (q : Queue α) (now : Timespec) :
    Option (List QueueEntry × Queue α) :=
  (stampSub now timeout).bind fun before => queuePopTimeout q before nFd

/-- The round is one of those the watchdog can make. -/
theorem watchdogThreadPop_of_round {s : Watchdog.MonitorState} {now : Timespec}
    {popEntries : List QueueEntry} {queue : Queue Nat}
    (h : watchdogThreadRound s.queue now = some (popEntries, queue)) :
    ∃ before, watchdogThreadPop s before = .ok { s with queue, popEntries } := by
  obtain ⟨before, -, hpop⟩ := Option.bind_eq_some_iff.mp h
  exact ⟨before, by rw [watchdogThreadPop, hpop]; rfl⟩

/-- The entry has waited for the timeout. -/
def Expired (now : Timespec) (entry : QueueEntry) : Prop :=
  now.nanoseconds - entry.timestamp.nanoseconds ≥ timeout.nanoseconds

instance (now : Timespec) (entry : QueueEntry) : Decidable (Expired now entry) :=
  inferInstanceAs (Decidable (_ ≥ _))

theorem timeout_normalised : timeout.Normalised := by
  constructor <;> decide

/-- One comparison of stamps is the test of the waiting time. -/
theorem isDue_sub_timeout {now before : Timespec} {entry : QueueEntry} (hnow : now.Normalised)
    (hbefore : stampSub now timeout = some before) (he : entry.timestamp.Normalised) :
    isDue before entry = decide (Expired now entry) := by
  obtain ⟨hnorm, hval⟩ := stampSub_exact hnow timeout_normalised hbefore
  rw [isDue_eq hnorm he, hval, decide_eq_decide, Expired]
  omega

theorem watchdogThreadRound_holds {q : Queue α} {l : List QueueEntry} (hq : QueueHolds q l)
    (hl : ∀ e ∈ l, e.timestamp.Normalised) {now : Timespec} (hnow : now.Normalised)
    (hfits : SubFits now timeout) :
    ∃ q', watchdogThreadRound q now =
      some ((l.filter fun e => decide (Expired now e)).take nFd, q') := by
  have hbefore := (stampSub_eq_some hnow timeout_normalised).mpr ⟨hfits, rfl⟩
  obtain ⟨q', hpop, -⟩ := queuePopTimeout_holds hq
    (ofNanoseconds (now.nanoseconds - timeout.nanoseconds)) nFd
  refine ⟨q', ?_⟩
  rw [watchdogThreadRound, hbefore]
  rw [Option.bind_some, hpop, takeFirst_fst]
  rw [List.filter_congr fun e he => isDue_sub_timeout hnow hbefore (hl e he)]

/-- Fewer than the size of the array pass the test before `e`. -/
theorem mem_take_filter {γ : Type*} {p : γ → Bool} {pre post : List γ} {e : γ} {n : Nat}
    (hpre : (pre.filter p).length < n) :
    e ∈ ((pre ++ e :: post).filter p).take n ↔ p e := by
  constructor
  · intro h
    exact (List.mem_filter.mp (List.mem_of_mem_take h)).2
  · intro h
    rw [List.filter_append, List.filter_cons_of_pos h, List.take_append, List.mem_append]
    refine .inr ?_
    obtain ⟨k, hk⟩ := Nat.exists_eq_add_of_lt hpre
    have hleft : n - (pre.filter p).length = k + 1 := by omega
    rw [hleft, List.take_succ_cons]
    exact List.mem_cons_self

/-! ## Runs -/

/-- The stamps pushed come from the clock. -/
def QueueOp.Normalised : QueueOp α → Prop
  | .push _ _ timestamp => timestamp.Normalised
  | .popFd _ | .popTimeout _ _ => True

omit [DecidableEq α] in
theorem SeqStep.normalised {l l' : List QueueEntry} {op : QueueOp α} {ret : QueueRet}
    (h : SeqStep l op ret l') (hop : op.Normalised) (hl : ∀ e ∈ l, e.timestamp.Normalised) :
    ∀ e ∈ l', e.timestamp.Normalised := by
  cases h with
  | push malloc fd timestamp =>
    intro e he
    rcases List.mem_append.mp he with he | he
    · exact hl e he
    · rw [List.mem_singleton.mp he]
      exact hop
  | popFdAbsent habsent => exact hl
  | popFd hfd hlatest =>
    intro e he
    refine hl e ?_
    rcases List.mem_append.mp he with he | he
    · exact List.mem_append_left _ he
    · exact List.mem_append_right _ (List.mem_cons_of_mem _ he)
  | popTimeout htake =>
    intro e he
    exact hl e ((SeqStep.popTimeout_exact (α := α) (.popTimeout htake)).2.1.subset he)

omit [DecidableEq α] in
theorem SeqRun.normalised {l l' : List QueueEntry} {ops : List (QueueOp α)}
    {rets : List QueueRet} (h : SeqRun l ops rets l') (hops : ∀ op ∈ ops, op.Normalised)
    (hl : ∀ e ∈ l, e.timestamp.Normalised) : ∀ e ∈ l', e.timestamp.Normalised := by
  induction h with
  | nil l => exact hl
  | cons hstep hrest ih =>
    refine ih (fun op hop => hops op (List.mem_cons_of_mem _ hop)) ?_
    exact hstep.normalised (hops _ List.mem_cons_self) hl

/-- **Timestamp arithmetic.** Without overflow of `tv_sec` the sum and the
difference of two stamps are normalised and exact, subtracting undoes
adding, and comparing compares the times. Whatever the calls before it, a
round of the watchdog takes out the oldest entries that have waited for the
timeout, as many as its array holds; so an entry with fewer of them before
it is taken out exactly when it has waited for the timeout. -/
theorem stamps_exact :
    (∀ a b : Timespec, a.Normalised → b.Normalised → AddFits a b →
      ∃ c, stampAdd a b = some c ∧ c.Normalised ∧
        c.nanoseconds = a.nanoseconds + b.nanoseconds ∧
        ∀ d, stampSub c b = some d → d = a) ∧
    (∀ a b : Timespec, a.Normalised → b.Normalised → SubFits a b →
      ∃ c, stampSub a b = some c ∧ c.Normalised ∧
        c.nanoseconds = a.nanoseconds - b.nanoseconds) ∧
    (∀ a b : Timespec, a.Normalised → b.Normalised →
      (stampCmp a b < 0 ↔ a.nanoseconds < b.nanoseconds) ∧
      (stampCmp a b = 0 ↔ a.nanoseconds = b.nanoseconds) ∧
      (stampCmp a b > 0 ↔ a.nanoseconds > b.nanoseconds)) ∧
    ∀ ops : List (QueueOp α), (∀ op ∈ ops, op.Normalised) →
      ∃ rets q l, runOps queueNew ops = some (rets, q) ∧ SeqRun [] ops rets l ∧
        ∀ now : Timespec, now.Normalised → SubFits now timeout →
          ∃ popped q', watchdogThreadRound q now = some (popped, q') ∧
            popped = (l.filter fun e => decide (Expired now e)).take nFd ∧
            ∀ pre e post, l = pre ++ e :: post →
              (pre.filter fun e => decide (Expired now e)).length < nFd →
              (e ∈ popped ↔ Expired now e) := by
  refine ⟨?_, ?_, ?_, ?_⟩
  · intro a b ha hb hfits
    have hadd := (stampAdd_eq_some ha hb).mpr ⟨hfits, rfl⟩
    obtain ⟨hc, hval⟩ := stampAdd_exact ha hb hadd
    exact ⟨_, hadd, hc, hval, fun d hsub => stampSub_stampAdd ha hb hadd hsub⟩
  · intro a b ha hb hfits
    have hsub := (stampSub_eq_some ha hb).mpr ⟨hfits, rfl⟩
    exact ⟨_, hsub, stampSub_exact ha hb hsub⟩
  · intro a b ha hb
    obtain ⟨hlt, hcmp⟩ | ⟨heq, hcmp⟩ | ⟨hgt, hcmp⟩ := stampCmp_cases ha hb
    · rw [hcmp]
      omega
    · rw [hcmp]
      omega
    · rw [hcmp]
      omega
  · intro ops hops
    obtain ⟨rets, q, l, hrun, hseq, hholds⟩ := runOps_holds ops queueNew_holds
    have hl := hseq.normalised hops (by simp)
    refine ⟨rets, q, l, hrun, hseq, ?_⟩
    intro now hnow hfits
    obtain ⟨q', hround⟩ := watchdogThreadRound_holds hholds hl hnow hfits
    refine ⟨_, q', hround, rfl, ?_⟩
    rintro pre e post rfl hpre
    rw [mem_take_filter hpre, decide_eq_true_iff]

omit [DecidableEq α] in
theorem SeqStep.push_eq {malloc : Malloc α} {fd : Int} {timestamp : Timespec}
    {l l' : List QueueEntry} {ret : QueueRet}
    (h : SeqStep l (.push malloc fd timestamp) ret l') : l' = l ++ [⟨fd, timestamp⟩] := by
  cases h with
  | push => rfl

/-- A descriptor that has waited for 200 ms, and one that has for 50. -/
def twoWaiting : List (QueueOp Nat) :=
  [.push nextAddr 5 ⟨0, 0⟩, .push nextAddr 6 ⟨0, 150000000⟩]

/-- A difference with a borrow, and a round that takes out one of two. -/
theorem stamps_exact_of_test :
    (∃ c, stampSub ⟨1, 200000000⟩ ⟨0, 700000000⟩ = some c ∧ c.Normalised ∧
      c.nanoseconds = 500000000) ∧
    ∃ rets q l, runOps queueNew twoWaiting = some (rets, q) ∧
      SeqRun [] twoWaiting rets l ∧ l = [⟨5, ⟨0, 0⟩⟩, ⟨6, ⟨0, 150000000⟩⟩] ∧
      ∃ popped q', watchdogThreadRound q ⟨0, 200000000⟩ = some (popped, q') ∧
        popped = [⟨5, ⟨0, 0⟩⟩] := by
  have hone : (⟨1, 200000000⟩ : Timespec).Normalised := by constructor <;> decide
  have hdelta : (⟨0, 700000000⟩ : Timespec).Normalised := by constructor <;> decide
  have hnow : (⟨0, 200000000⟩ : Timespec).Normalised := by constructor <;> decide
  have hops : ∀ op ∈ twoWaiting, op.Normalised := by
    intro op hop
    simp only [twoWaiting, List.mem_cons, List.not_mem_nil, or_false] at hop
    rcases hop with rfl | rfl <;> constructor <;> decide
  obtain ⟨c, hsub, hc, hval⟩ :=
    (stamps_exact (α := Nat)).2.1 _ _ hone hdelta (by constructor <;> decide)
  refine ⟨⟨c, hsub, hc, hval⟩, ?_⟩
  obtain ⟨rets, q, l, hrun, hseq, hround⟩ := stamps_exact.2.2.2 twoWaiting hops
  have hl : l = [⟨5, ⟨0, 0⟩⟩, ⟨6, ⟨0, 150000000⟩⟩] := by
    cases hseq with
    | cons hfirst hrest =>
      obtain rfl := hfirst.push_eq
      cases hrest with
      | cons hsecond hnil =>
        obtain rfl := hsecond.push_eq
        cases hnil
        rfl
  obtain ⟨popped, q', hpop, heq, -⟩ := hround _ hnow (by constructor <;> decide)
  refine ⟨rets, q, l, hrun, hseq, hl, popped, q', hpop, ?_⟩
  rw [heq, hl]
  decide

/-- Descriptors that come in at one time. -/
def pushes (malloc : Malloc α) (timestamp : Timespec) (fds : List Int) : List (QueueOp α) :=
  fds.map fun fd => .push malloc fd timestamp

omit [DecidableEq α] in
theorem SeqRun.pushes {malloc : Malloc α} {timestamp : Timespec} {fds : List Int}
    {l l' : List QueueEntry} {rets : List QueueRet}
    (h : SeqRun l (OnAccess.pushes malloc timestamp fds) rets l') :
    l' = l ++ fds.map fun fd => ⟨fd, timestamp⟩ := by
  induction fds generalizing l rets with
  | nil =>
    cases h with
    | nil => simp
  | cons fd fds ih =>
    cases h with
    | cons hstep hrest =>
      rw [ih hrest, hstep.push_eq, List.append_assoc]
      rfl

/-- Of 101 descriptors that came in a second ago the last one stays. -/
theorem timeout_leaves_expired :
    ∃ rets q l popped q', runOps queueNew
        (pushes nextAddr ⟨0, 0⟩ ((List.range 101).map Int.ofNat)) = some (rets, q) ∧
      SeqRun [] (pushes nextAddr ⟨0, 0⟩ ((List.range 101).map Int.ofNat)) rets l ∧
      watchdogThreadRound q ⟨1, 0⟩ = some (popped, q') ∧
      ⟨100, ⟨0, 0⟩⟩ ∈ l ∧ Expired ⟨1, 0⟩ ⟨100, ⟨0, 0⟩⟩ ∧ ⟨100, ⟨0, 0⟩⟩ ∉ popped := by
  obtain ⟨rets, q, l, hrun, hseq, hholds⟩ :=
    runOps_holds (pushes nextAddr ⟨0, 0⟩ ((List.range 101).map Int.ofNat)) queueNew_holds
  have hl := hseq.pushes
  rw [List.nil_append] at hl
  subst hl
  have hnorm : ∀ t : Timespec, IsLong t.tvSec → t.tvNsec = 0 → t.Normalised :=
    fun t h h0 => ⟨h, by omega, by rw [h0]; decide⟩
  have hstamps : ∀ e ∈ ((List.range 101).map Int.ofNat).map fun fd =>
      (⟨fd, ⟨0, 0⟩⟩ : QueueEntry), e.timestamp.Normalised := by
    intro e he
    obtain ⟨fd, -, rfl⟩ := List.mem_map.mp he
    exact hnorm ⟨0, 0⟩ (by decide) rfl
  obtain ⟨q', hround⟩ := watchdogThreadRound_holds hholds hstamps
    (hnorm ⟨1, 0⟩ (by decide) rfl) (by constructor <;> decide)
  refine ⟨rets, q, _, _, q', hrun, hseq, hround, ?_, ?_, ?_⟩
  · decide +kernel
  · decide
  · decide +kernel

end Armadito.OnAccess
