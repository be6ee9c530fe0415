import Armadito.Lib.DoublyLinked

/-!
# OnAccess.Queue

`queue.c` and `stamp.h`: the descriptors that wait for an answer, with the
time they came in. Each of the three operations runs under the queue lock,
so they are functions of the list in memory.

New nodes go to the front, so following `next` from the head meets the
latest entry first. The sequence the queue stands for is in the order of
the pushes.
-/

namespace Armadito.OnAccess

open DoublyLinked

/-- `struct timespec`. -/
structure Timespec where
  tvSec : Int
  tvNsec : Int
  deriving DecidableEq

/-- `stamp_cmp`. -/
def stampCmp (s1 s2 : Timespec) : Int :=
  if s1.tvSec < s2.tvSec then -1
  else if s1.tvSec > s2.tvSec then 1
  else if s1.tvNsec < s2.tvNsec then -1
  else if s1.tvNsec > s2.tvNsec then 1
  else 0

/-- `struct queue_entry`. -/
structure QueueEntry where
  fd : Int
  timestamp : Timespec
  deriving DecidableEq

/-- `struct queue`; its nodes are at addresses of the type `α`. -/
abbrev Queue (α : Type*) := DList α QueueEntry

/-- `malloc` of a node: an address where nothing is allocated. -/
structure Malloc (α : Type*) where
  addr : Heap α QueueEntry → α
  fresh : ∀ h, addr h ∉ h

variable {α : Type*} [DecidableEq α]

/-- `queue_new`. -/
def queueNew : Queue α := { heap := ∅, head := none, tail := none }

/-- `queue_push`. -/
def queuePush (malloc : Malloc α) (q : Queue α) (fd : Int) (timestamp : Timespec) :
    Option (Queue α) :=
  q.pushFront (malloc.addr q.heap) ⟨fd, timestamp⟩

/-- What the function returns, and `*pop_entry` when it is written. -/
def queuePopFd (q : Queue α) (fd : Int) : Option (Int × Option QueueEntry × Queue α) := do
  let found ← findNext (fun entry => entry.fd = fd) q.heap q.heap.keys.length q.head
  match found with
  | none => return (0, none, q)
  | some (n, _) =>
    let q ← q.remove n
    let node ← q.heap.lookup n
    return (1, some node.val, q.free n)

/-- The timestamp is not after `before`. -/
def isDue (before : Timespec) (entry : QueueEntry) : Bool :=
  stampCmp entry.timestamp before ≤ 0

/-- The entries written to `pop_entries`, as many as the function returns.
The nodes are freed after the traversal; the array on the stack that holds
them until then is left out, and so is a stack without room for it. -/
def queuePopTimeout (q : Queue α) (before : Timespec) (nEntries : Nat) :
    Option (List QueueEntry × Queue α) := do
  let r ← sweepPrev (isDue before) q.heap.keys.length q.tail nEntries q
  return (r.1.map Prod.snd, r.1.foldl (fun q n => q.free n.1) r.2)

/-! ## Calls -/

/-- A call on a queue. -/
inductive QueueOp (α : Type*) where
  | push (malloc : Malloc α) (fd : Int) (timestamp : Timespec)
  | popFd (fd : Int)
  | popTimeout (before : Timespec) (nEntries : Nat)

/-- What a call returns. -/
inductive QueueRet where
  | push
  | popFd (ret : Int) (popEntry : Option QueueEntry)
  | popTimeout (popEntries : List QueueEntry)
  deriving DecidableEq

/-- What a call returns and the queue after it; nothing when it faults. -/
def QueueOp.apply (q : Queue α) : QueueOp α → Option (QueueRet × Queue α)
  | .push malloc fd timestamp => (queuePush malloc q fd timestamp).map fun q => (.push, q)
  | .popFd fd => (queuePopFd q fd).map fun r => (.popFd r.1 r.2.1, r.2.2)
  | .popTimeout before nEntries =>
    (queuePopTimeout q before nEntries).map fun r => (.popTimeout r.1, r.2)

/-- What the calls return, and the queue afterwards. -/
def runOps (q : Queue α) : List (QueueOp α) → Option (List QueueRet × Queue α)
  | [] => some ([], q)
  | op :: ops => do
    let r ← op.apply q
    let rest ← runOps r.2 ops
    return (r.1 :: rest.1, rest.2)

/-! ## The sequence -/

/-- What a call does to a sequence of entries, oldest first, and what it
returns. -/
inductive SeqStep : List QueueEntry → QueueOp α → QueueRet → List QueueEntry → Prop where
  | push (l : List QueueEntry) (malloc : Malloc α) (fd : Int) (timestamp : Timespec) :
      SeqStep l (.push malloc fd timestamp) .push (l ++ [⟨fd, timestamp⟩])
  | popFdAbsent {l : List QueueEntry} {fd : Int} (habsent : ∀ e ∈ l, e.fd ≠ fd) :
      SeqStep l (.popFd fd) (.popFd 0 none) l
  | popFd {pre post : List QueueEntry} {e : QueueEntry} {fd : Int} (hfd : e.fd = fd)
      (hlatest : ∀ e' ∈ post, e'.fd ≠ fd) :
      SeqStep (pre ++ e :: post) (.popFd fd) (.popFd 1 (some e)) (pre ++ post)
  | popTimeout {l popped rest : List QueueEntry} {before : Timespec} {nEntries : Nat}
      (htake : takeFirst (isDue before) nEntries l = (popped, rest)) :
      SeqStep l (.popTimeout before nEntries) (.popTimeout popped) rest

/-- The calls on a sequence, one after the other. -/
inductive SeqRun : List QueueEntry → List (QueueOp α) → List QueueRet → List QueueEntry →
    Prop where
  | nil (l : List QueueEntry) : SeqRun l [] [] l
  | cons {l l₁ l' : List QueueEntry} {op : QueueOp α} {ops : List (QueueOp α)} {ret : QueueRet}
      {rets : List QueueRet} (hstep : SeqStep l op ret l₁) (hrest : SeqRun l₁ ops rets l') :
      SeqRun l (op :: ops) (ret :: rets) l'

omit [DecidableEq α] in
/-- Nothing is lost and nothing is popped twice by a timeout: the entries
that come back are the first due ones, the others stay in order. -/
theorem SeqStep.popTimeout_exact {l popped rest : List QueueEntry} {before : Timespec}
    {nEntries : Nat}
    (h : SeqStep (α := α) l (.popTimeout before nEntries) (.popTimeout popped) rest) :
    popped = (l.filter (isDue before)).take nEntries ∧ rest.Sublist l ∧
      rest.filter (isDue before) = (l.filter (isDue before)).drop nEntries ∧
      rest.filter (fun e => !isDue before e) = l.filter fun e => !isDue before e := by
  cases h with
  | popTimeout htake =>
    have hfst := takeFirst_fst (isDue before) nEntries l
    have hsnd := takeFirst_snd (isDue before) nEntries l
    rw [htake] at hfst hsnd
    exact ⟨hfst, hsnd⟩

/-! ## The queue holds the sequence -/

/-- The nodes of the queue hold the entries, latest first, and no other
node is allocated. -/
structure HoldsNodes (q : Queue α) (l : List QueueEntry) (nodes : List (α × QueueEntry)) :
    Prop where
  represents : Represents q nodes
  entries : nodes.map Prod.snd = l.reverse
  allocated : ∀ a, a ∈ q.heap ↔ a ∈ addrs nodes

/-- A queue whose pointers make up a sequence. -/
def QueueHolds (q : Queue α) (l : List QueueEntry) : Prop := ∃ nodes, HoldsNodes q l nodes

theorem queueNew_holds : QueueHolds (queueNew : Queue α) [] :=
  ⟨[], ⟨List.nodup_nil, trivial, rfl, rfl⟩, rfl, by simp [queueNew]⟩

theorem queuePush_holds {q : Queue α} {l : List QueueEntry} (h : QueueHolds q l)
    (malloc : Malloc α) (fd : Int) (timestamp : Timespec) :
    ∃ q', queuePush malloc q fd timestamp = some q' ∧ QueueHolds q' (l ++ [⟨fd, timestamp⟩]) := by
  obtain ⟨nodes, hrep, hentries, halloc⟩ := h
  have hfresh := malloc.fresh q.heap
  obtain ⟨q', hq', hrep', hmem'⟩ := q.pushFront_spec hrep hfresh
    (fun hmem => hfresh ((halloc _).mpr hmem)) ⟨fd, timestamp⟩
  refine ⟨q', hq', _, hrep', ?_, ?_⟩
  · rw [List.map_cons, hentries, List.reverse_append]
    rfl
  · intro a
    rw [hmem', halloc, mem_addrs_cons]

/-- The latest entry of a descriptor, found from the head. -/
theorem queuePopFd_holds {q : Queue α} {l : List QueueEntry} (h : QueueHolds q l) (fd : Int) :
    ∃ ret q' l', QueueOp.apply q (.popFd fd) = some (ret, q') ∧
      SeqStep (α := α) l (.popFd fd) ret l' ∧ QueueHolds q' l' := by
  obtain ⟨nodes, hrep, hentries, halloc⟩ := h
  have hfind := findNext_spec (fun entry => decide (entry.fd = fd)) hrep.seg
    hrep.length_le
  rw [← hrep.head] at hfind
  cases hfound : nodes.find? fun x => decide (x.2.fd = fd) with
  | none =>
    refine ⟨_, q, l, ?_, .popFdAbsent ?_, nodes, hrep, hentries, halloc⟩
    · rw [QueueOp.apply, queuePopFd, hfind, hfound]
      rfl
    · intro e he
      rw [← List.mem_reverse, ← hentries, List.mem_map] at he
      obtain ⟨x, hx, rfl⟩ := he
      simpa using List.find?_eq_none.mp hfound x hx
  | some x =>
    obtain ⟨a, e⟩ := x
    obtain ⟨hfd, pre, post, rfl, hpre⟩ := List.find?_eq_some_iff_append.mp hfound
    obtain ⟨q₁, hq₁, hrep₁, hlookup, hmem₁⟩ := q.remove_spec hrep
    rw [hrep.lookup] at hlookup
    have hnodup := hrep.nodup
    rw [addrs, List.map_append, List.map_cons, List.nodup_middle, List.nodup_cons] at hnodup
    have ha : a ∉ addrs (pre ++ post) := by
      rw [addrs, List.map_append]
      exact hnodup.1
    obtain ⟨hrep₂, hmem₂⟩ := q₁.free_spec hrep₁ ha
    -- the sequence read backwards: what is before the node was pushed later
    have hl : l = (post.map Prod.snd).reverse ++ e :: (pre.map Prod.snd).reverse := by
      rw [← List.reverse_reverse l, ← hentries]
      simp
    refine ⟨.popFd 1 (some e), q₁.free a,
      (post.map Prod.snd).reverse ++ (pre.map Prod.snd).reverse, ?_, ?_, pre ++ post, hrep₂,
      by simp, ?_⟩
    · rw [QueueOp.apply, queuePopFd, hfind, hfound]
      simp only [Option.bind_eq_bind, Option.bind_some, hq₁, hlookup]
      rfl
    · rw [hl]
      refine .popFd (of_decide_eq_true hfd) ?_
      intro e' he'
      rw [List.mem_reverse, List.mem_map] at he'
      obtain ⟨y, hy, rfl⟩ := he'
      simpa using hpre y hy
    · intro b
      rw [hmem₂, hmem₁, halloc]
      have hmem : b ∈ addrs (pre ++ (a, e) :: post) ↔ b = a ∨ b ∈ addrs (pre ++ post) := by
        simp only [addrs, List.map_append, List.map_cons, List.mem_append, List.mem_cons]
        tauto
      rw [hmem]
      constructor
      · rintro ⟨hne, heq | hb⟩
        · exact absurd heq hne
        · exact hb
      · exact fun hb => ⟨fun heq => ha (heq ▸ hb), .inr hb⟩

/-- The due entries, from the tail on. -/
theorem queuePopTimeout_holds {q : Queue α} {l : List QueueEntry} (h : QueueHolds q l)
    (before : Timespec) (nEntries : Nat) :
    ∃ q', queuePopTimeout q before nEntries =
        some ((takeFirst (isDue before) nEntries l).1, q') ∧
      QueueHolds q' (takeFirst (isDue before) nEntries l).2 := by
  obtain ⟨nodes, hrep, hentries, halloc⟩ := h
  have hrep₀ : Represents q (nodes.reverse.reverse ++ []) := by simpa using hrep
  have hlen : nodes.reverse.length ≤ q.heap.keys.length := by
    rw [List.length_reverse]
    exact hrep.length_le
  obtain ⟨q₁, hq₁, hrep₁, hmem₁⟩ :=
    sweepPrev_spec (isDue before) nEntries hrep₀ hlen
  rw [List.reverse_reverse, ← hrep.tail] at hq₁
  rw [List.append_nil] at hrep₁
  have hperm := takeFirst_perm (fun x => isDue before x.2) nEntries nodes.reverse
  have htake := takeFirst_map Prod.snd (isDue before) nEntries nodes.reverse
  rw [List.map_reverse, hentries, List.reverse_reverse] at htake
  generalize takeFirst (fun x => isDue before x.2) nEntries nodes.reverse = r at *
  -- the nodes taken out and the others are the nodes of the queue, once each
  have hnodup : (addrs r.1 ++ addrs r.2).Nodup := by
    rw [addrs, addrs, ← List.map_append]
    refine ((hperm.map Prod.fst).nodup_iff).mpr ?_
    rw [List.map_reverse, List.nodup_reverse]
    exact hrep.nodup
  have hfreed : ∀ a ∈ addrs r.1, a ∉ addrs r.2.reverse := by
    intro a ha hmem
    rw [mem_addrs_reverse] at hmem
    exact (List.nodup_append.mp hnodup).2.2 a ha a hmem rfl
  obtain ⟨hrep₂, hmem₂⟩ := q₁.foldl_free_spec hrep₁ hfreed
  refine ⟨_, ?_, r.2.reverse, hrep₂, ?_, ?_⟩
  · rw [queuePopTimeout, hq₁, htake]
    rfl
  · rw [htake, List.map_reverse]
  · intro b
    rw [hmem₂, hmem₁, halloc]
    have hmem : b ∈ addrs nodes ↔ b ∈ addrs r.1 ∨ b ∈ addrs r.2 := by
      rw [← List.mem_append, addrs, addrs, ← List.map_append, (hperm.map Prod.fst).mem_iff,
        List.map_reverse, List.mem_reverse]
    rw [hmem, mem_addrs_reverse]
    constructor
    · rintro ⟨hne, hb | hb⟩
      · exact absurd hb hne
      · exact hb
    · intro hb
      refine ⟨fun hb' => ?_, .inr hb⟩
      exact (List.nodup_append.mp hnodup).2.2 b hb' b hb rfl

/-- **One call.** -/
theorem QueueOp.apply_holds {q : Queue α} {l : List QueueEntry} (h : QueueHolds q l)
    (op : QueueOp α) :
    ∃ ret q' l', op.apply q = some (ret, q') ∧ SeqStep l op ret l' ∧ QueueHolds q' l' := by
  cases op with
  | push malloc fd timestamp =>
    obtain ⟨q', hq', hholds⟩ := queuePush_holds h malloc fd timestamp
    exact ⟨.push, q', _, by rw [QueueOp.apply, hq']; rfl, .push l malloc fd timestamp, hholds⟩
  | popFd fd => exact queuePopFd_holds h fd
  | popTimeout before nEntries =>
    obtain ⟨q', hq', hholds⟩ := queuePopTimeout_holds h before nEntries
    exact ⟨_, q', _, by rw [QueueOp.apply, hq']; rfl, .popTimeout rfl, hholds⟩

theorem runOps_holds (ops : List (QueueOp α)) :
    ∀ {q : Queue α} {l : List QueueEntry}, QueueHolds q l →
      ∃ rets q' l', runOps q ops = some (rets, q') ∧ SeqRun l ops rets l' ∧ QueueHolds q' l' := by
  induction ops with
  | nil =>
    intro q l h
    exact ⟨[], q, l, rfl, .nil l, h⟩
  | cons op ops ih =>
    intro q l h
    obtain ⟨ret, q₁, l₁, happly, hstep, h₁⟩ := op.apply_holds h
    obtain ⟨rets, q', l', hrun, hrest, h'⟩ := ih h₁
    refine ⟨ret :: rets, q', l', ?_, .cons hstep hrest, h'⟩
    rw [runOps, happly]
    simp only [Option.bind_eq_bind, Option.bind_some, hrun]
    rfl

/-- **The timeout queue is a sequence.** Any calls on a new queue return,
without reading freed memory, what the same calls return on a sequence:
a push appends, `queue_pop_fd` removes the latest entry of the descriptor
or changes nothing, `queue_pop_timeout` removes the first due entries in
order. Afterwards the two walks meet the same nodes in opposite orders, the
one from the tail meets the entries of the sequence in order, and no node
is allocated but theirs. -/
theorem queue_is_sequence (ops : List (QueueOp α)) :
    ∃ rets q l nodes, runOps queueNew ops = some (rets, q) ∧ SeqRun [] ops rets l ∧
      walkNext q.heap q.heap.keys.length q.head = some nodes ∧
      walkPrev q.heap q.heap.keys.length q.tail = some nodes.reverse ∧
      nodes.reverse.map Prod.snd = l ∧ ∀ a, a ∈ q.heap ↔ a ∈ addrs nodes := by
  obtain ⟨rets, q, l, hrun, hseq, nodes, hrep, hentries, halloc⟩ :=
    runOps_holds ops queueNew_holds
  refine ⟨rets, q, l, nodes, hrun, hseq, ?_, ?_, ?_, halloc⟩
  · rw [hrep.head]
    exact walkNext_spec hrep.seg hrep.length_le
  · rw [hrep.tail]
    exact walkPrev_spec hrep.seg hrep.length_le
  · rw [List.map_reverse, hentries, List.reverse_reverse]

end Armadito.OnAccess
