import Mathlib.Data.List.AList
import Mathlib.Data.List.Induction

/-!
# Lib.DoublyLinked

Doubly linked lists in memory: nodes with the addresses of the node before
and after them, and a head and a tail pointer.

`Seg` says that a list of addresses and values is linked in both directions
between two ends. It splits at every place, and it only depends on the
nodes it is about; a change of one pointer is then a change of one end of
one part. An operation that reads a node that is not there, or walks for
longer than there are nodes, has no result.
-/

namespace DoublyLinked

variable {α β : Type*}

/-- A node with its neighbours; `none` is NULL. -/
structure Node (α β : Type*) where
  val : β
  prev : Option α
  next : Option α

/-- The nodes that are allocated, by address. -/
abbrev Heap (α β : Type*) := AList fun _ : α => Node α β

/-- The pointers to the two ends, and the memory. -/
structure DList (α β : Type*) where
  heap : Heap α β
  head : Option α
  tail : Option α

/-! ## The ends of a part -/

/-- The first address of a list that is followed by `next`. -/
def firstOf : List (α × β) → Option α → Option α
  | [], next => next
  | (a, _) :: _, _ => some a

/-- The last address of a list that comes after `prev`. -/
def lastOf : Option α → List (α × β) → Option α
  | prev, [] => prev
  | _, (a, _) :: l => lastOf (some a) l

/-- The addresses of a list. -/
abbrev addrs (l : List (α × β)) : List α := l.map Prod.fst

theorem mem_addrs_cons {a : α} {x : α × β} {l : List (α × β)} :
    a ∈ addrs (x :: l) ↔ a = x.1 ∨ a ∈ addrs l :=
  List.mem_cons

theorem mem_addrs_reverse {a : α} {l : List (α × β)} : a ∈ addrs l.reverse ↔ a ∈ addrs l := by
  rw [addrs, List.map_reverse, List.mem_reverse]

theorem firstOf_append (l l' : List (α × β)) (next : Option α) :
    firstOf (l ++ l') next = firstOf l (firstOf l' next) := by
  cases l <;> rfl

theorem lastOf_append (prev : Option α) (l l' : List (α × β)) :
    lastOf prev (l ++ l') = lastOf (lastOf prev l) l' := by
  induction l generalizing prev with
  | nil => rfl
  | cons x l ih => exact ih (some x.1)

@[simp] theorem lastOf_concat (prev : Option α) (l : List (α × β)) (x : α × β) :
    lastOf prev (l ++ [x]) = some x.1 := by
  rw [lastOf_append]
  rfl

variable [DecidableEq α]

/-! ## Linked parts -/

/-- The nodes of the list are linked to each other, to `prev` before the
first and to `next` behind the last. -/
def Seg (h : Heap α β) : Option α → List (α × β) → Option α → Prop
  | _, [], _ => True
  | prev, (a, v) :: l, next =>
    h.lookup a = some ⟨v, prev, firstOf l next⟩ ∧ Seg h (some a) l next

theorem seg_append {h : Heap α β} {prev next : Option α} {l l' : List (α × β)} :
    Seg h prev (l ++ l') next ↔
      Seg h prev l (firstOf l' next) ∧ Seg h (lastOf prev l) l' next := by
  induction l generalizing prev with
  | nil => simp [Seg, lastOf]
  | cons x l ih =>
    obtain ⟨a, v⟩ := x
    rw [List.cons_append, Seg, Seg, firstOf_append, ih, lastOf, and_assoc]

/-- Only the nodes of the list matter. -/
theorem Seg.congr {h h' : Heap α β} {l : List (α × β)} :
    ∀ {prev next : Option α}, Seg h prev l next →
      (∀ a ∈ addrs l, h'.lookup a = h.lookup a) → Seg h' prev l next := by
  induction l with
  | nil =>
    intro prev next _ _
    trivial
  | cons x l ih =>
    intro prev next hseg hsame
    obtain ⟨a, v⟩ := x
    refine ⟨(hsame a List.mem_cons_self).trans hseg.1, ih hseg.2 ?_⟩
    intro b hb
    exact hsame b (List.mem_cons_of_mem a hb)

/-- The node in the middle of a linked list. -/
theorem Seg.lookup {h : Heap α β} {prev next : Option α} {pre post : List (α × β)} {a : α}
    {v : β} (hseg : Seg h prev (pre ++ (a, v) :: post) next) :
    h.lookup a = some ⟨v, lastOf prev pre, firstOf post next⟩ :=
  (seg_append.mp hseg).2.1

/-- Another node behind the last one. -/
theorem Seg.setNext {h : Heap α β} {prev next : Option α} {l : List (α × β)} {a : α} {v : β}
    (hseg : Seg h prev (l ++ [(a, v)]) next) (ha : a ∉ addrs l) (next' : Option α) :
    Seg (h.insert a ⟨v, lastOf prev l, next'⟩) prev (l ++ [(a, v)]) next' := by
  obtain ⟨hl, -⟩ := seg_append.mp hseg
  refine seg_append.mpr ⟨hl.congr ?_, AList.lookup_insert h, trivial⟩
  intro b hb
  exact AList.lookup_insert_ne fun heq => ha (heq ▸ hb)

/-- Another node before the first one. -/
theorem Seg.setPrev {h : Heap α β} {prev next : Option α} {l : List (α × β)} {a : α} {v : β}
    (hseg : Seg h prev ((a, v) :: l) next) (ha : a ∉ addrs l) (prev' : Option α) :
    Seg (h.insert a ⟨v, prev', firstOf l next⟩) prev' ((a, v) :: l) next := by
  refine ⟨AList.lookup_insert h, hseg.2.congr ?_⟩
  intro b hb
  exact AList.lookup_insert_ne fun heq => ha (heq ▸ hb)

/-! ## The operations -/

/-- `prev->next = next`, or the head when there is no node before. -/
def DList.relinkNext (q : DList α β) (prev next : Option α) : Option (DList α β) :=
  match prev with
  | none => some { q with head := next }
  | some p => (q.heap.lookup p).map fun n =>
    { q with heap := q.heap.insert p { n with next := next } }

/-- `next->prev = prev`, or the tail when there is no node behind. -/
def DList.relinkPrev (q : DList α β) (next prev : Option α) : Option (DList α β) :=
  match next with
  | none => some { q with tail := prev }
  | some s => (q.heap.lookup s).map fun n =>
    { q with heap := q.heap.insert s { n with prev := prev } }

/-- Takes a node out of the list. It stays in memory with its pointers. -/
def DList.remove (q : DList α β) (a : α) : Option (DList α β) := do
  let n ← q.heap.lookup a
  let q ← q.relinkNext n.prev n.next
  let n ← q.heap.lookup a
  q.relinkPrev n.next n.prev

/-- A new node in front. -/
def DList.pushFront (q : DList α β) (a : α) (v : β) : Option (DList α β) :=
  let heap := q.heap.insert a ⟨v, none, none⟩
  match q.head with
  | none => some { heap, head := some a, tail := some a }
  | some b => do
    let n ← heap.lookup b
    let heap := heap.insert b { n with prev := some a }
    let n ← heap.lookup a
    return { q with heap := heap.insert a { n with next := some b }, head := some a }

/-- The memory of a node is given back. -/
def DList.free (q : DList α β) (a : α) : DList α β := { q with heap := q.heap.erase a }

/-- The addresses and values met by following `next`. -/
def walkNext (h : Heap α β) : Nat → Option α → Option (List (α × β))
  | _, none => some []
  | 0, some _ => none
  | fuel + 1, some a => do
    let n ← h.lookup a
    let l ← walkNext h fuel n.next
    return (a, n.val) :: l

/-- The addresses and values met by following `prev`. -/
def walkPrev (h : Heap α β) : Nat → Option α → Option (List (α × β))
  | _, none => some []
  | 0, some _ => none
  | fuel + 1, some a => do
    let n ← h.lookup a
    let l ← walkPrev h fuel n.prev
    return (a, n.val) :: l

/-- The first node, following `next`, whose value passes the test. -/
def findNext (test : β → Bool) (h : Heap α β) : Nat → Option α → Option (Option (α × β))
  | _, none => some none
  | 0, some _ => none
  | fuel + 1, some a => do
    let n ← h.lookup a
    if test n.val then return some (a, n.val) else findNext test h fuel n.next

/-- Following `prev`, takes out the nodes whose values pass the test, `max`
at most. The pointer to go on with is read from the removed node. -/
def sweepPrev (test : β → Bool) :
    Nat → Option α → Nat → DList α β → Option (List (α × β) × DList α β)
  | _, none, _, q => some ([], q)
  | _, some _, 0, q => some ([], q)
  | 0, some _, _ + 1, _ => none
  | fuel + 1, some a, max + 1, q => do
    let n ← q.heap.lookup a
    if test n.val then
      let q ← q.remove a
      let removed ← q.heap.lookup a
      let r ← sweepPrev test fuel removed.prev max q
      return ((a, n.val) :: r.1, r.2)
    else sweepPrev test fuel n.prev (max + 1) q

/-! ## Changing one pointer -/

/-- Two memories with the same nodes, and the same contents but for the
nodes of a list. -/
structure SameBut (l : List (α × β)) (h h' : Heap α β) : Prop where
  lookup : ∀ a, a ∉ addrs l → h'.lookup a = h.lookup a
  mem : ∀ a, a ∈ h' ↔ a ∈ h

theorem SameBut.refl (l : List (α × β)) (h : Heap α β) : SameBut l h h :=
  ⟨fun _ _ => rfl, fun _ => Iff.rfl⟩

/-- A node is overwritten. -/
theorem sameBut_insert {h : Heap α β} {a : α} (ha : a ∈ h) {l : List (α × β)}
    (hl : a ∈ addrs l) (n : Node α β) : SameBut l h (h.insert a n) := by
  constructor
  · intro b hb
    exact AList.lookup_insert_ne fun heq => hb (heq ▸ hl)
  · intro b
    rw [AList.mem_insert]
    constructor
    · rintro (rfl | hb)
      · exact ha
      · exact hb
    · exact .inr

theorem mem_of_lookup {h : Heap α β} {a : α} {n : Node α β} (hn : h.lookup a = some n) :
    a ∈ h := by
  rw [← AList.lookup_isSome, hn]
  rfl

/-- The part before a node is linked to what comes behind the node. -/
theorem DList.relinkNext_spec {q : DList α β} {pre : List (α × β)} {next : Option α}
    (hseg : Seg q.heap none pre next) (hnodup : (addrs pre).Nodup)
    (hhead : q.head = firstOf pre next) (next' : Option α) :
    ∃ q', q.relinkNext (lastOf none pre) next' = some q' ∧ Seg q'.heap none pre next' ∧
      q'.head = firstOf pre next' ∧ q'.tail = q.tail ∧ SameBut pre q.heap q'.heap := by
  rcases List.eq_nil_or_concat pre with rfl | ⟨pre, ⟨p, w⟩, rfl⟩
  · exact ⟨{ q with head := next' }, rfl, trivial, rfl, rfl, .refl _ _⟩
  · rw [List.concat_eq_append] at *
    have hp : p ∉ addrs pre := by
      rw [addrs, List.map_append, List.nodup_append] at hnodup
      exact fun hmem => hnodup.2.2 p hmem p (by simp) rfl
    have hlookup := hseg.lookup
    refine ⟨{ q with heap := q.heap.insert p ⟨w, lastOf none pre, next'⟩ }, ?_,
      hseg.setNext hp next', ?_, rfl, sameBut_insert (mem_of_lookup hlookup) (by simp) _⟩
    · rw [lastOf_concat, DList.relinkNext, hlookup]
      rfl
    · show q.head = _
      rw [hhead, firstOf_append, firstOf_append]
      rfl

/-- The part behind a node is linked to what comes before the node. -/
theorem DList.relinkPrev_spec {q : DList α β} {post : List (α × β)} {prev : Option α}
    (hseg : Seg q.heap prev post none) (hnodup : (addrs post).Nodup)
    (htail : q.tail = lastOf prev post) (prev' : Option α) :
    ∃ q', q.relinkPrev (firstOf post none) prev' = some q' ∧ Seg q'.heap prev' post none ∧
      q'.tail = lastOf prev' post ∧ q'.head = q.head ∧ SameBut post q.heap q'.heap := by
  cases post with
  | nil => exact ⟨{ q with tail := prev' }, rfl, trivial, rfl, rfl, .refl _ _⟩
  | cons x post =>
    obtain ⟨s, w⟩ := x
    have hs : s ∉ addrs post := (List.nodup_cons.mp hnodup).1
    have hlookup := hseg.1
    refine ⟨{ q with heap := q.heap.insert s ⟨w, prev', firstOf post none⟩ }, ?_,
      hseg.setPrev hs prev', htail, rfl, sameBut_insert (mem_of_lookup hlookup) (by simp) _⟩
    rw [firstOf, DList.relinkPrev, hlookup]
    rfl

/-! ## What the operations do to the list -/

/-- The memory holds this list, from the head to the tail. -/
structure Represents (q : DList α β) (l : List (α × β)) : Prop where
  nodup : (addrs l).Nodup
  seg : Seg q.heap none l none
  head : q.head = firstOf l none
  tail : q.tail = lastOf none l

theorem Represents.lookup {q : DList α β} {pre post : List (α × β)} {a : α} {v : β}
    (h : Represents q (pre ++ (a, v) :: post)) :
    q.heap.lookup a = some ⟨v, lastOf none pre, firstOf post none⟩ :=
  h.seg.lookup

/-- Removing a node takes it out of the list and leaves it as it is in
memory. -/
theorem DList.remove_spec {q : DList α β} {pre post : List (α × β)} {a : α} {v : β}
    (h : Represents q (pre ++ (a, v) :: post)) :
    ∃ q', q.remove a = some q' ∧ Represents q' (pre ++ post) ∧
      q'.heap.lookup a = q.heap.lookup a ∧ ∀ b, b ∈ q'.heap ↔ b ∈ q.heap := by
  have hnodup := h.nodup
  rw [addrs, List.map_append, List.map_cons, List.nodup_append, List.nodup_cons] at hnodup
  obtain ⟨hpre, ⟨hapost, hpost⟩, hdisj⟩ := hnodup
  have hapre : a ∉ addrs pre := fun hmem => hdisj a hmem a (by simp) rfl
  have hdisj' : ∀ b ∈ addrs pre, b ∉ addrs post :=
    fun b hb hb' => hdisj b hb b (List.mem_cons_of_mem a hb') rfl
  obtain ⟨hsegpre, -, hsegpost⟩ := seg_append.mp h.seg
  have ha := h.lookup
  have hhead : q.head = firstOf pre (some a) := by
    rw [h.head, firstOf_append]
    rfl
  obtain ⟨q₁, hq₁, hseg₁, hhead₁, htail₁, hsame₁⟩ :=
    q.relinkNext_spec hsegpre hpre hhead (firstOf post none)
  have ha₁ : q₁.heap.lookup a = q.heap.lookup a := hsame₁.lookup a hapre
  have hsegpost₁ : Seg q₁.heap (some a) post none :=
    hsegpost.congr fun b hb => hsame₁.lookup b fun hb' => hdisj' b hb' hb
  have htail : q₁.tail = lastOf (some a) post := by
    rw [htail₁, h.tail, lastOf_append]
    rfl
  obtain ⟨q₂, hq₂, hseg₂, htail₂, hhead₂, hsame₂⟩ :=
    q₁.relinkPrev_spec hsegpost₁ hpost htail (lastOf none pre)
  refine ⟨q₂, ?_, ?_, ?_, ?_⟩
  · simp only [DList.remove, Option.bind_eq_bind, ha, hq₁, ha₁, Option.bind_some]
    exact hq₂
  · refine ⟨?_, ?_, ?_, ?_⟩
    · rw [addrs, List.map_append, List.nodup_append]
      exact ⟨hpre, hpost, fun b hb c hc heq => hdisj' b hb (heq ▸ hc)⟩
    · refine seg_append.mpr ⟨hseg₁.congr ?_, hseg₂⟩
      exact fun b hb => hsame₂.lookup b (hdisj' b hb)
    · rw [hhead₂, hhead₁, firstOf_append]
    · rw [htail₂, lastOf_append]
  · rw [hsame₂.lookup a hapost, ha₁]
  · intro b
    rw [hsame₂.mem, hsame₁.mem]

theorem DList.pushFront_spec {q : DList α β} {l : List (α × β)} (h : Represents q l) {a : α}
    (ha : a ∉ q.heap) (hl : a ∉ addrs l) (v : β) :
    ∃ q', q.pushFront a v = some q' ∧ Represents q' ((a, v) :: l) ∧
      ∀ b, b ∈ q'.heap ↔ b = a ∨ b ∈ q.heap := by
  have hnodup : (addrs ((a, v) :: l)).Nodup := List.nodup_cons.mpr ⟨hl, h.nodup⟩
  have hseg : Seg (q.heap.insert a ⟨v, none, none⟩) none l none :=
    h.seg.congr fun b hb => AList.lookup_insert_ne fun heq => hl (heq ▸ hb)
  cases l with
  | nil =>
    have hhead : q.head = none := h.head
    refine ⟨_, by rw [DList.pushFront, hhead], ⟨hnodup, ?_, rfl, rfl⟩, ?_⟩
    · exact ⟨AList.lookup_insert _, trivial⟩
    · exact fun b => AList.mem_insert q.heap
  | cons x l =>
    obtain ⟨b, w⟩ := x
    have hhead : q.head = some b := h.head
    have hba : b ≠ a := fun heq => hl (heq ▸ List.mem_cons_self)
    have hbl : b ∉ addrs l := (List.nodup_cons.mp h.nodup).1
    have hlookup := hseg.1
    -- the old first node is linked back to the new one, then the new one forward
    have hseg₁ := hseg.setPrev hbl (some a)
    have ha₁ : ((q.heap.insert a ⟨v, none, none⟩).insert b
        ⟨w, some a, firstOf l none⟩).lookup a = some ⟨v, none, none⟩ := by
      rw [AList.lookup_insert_ne hba.symm, AList.lookup_insert]
    refine ⟨{ q with
        heap := ((q.heap.insert a ⟨v, none, none⟩).insert b
          ⟨w, some a, firstOf l none⟩).insert a ⟨v, none, some b⟩
        head := some a }, ?_, ⟨hnodup, ?_, rfl, h.tail⟩, ?_⟩
    · rw [DList.pushFront, hhead]
      simp only [hlookup, ha₁, Option.bind_eq_bind, Option.bind_some, pure]
    · refine ⟨AList.lookup_insert _, hseg₁.congr ?_⟩
      exact fun c hc => AList.lookup_insert_ne fun heq => hl (heq ▸ hc)
    · intro c
      simp only [AList.mem_insert]
      have hb : b ∈ q.heap := mem_of_lookup h.seg.1
      constructor
      · rintro (rfl | rfl | rfl | hc)
        · exact .inl rfl
        · exact .inr hb
        · exact .inl rfl
        · exact .inr hc
      · rintro (rfl | hc)
        · exact .inl rfl
        · exact .inr (.inr (.inr hc))

/-- Giving back memory outside of the list. -/
theorem DList.free_spec {q : DList α β} {l : List (α × β)} (h : Represents q l) {a : α}
    (ha : a ∉ addrs l) :
    Represents (q.free a) l ∧ ∀ b, b ∈ (q.free a).heap ↔ b ≠ a ∧ b ∈ q.heap := by
  refine ⟨⟨h.nodup, h.seg.congr ?_, h.head, h.tail⟩, fun b => AList.mem_erase⟩
  exact fun b hb => AList.lookup_erase_ne fun heq => ha (heq ▸ hb)

/-- The same for several nodes, one after the other. -/
theorem DList.foldl_free_spec {freed : List (α × β)} :
    ∀ {q : DList α β} {l : List (α × β)}, Represents q l →
      (∀ a ∈ addrs freed, a ∉ addrs l) →
      Represents (freed.foldl (fun q n => q.free n.1) q) l ∧
        ∀ b, b ∈ (freed.foldl (fun q n => q.free n.1) q).heap ↔
          b ∉ addrs freed ∧ b ∈ q.heap := by
  induction freed with
  | nil =>
    intro q l h _
    exact ⟨h, by simp⟩
  | cons n freed ih =>
    intro q l h hfreed
    obtain ⟨hrep, hmem⟩ := q.free_spec h (hfreed n.1 List.mem_cons_self)
    obtain ⟨hrep', hmem'⟩ := ih hrep fun a ha => hfreed a (List.mem_cons_of_mem _ ha)
    refine ⟨hrep', fun b => (hmem' b).trans ?_⟩
    rw [hmem, mem_addrs_cons, not_or]
    tauto

/-! ## Walks -/

theorem walkNext_spec {h : Heap α β} {l : List (α × β)} :
    ∀ {prev : Option α} {fuel : Nat}, Seg h prev l none → l.length ≤ fuel →
      walkNext h fuel (firstOf l none) = some l := by
  induction l with
  | nil =>
    intro prev fuel _ _
    rw [firstOf, walkNext]
  | cons x l ih =>
    intro prev fuel hseg hfuel
    obtain ⟨a, v⟩ := x
    cases fuel with
    | zero => simp at hfuel
    | succ fuel =>
      have hrest := ih hseg.2 (Nat.le_of_succ_le_succ hfuel)
      rw [firstOf, walkNext, hseg.1]
      simp only [Option.bind_eq_bind, Option.bind_some, hrest]
      rfl

theorem walkPrev_spec {h : Heap α β} {l : List (α × β)} :
    ∀ {next : Option α} {fuel : Nat}, Seg h none l next → l.length ≤ fuel →
      walkPrev h fuel (lastOf none l) = some l.reverse := by
  induction l using List.reverseRecOn with
  | nil =>
    intro next fuel _ _
    rw [lastOf, walkPrev]
    rfl
  | append_singleton l x ih =>
    intro next fuel hseg hfuel
    obtain ⟨a, v⟩ := x
    rw [List.length_append, List.length_singleton] at hfuel
    obtain ⟨fuel, rfl⟩ : ∃ n, fuel = n + 1 := ⟨fuel - 1, by omega⟩
    have hrest := ih (seg_append.mp hseg).1 (by omega : l.length ≤ fuel)
    rw [lastOf_concat, walkPrev, hseg.lookup]
    simp only [Option.bind_eq_bind, Option.bind_some, hrest]
    rw [List.reverse_concat]
    rfl

theorem findNext_spec (test : β → Bool) {h : Heap α β} {l : List (α × β)} :
    ∀ {prev : Option α} {fuel : Nat}, Seg h prev l none → l.length ≤ fuel →
      findNext test h fuel (firstOf l none) = some (l.find? fun x => test x.2) := by
  induction l with
  | nil =>
    intro prev fuel _ _
    rw [firstOf, findNext]
    rfl
  | cons x l ih =>
    intro prev fuel hseg hfuel
    obtain ⟨a, v⟩ := x
    cases fuel with
    | zero => simp at hfuel
    | succ fuel =>
      have hrest := ih hseg.2 (Nat.le_of_succ_le_succ hfuel)
      rw [firstOf, findNext, hseg.1]
      simp only [Option.bind_eq_bind, Option.bind_some, hrest]
      by_cases hv : test v = true
      · rw [if_pos hv, List.find?_cons_of_pos (by exact hv)]
        rfl
      · rw [if_neg hv, List.find?_cons_of_neg (by exact hv)]

/-! ## Taking out several elements -/

/-- The first `max` elements that pass the test, and the others. -/
def takeFirst {γ : Type*} (p : γ → Bool) : Nat → List γ → List γ × List γ
  | 0, l => ([], l)
  | _ + 1, [] => ([], [])
  | max + 1, x :: l =>
    if p x then (x :: (takeFirst p max l).1, (takeFirst p max l).2)
    else ((takeFirst p (max + 1) l).1, x :: (takeFirst p (max + 1) l).2)

theorem takeFirst_nil {γ : Type*} (p : γ → Bool) (max : Nat) : takeFirst p max [] = ([], []) := by
  cases max <;> rfl

theorem takeFirst_fst {γ : Type*} (p : γ → Bool) (max : Nat) (l : List γ) :
    (takeFirst p max l).1 = (l.filter p).take max := by
  fun_induction takeFirst p max l with
  | case1 l => rfl
  | case2 max => rfl
  | case3 max x l hx ih => rw [List.filter_cons_of_pos hx, List.take_succ_cons, ih]
  | case4 max x l hx ih => rw [List.filter_cons_of_neg hx, ih]

/-- The others stay in order; of those that pass, the later ones. -/
theorem takeFirst_snd {γ : Type*} (p : γ → Bool) (max : Nat) (l : List γ) :
    (takeFirst p max l).2.Sublist l ∧
      (takeFirst p max l).2.filter p = (l.filter p).drop max ∧
      (takeFirst p max l).2.filter (fun x => !p x) = l.filter fun x => !p x := by
  fun_induction takeFirst p max l with
  | case1 l => exact ⟨List.Sublist.refl l, rfl, rfl⟩
  | case2 max => exact ⟨List.Sublist.refl [], rfl, rfl⟩
  | case3 max x l hx ih =>
    obtain ⟨hsub, hdrop, hrest⟩ := ih
    refine ⟨hsub.cons x, ?_, ?_⟩
    · rw [List.filter_cons_of_pos hx, List.drop_succ_cons, hdrop]
    · rw [List.filter_cons_of_neg (by simp [hx]), hrest]
  | case4 max x l hx ih =>
    obtain ⟨hsub, hdrop, hrest⟩ := ih
    refine ⟨hsub.cons_cons x, ?_, ?_⟩
    · rw [List.filter_cons_of_neg hx, List.filter_cons_of_neg hx, hdrop]
    · rw [List.filter_cons_of_pos (by simp [hx]), List.filter_cons_of_pos (by simp [hx]), hrest]

theorem takeFirst_perm {γ : Type*} (p : γ → Bool) (max : Nat) (l : List γ) :
    ((takeFirst p max l).1 ++ (takeFirst p max l).2).Perm l := by
  fun_induction takeFirst p max l with
  | case1 l => exact .refl l
  | case2 max => exact .refl []
  | case3 max x l hx ih => exact ih.cons x
  | case4 max x l hx ih => exact List.perm_middle.trans (ih.cons x)

theorem takeFirst_map {γ δ : Type*} (f : γ → δ) (p : δ → Bool) (max : Nat) (l : List γ) :
    takeFirst p max (l.map f) =
      ((takeFirst (fun x => p (f x)) max l).1.map f,
        (takeFirst (fun x => p (f x)) max l).2.map f) := by
  fun_induction takeFirst (fun x => p (f x)) max l with
  | case1 l =>
    rw [takeFirst]
    rfl
  | case2 max => rfl
  | case3 max x l hx ih =>
    rw [List.map_cons, takeFirst, if_pos hx, ih]
    rfl
  | case4 max x l hx ih =>
    rw [List.map_cons, takeFirst, if_neg hx, ih]
    rfl

/-- The sweep goes through the list from its end. What it takes out and
what it leaves there is a choice from the reversed list. `pre` is still to
be visited, `post` was left in the list. -/
theorem sweepPrev_spec (test : β → Bool) {r : List (α × β)} :
    ∀ {post : List (α × β)} {q : DList α β} {fuel : Nat} (max : Nat),
      Represents q (r.reverse ++ post) → r.length ≤ fuel →
      ∃ q', sweepPrev test fuel (lastOf none r.reverse) max q =
          some ((takeFirst (fun x => test x.2) max r).1, q') ∧
        Represents q' ((takeFirst (fun x => test x.2) max r).2.reverse ++ post) ∧
        ∀ b, b ∈ q'.heap ↔ b ∈ q.heap := by
  induction r with
  | nil =>
    intro post q fuel max h _
    rw [takeFirst_nil]
    refine ⟨q, ?_, h, fun _ => Iff.rfl⟩
    rw [List.reverse_nil, lastOf, sweepPrev]
  | cons x r ih =>
    intro post q fuel max h hfuel
    obtain ⟨a, v⟩ := x
    rw [List.length_cons] at hfuel
    obtain ⟨fuel, rfl⟩ : ∃ n, fuel = n + 1 := ⟨fuel - 1, by omega⟩
    rw [List.reverse_cons, List.append_assoc, List.singleton_append] at h
    rw [List.reverse_cons, lastOf_concat]
    cases max with
    | zero =>
      refine ⟨q, by rw [sweepPrev, takeFirst], ?_, fun _ => Iff.rfl⟩
      rwa [takeFirst, List.reverse_cons, List.append_assoc, List.singleton_append]
    | succ max =>
      rw [sweepPrev, h.lookup, takeFirst]
      simp only [Option.bind_eq_bind, Option.bind_some]
      by_cases hv : test v = true
      -- the node goes; its own pointer leads on
      · obtain ⟨q₁, hq₁, hrep₁, hlookup₁, hmem₁⟩ := q.remove_spec h
        obtain ⟨q', hq', hrep', hmem'⟩ :=
          ih max hrep₁ (by omega : r.length ≤ fuel)
        rw [h.lookup] at hlookup₁
        refine ⟨q', ?_, ?_, fun b => (hmem' b).trans (hmem₁ b)⟩
        · rw [if_pos hv, if_pos hv, hq₁]
          simp only [Option.bind_some, hlookup₁, hq']
          rfl
        · rwa [if_pos hv]
      · obtain ⟨q', hq', hrep', hmem'⟩ :=
          ih (max + 1) h (by omega : r.length ≤ fuel)
        refine ⟨q', ?_, ?_, hmem'⟩
        · rw [if_neg hv, if_neg hv, hq']
        · rw [if_neg hv, List.reverse_cons, List.append_assoc, List.singleton_append]
          exact hrep'

/-! ## As many steps as there are nodes -/

theorem Seg.mem {h : Heap α β} {prev next : Option α} {l : List (α × β)}
    (hseg : Seg h prev l next) : ∀ a ∈ addrs l, a ∈ h := by
  intro a ha
  obtain ⟨⟨b, v⟩, hmem, rfl⟩ := List.mem_map.mp ha
  obtain ⟨pre, post, rfl⟩ := List.append_of_mem hmem
  exact mem_of_lookup hseg.lookup

/-- The list has at most as many nodes as the memory. -/
theorem Represents.length_le {q : DList α β} {l : List (α × β)} (h : Represents q l) :
    l.length ≤ q.heap.keys.length := by
  have hsub : addrs l ⊆ q.heap.keys := fun a ha => AList.mem_keys.mp (h.seg.mem a ha)
  have hle := (List.subperm_of_subset h.nodup hsub).length_le
  rwa [addrs, List.length_map] at hle

end DoublyLinked
