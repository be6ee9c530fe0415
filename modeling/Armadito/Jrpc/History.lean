import Mathlib.Data.List.Induction
import Armadito.Jrpc.Marshall

/-!
# Jrpc.History

What happened on a connection that makes calls: the calls, the results the
methods produced for them, and the result messages it processed. `Explained`
says of each processed message what it has to do there; `Dispatched` is what
follows for the callbacks.
-/

namespace Armadito.Jrpc

/-- Where a message comes from: it answers a call, or somebody else put it
into the channel. -/
inductive Origin where
  | answer (call : Nat)
  | extra
  deriving DecidableEq, Repr

/-- A processed result message comes with the status, and the callbacks
that were invoked with what. -/
inductive Event (β : Type) where
  | called (id : Nat) (cb : β)
  | served (id : Nat) (result : Json)
  | processed (origin : Origin) (id : Nat) (result : Json) (ret : Int)
      (invoked : List (β × Json))

variable {β : Type}

/-- The callbacks that an event called for an id. -/
def Event.invocations (id : Nat) : Event β → List (β × Json)
  | .processed _ id' _ _ invoked => if id' = id then invoked else []
  | _ => []

/-- The results that an event sent for an id. -/
def Event.results (id : Nat) : Event β → List Json
  | .served id' result => if id' = id then [result] else []
  | _ => []

/-- The invocations of the callback of a call. -/
def invocations (id : Nat) (log : List (Event β)) : List (β × Json) :=
  log.flatMap (Event.invocations id)

/-- The results that were produced for a call. -/
def results (id : Nat) (log : List (Event β)) : List Json := log.flatMap (Event.results id)

/-- The callback waits for its result. -/
def Pending (log : List (Event β)) (id : Nat) (cb : β) : Prop :=
  .called id cb ∈ log ∧ invocations id log = []

@[simp] theorem invocations_append (id : Nat) (log log' : List (Event β)) :
    invocations id (log ++ log') = invocations id log ++ invocations id log' :=
  List.flatMap_append

@[simp] theorem results_append (id : Nat) (log log' : List (Event β)) :
    results id (log ++ log') = results id log ++ results id log' :=
  List.flatMap_append

theorem mem_results {id : Nat} {log : List (Event β)} {result : Json} :
    result ∈ results id log ↔ .served id result ∈ log := by
  rw [results, List.mem_flatMap]
  constructor
  · rintro ⟨e, he, hmem⟩
    cases e with
    | served id' result' =>
      rw [Event.results] at hmem
      split_ifs at hmem with hid
      · rw [List.mem_singleton.mp hmem, ← hid]
        exact he
      · cases hmem
    | called _ _ => cases hmem
    | processed _ _ _ _ _ => cases hmem
  · intro h
    exact ⟨_, h, by simp [Event.results]⟩

/-! ## What processing a result has to do -/

/-- What a response may do, given what happened before. -/
structure ProcessedWell (before : List (Event β)) (origin : Origin) (id : Nat) (result : Json)
    (ret : Int) (invoked : List (β × Json)) : Prop where
  pending : ∀ cb, Pending before id cb → invoked = [(cb, result)] ∧ ret = jrpcOk
  notPending : (∀ cb, ¬ Pending before id cb) →
    invoked = [] ∧ ret = jrpcErrInvalidResponseId
  answer : ∀ call, origin = .answer call →
    id = call ∧ .served call result ∈ before ∧ ∃ cb, .called call cb ∈ before

/-- Every result message was processed as it has to be. -/
def Explained (log : List (Event β)) : Prop :=
  ∀ before after origin id result ret invoked,
    log = before ++ .processed origin id result ret invoked :: after →
      ProcessedWell before origin id result ret invoked

theorem explained_nil : Explained ([] : List (Event β)) := by
  intro before after origin id result ret invoked h
  cases before <;> cases h

theorem Explained.of_append {log log' : List (Event β)} (h : Explained (log ++ log')) :
    Explained log := by
  intro before after origin id result ret invoked hlog
  apply h before (after ++ log')
  rw [hlog, List.append_assoc]
  rfl

theorem Explained.concat {log : List (Event β)} (h : Explained log) {e : Event β}
    (he : ∀ origin id result ret invoked, e = .processed origin id result ret invoked →
      ProcessedWell log origin id result ret invoked) : Explained (log ++ [e]) := by
  intro before after origin id result ret invoked hlog
  rcases List.eq_nil_or_concat after with rfl | ⟨after', last, rfl⟩
  · obtain ⟨hbefore, hlast⟩ := List.append_inj' hlog rfl
    injection hlast with hlast
    rw [← hbefore]
    exact he _ _ _ _ _ hlast
  · rw [List.concat_eq_append, ← List.cons_append, ← List.append_assoc] at hlog
    exact h _ _ _ _ _ _ _ (List.append_inj' hlog rfl).1

/-! ## What follows for the callbacks -/

/-- The callback of a call is invoked at most once. -/
theorem Explained.once {log : List (Event β)} (h : Explained log) (id : Nat) :
    (invocations id log).length ≤ 1 := by
  induction log using List.reverseRecOn with
  | nil => exact Nat.zero_le 1
  | append_singleton log e ih =>
    have hlog := ih h.of_append
    rw [invocations_append, List.length_append]
    cases e with
    | called _ _ => exact hlog
    | served _ _ => exact hlog
    | processed origin id' result ret invoked =>
      have hwell := h log [] origin id' result ret invoked rfl
      by_cases hid : id' = id
      · subst hid
        have hlast : invocations id' [.processed origin id' result ret invoked] = invoked := by
          simp [invocations, Event.invocations]
        rw [hlast]
        by_cases hpending : ∃ cb, Pending log id' cb
        · obtain ⟨cb, hcb⟩ := hpending
          rw [(hwell.pending cb hcb).1, hcb.2]
          exact Nat.le_refl 1
        · rw [(hwell.notPending (not_exists.mp hpending)).1]
          exact hlog
      · have hlast : invocations id [.processed origin id' result ret invoked] = [] := by
          simp [invocations, Event.invocations, hid]
        rw [hlast]
        exact hlog

/-- What is invoked was called, and gets the result of a message with its
id: of the answer, or of an extra message. -/
theorem Explained.invoked {log : List (Event β)} (h : Explained log) {origin : Origin}
    {id : Nat} {result : Json} {ret : Int} {invoked : List (β × Json)}
    (hmem : .processed origin id result ret invoked ∈ log) {cb : β} {r : Json}
    (hcb : (cb, r) ∈ invoked) :
    r = result ∧ ret = jrpcOk ∧ .called id cb ∈ log ∧
      (origin = .extra ∨ (origin = .answer id ∧ .served id result ∈ log)) := by
  obtain ⟨before, after, hlog⟩ := List.append_of_mem hmem
  have hwell := h before after origin id result ret invoked hlog
  have hsub : ∀ e ∈ before, e ∈ log := by
    intro e he
    rw [hlog]
    exact List.mem_append_left _ he
  by_cases hpending : ∃ cb', Pending before id cb'
  · obtain ⟨cb', hcb'⟩ := hpending
    obtain ⟨hinvoked, hret⟩ := hwell.pending cb' hcb'
    rw [hinvoked, List.mem_singleton] at hcb
    cases hcb
    refine ⟨rfl, hret, hsub _ hcb'.1, ?_⟩
    cases origin with
    | extra => exact .inl rfl
    | answer call =>
      obtain ⟨hid, hserved, -⟩ := hwell.answer call rfl
      subst hid
      exact .inr ⟨rfl, hsub _ hserved⟩
  · rw [(hwell.notPending (not_exists.mp hpending)).1] at hcb
    cases hcb

theorem mem_invocations {id : Nat} {log : List (Event β)} {p : β × Json} :
    p ∈ invocations id log ↔ ∃ origin result ret invoked,
      .processed origin id result ret invoked ∈ log ∧ p ∈ invoked := by
  rw [invocations, List.mem_flatMap]
  constructor
  · rintro ⟨e, he, hmem⟩
    cases e with
    | processed origin id' result ret invoked =>
      rw [Event.invocations] at hmem
      split_ifs at hmem with hid
      · subst hid
        exact ⟨origin, result, ret, invoked, he, hmem⟩
      · cases hmem
    | called _ _ => cases hmem
    | served _ _ => cases hmem
  · rintro ⟨origin, result, ret, invoked, he, hmem⟩
    exact ⟨_, he, by simpa [Event.invocations] using hmem⟩

/-- After the answer to a call its callback has been invoked. -/
theorem Explained.answered {log : List (Event β)} (h : Explained log) {call id : Nat}
    {result : Json} {ret : Int} {invoked : List (β × Json)}
    (hmem : .processed (.answer call) id result ret invoked ∈ log) :
    id = call ∧ .served call result ∈ log ∧ (invocations call log).length = 1 := by
  obtain ⟨before, after, hlog⟩ := List.append_of_mem hmem
  have hwell := h before after (.answer call) id result ret invoked hlog
  obtain ⟨rfl, hserved, cb, hcalled⟩ := hwell.answer call rfl
  have honce := h.once id
  have hsplit : invocations id log =
      invocations id before ++ (invoked ++ invocations id after) := by
    rw [hlog, invocations_append]
    simp [invocations, Event.invocations]
  refine ⟨rfl, ?_, ?_⟩
  · rw [hlog]
    exact List.mem_append_left _ hserved
  · rw [hsplit, List.length_append, List.length_append] at honce ⊢
    by_cases hnil : invocations id before = []
    · rw [(hwell.pending cb ⟨hcalled, hnil⟩).1] at honce ⊢
      rw [List.length_singleton] at honce ⊢
      omega
    · have := List.length_pos_of_ne_nil hnil
      omega

/-- The callbacks are invoked as they should be. -/
structure Dispatched (log : List (Event β)) : Prop where
  /-- At most once, -/
  once : ∀ id, (invocations id log).length ≤ 1
  /-- each the callback of its own call, with the result that the method
  produced for that call or that of an extra message with its id; -/
  invoked : ∀ {id cb r}, (cb, r) ∈ invocations id log → .called id cb ∈ log ∧
    (.served id r ∈ log ∨
      ∃ ret invoked, .processed .extra id r ret invoked ∈ log ∧ (cb, r) ∈ invoked)
  /-- exactly once when the answer has been processed, -/
  answered : ∀ {call id result ret invoked},
    .processed (.answer call) id result ret invoked ∈ log →
      id = call ∧ .served call result ∈ log ∧ (invocations call log).length = 1
  /-- and with that answer when there was no extra message with its id. -/
  ownResult : ∀ {call id result ret invoked},
    .processed (.answer call) id result ret invoked ∈ log →
      (∀ r ret' invoked', .processed .extra call r ret' invoked' ∉ log) →
        ∃ cb, .called call cb ∈ log ∧ invocations call log = [(cb, result)]
  /-- A result whose id is not pending is rejected. -/
  notPending : ∀ {before after origin id result ret invoked},
    log = before ++ .processed origin id result ret invoked :: after →
      (∀ cb, ¬ Pending before id cb) → invoked = [] ∧ ret = jrpcErrInvalidResponseId

theorem eq_of_length_le_one {α : Type} {l : List α} (h : l.length ≤ 1) {a b : α}
    (ha : a ∈ l) (hb : b ∈ l) : a = b := by
  match l, h with
  | [c], _ => rw [List.mem_singleton.mp ha, List.mem_singleton.mp hb]

/-- Methods that are called once for each call leave nothing else to say. -/
theorem Explained.dispatched {log : List (Event β)} (h : Explained log)
    (hserved : ∀ id cb, .called id cb ∈ log → (results id log).length ≤ 1) :
    Dispatched log := by
  have hinvoked : ∀ {id cb r}, (cb, r) ∈ invocations id log → .called id cb ∈ log ∧
      (.served id r ∈ log ∨
        ∃ ret invoked, .processed .extra id r ret invoked ∈ log ∧ (cb, r) ∈ invoked) := by
    intro id cb r hmem
    obtain ⟨origin, result, ret, invoked, hprocessed, hcb⟩ := mem_invocations.mp hmem
    obtain ⟨rfl, -, hcalled, horigin⟩ := h.invoked hprocessed hcb
    refine ⟨hcalled, ?_⟩
    rcases horigin with rfl | ⟨-, hresult⟩
    · exact .inr ⟨ret, invoked, hprocessed, hcb⟩
    · exact .inl hresult
  refine ⟨h.once, hinvoked, h.answered, ?_, ?_⟩
  · intro call id result ret invoked hmem hextra
    obtain ⟨rfl, hresult, hlen⟩ := h.answered hmem
    obtain ⟨⟨cb, r⟩, hone⟩ := List.length_eq_one_iff.mp hlen
    have hmem' : (cb, r) ∈ invocations id log := by
      rw [hone]
      exact List.mem_singleton_self (cb, r)
    obtain ⟨hcalled, hr⟩ := hinvoked hmem'
    have hown : .served id r ∈ log := by
      rcases hr with hr | ⟨ret', invoked', hr, -⟩
      · exact hr
      · exact absurd hr (hextra r ret' invoked')
    have heq : r = result := eq_of_length_le_one (hserved id cb hcalled)
      (mem_results.mpr hown) (mem_results.mpr hresult)
    exact ⟨cb, hcalled, by rw [hone, heq]⟩
  · intro before after origin id result ret invoked hlog hpending
    exact (h before after origin id result ret invoked hlog).notPending hpending

end Armadito.Jrpc
