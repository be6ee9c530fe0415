import Mathlib.Data.List.Perm.Subperm
import Armadito.Jrpc.Dispatch

/-!
# Jrpc.Outcomes

The outcome of a call: its callback is invoked with a result, or an error
response for it is processed. `connection_process_result` takes the call out
of the response table, `connection_process_error` does not; so a call has
one outcome as long as nobody answers a call with an error.
-/

namespace Armadito.Jrpc.Outcomes

variable {β : Type}

/-! ## Runs of a connection -/

/-- A connection, the ids of the calls made with a callback, and the ids
that got an outcome, in order. -/
structure State (β : Type) where
  conn : JrpcConnection β
  called : List Nat
  outcomes : List Nat

/-- A new connection. -/
def start (mapper : Option JrpcMapper) (errorHandler : Bool) : State β :=
  { conn := { jrpcConnectionNew mapper with errorHandler }, called := [], outcomes := [] }

/-- Any message may come in. -/
inductive Label (β : Type) where
  | call (method : CString) (params : Option Json) (cb : β)
  | receive (message : Json)

/-- The outcomes of the calls that a message answers. -/
def newOutcomes (called : List Nat) (message : Json) (effects : List (Effect β)) : List Nat :=
  match jsonRpcUnpack message with
  | .ok (.resultResponse id _) => (invokedCallbacks effects).map fun _ => id
  | .ok (.errorResponse id _ _ _) => if id ∈ called then [id] else []
  | _ => []

/-- A call that fails the assertion of the table has no successor. -/
def step (s : State β) : Label β → Option (State β)
  | .call method params cb =>
    match jrpcCall s.conn method params (some cb) with
    | .error _ => none
    | .ok (conn, _) => some { s with conn, called := s.called ++ [s.conn.currentId] }
  | .receive message =>
    let (_, conn, effects) := jrpcProcess s.conn message
    some { s with conn, outcomes := s.outcomes ++ newOutcomes s.called message effects }

/-- **One outcome per call**: no call has two, a call that has one is not
pending, and what is pending is counted right. -/
structure OneOutcome (s : State β) : Prop where
  atMostOne : ∀ id ∈ s.called, s.outcomes.count id ≤ 1
  retired : ∀ id ∈ s.outcomes, hashTableSearch s.conn.responseTable id = none
  pending : s.conn.responseTable.table.countP (fun e => e.key ≠ 0) =
    s.called.countP fun id => id ∉ s.outcomes

/-- The step is no error response to a call, and ids do not wrap around. -/
def Answerable (s : State β) : Label β → Prop
  | .call _ _ _ => s.conn.currentId + 1 < 2 ^ 64
  | .receive message => ∀ id code text data,
      jsonRpcUnpack message = .ok (.errorResponse id code text data) → id ∉ s.called

/-! ## The invariant -/

/-- What every run keeps of calls and outcomes. -/
structure Inv (s : State β) : Prop where
  table : s.conn.responseTable.Inv
  positive : 1 ≤ s.conn.currentId
  called : ∀ id ∈ s.called, 1 ≤ id ∧ id < s.conn.currentId
  calledOnce : s.called.Nodup
  outcomes : ∀ id ∈ s.outcomes, id ∈ s.called
  outcomesOnce : s.outcomes.Nodup
  pending : ∀ id, hashTableSearch s.conn.responseTable id ≠ none ↔
    id ∈ s.called ∧ id ∉ s.outcomes

theorem start_inv (mapper : Option JrpcMapper) (errorHandler : Bool) :
    Inv (start mapper errorHandler : State β) where
  table := hashTableNew_inv
  positive := Nat.le_refl 1
  called := by
    intro id h
    cases h
  calledOnce := List.nodup_nil
  outcomes := by
    intro id h
    cases h
  outcomesOnce := List.nodup_nil
  pending := by
    intro id
    have hnone : hashTableSearch (hashTableNew : HashTable β) id = none := by
      rw [hashTableSearch_new]
    refine iff_of_false ?_ fun h => by cases h.1
    exact fun h => h hnone

theorem Inv.oneOutcome {s : State β} (h : Inv s) : OneOutcome s where
  atMostOne := fun id _ => List.nodup_iff_count_le_one.mp h.outcomesOnce id
  retired := by
    intro id hid
    by_contra hne
    exact ((h.pending id).mp hne).2 hid
  pending := by
    rw [List.countP_eq_length_filter (l := s.called)]
    refine h.table.countP_eq_length (h.calledOnce.filter _) fun id => ?_
    rw [h.pending, List.mem_filter, decide_eq_true_eq]

/-! ## One step -/

theorem Inv.call {s : State β} (h : Inv s) (hmax : s.conn.currentId + 1 < 2 ^ 64)
    (method : CString) (params : Option Json) (cb : β) :
    ∃ s', step s (.call method params cb) = some s' ∧ Inv s' := by
  have hpositive := h.positive
  have hfresh : s.conn.currentId ∉ s.called := fun hmem =>
    Nat.lt_irrefl _ (h.called _ hmem).2
  -- a pending id was called, and this one is fresh
  have hnew : hashTableSearch s.conn.responseTable s.conn.currentId = none := by
    by_contra hne
    exact hfresh ((h.pending _).mp hne).1
  obtain ⟨table, hcall, htable, hsearch⟩ :=
    jrpcCall_some h.table (by omega) hmax hnew method params cb
  have hstep : step s (.call method params cb) = some
      { s with
        conn := { s.conn with currentId := s.conn.currentId + 1, responseTable := table }
        called := s.called ++ [s.conn.currentId] } := by
    rw [step, hcall]
  have hmem : ∀ id, id ∈ s.called ++ [s.conn.currentId] ↔
      id ∈ s.called ∨ id = s.conn.currentId := by
    intro id
    rw [List.mem_append, List.mem_singleton]
  refine ⟨_, hstep, htable, ?_, ?_, ?_, ?_, h.outcomesOnce, ?_⟩
  · show 1 ≤ s.conn.currentId + 1
    omega
  · intro id hid
    show 1 ≤ id ∧ id < s.conn.currentId + 1
    rcases (hmem id).mp hid with hid | rfl
    · have := h.called id hid
      omega
    · omega
  · exact List.nodup_append.mpr ⟨h.calledOnce, List.nodup_singleton _, by
      intro id hid id' hid' heq
      rw [List.mem_singleton.mp hid'] at heq
      exact hfresh (heq ▸ hid)⟩
  · exact fun id hid => List.mem_append_left _ (h.outcomes id hid)
  · intro id
    show hashTableSearch table id ≠ none ↔ _
    rw [hsearch, Function.update_apply, hmem]
    by_cases hid : id = s.conn.currentId
    · have hopen : s.conn.currentId ∉ s.outcomes := fun hdone => hfresh (h.outcomes _ hdone)
      rw [if_pos hid, hid]
      simp [hopen]
    · rw [if_neg hid, h.pending]
      simp [hid]

/-- A result for a pending call retires it; a result for anything else
changes nothing. -/
theorem Inv.result {s : State β} (h : Inv s) {message : Json} {id : Nat} {result : Json}
    (hunpack : jsonRpcUnpack message = .ok (.resultResponse id result)) :
    ∃ s', step s (.receive message) = some s' ∧ Inv s' := by
  have hprocess : jrpcProcess s.conn message = connectionProcessResult s.conn id result := by
    rw [jrpcProcess, hunpack]
  cases hsearch : hashTableSearch s.conn.responseTable id with
  | none =>
    have hstep : step s (.receive message) = some s := by
      rw [step, hprocess, connectionProcessResult_none result hsearch]
      simp [newOutcomes, hunpack, invokedCallbacks]
    exact ⟨s, hstep, h⟩
  | some cb =>
    obtain ⟨table, hresult, htable, hupdate⟩ :=
      connectionProcessResult_some h.table result hsearch
    have hstep : step s (.receive message) = some
        { s with
          conn := { s.conn with responseTable := table }
          outcomes := s.outcomes ++ [id] } := by
      rw [step, hprocess, hresult]
      simp [newOutcomes, hunpack, invokedCallbacks]
    have hopen := (h.pending id).mp (by rw [hsearch]; exact Option.some_ne_none cb)
    refine ⟨_, hstep, htable, h.positive, h.called, h.calledOnce, ?_, ?_, ?_⟩
    · intro id' hid'
      rcases List.mem_append.mp hid' with hid' | hid'
      · exact h.outcomes id' hid'
      · rw [List.mem_singleton.mp hid']
        exact hopen.1
    · exact List.nodup_append.mpr ⟨h.outcomesOnce, List.nodup_singleton _, by
        intro id₁ hid₁ id₂ hid₂ heq
        rw [List.mem_singleton.mp hid₂] at heq
        exact hopen.2 (heq ▸ hid₁)⟩
    · intro id'
      show hashTableSearch table id' ≠ none ↔ _
      rw [hupdate, Function.update_apply, List.mem_append, List.mem_singleton]
      by_cases hid : id' = id
      · simp [hid]
      · rw [if_neg hid, h.pending]
        simp [hid]

/-- An error response to no call, and a request, change nothing. -/
theorem Inv.step {s : State β} (h : Inv s) {label : Label β} (hok : Answerable s label) :
    ∃ s', Outcomes.step s label = some s' ∧ Inv s' := by
  cases label with
  | call method params cb => exact h.call hok method params cb
  | receive message =>
    cases hunpack : jsonRpcUnpack message with
    | error ret =>
      refine ⟨s, ?_, h⟩
      rw [Outcomes.step, jrpcProcess, hunpack]
      simp [newOutcomes, hunpack]
    | ok obj =>
      cases obj with
      | request method id params =>
        refine ⟨s, ?_, h⟩
        rw [Outcomes.step, jrpcProcess, hunpack]
        simp [newOutcomes, hunpack]
      | errorResponse id code text data =>
        refine ⟨s, ?_, h⟩
        rw [Outcomes.step, jrpcProcess, hunpack]
        simp [newOutcomes, hunpack, hok id code text data hunpack]
      | resultResponse id result => exact h.result hunpack

/-! ## Every run -/

/-- **Every call has one outcome**, in every state of a run that answers no
call with an error. -/
theorem oneOutcome_run (mapper : Option JrpcMapper) (errorHandler : Bool)
    {labels : List (Label β)}
    (hok : Transition.AllSteps step Answerable (start mapper errorHandler) labels) :
    ∀ past post, labels = past ++ post →
      ∃ s, Transition.run step (start mapper errorHandler) past = some s ∧ OneOutcome s := by
  intro past post heq
  rw [heq] at hok
  obtain ⟨s, hrun, hinv⟩ := Transition.run_of_allSteps (P := Inv)
    (fun _ _ h hok => h.step hok) past _ (start_inv mapper errorHandler)
    (Transition.AllSteps.of_append past post _ hok)
  exact ⟨s, hrun, hinv.oneOutcome⟩

/-- A call that is answered with a result. -/
theorem oneOutcome_answered :
    ∃ s : State Unit, Transition.run step (start none true)
        [.call ['m'] none (), .receive (resultObj .null 1)] = some s ∧ OneOutcome s := by
  refine oneOutcome_run none true ?_ _ [] (List.append_nil _).symm
  refine ⟨?_, fun s _ => ⟨?_, fun _ _ => trivial⟩⟩
  · show 1 + 1 < 2 ^ 64
    omega
  · intro id code text data hunpack
    cases hunpack

/-- The error leaves the call pending, and the result that comes after it
is its second outcome. -/
theorem error_then_result_two_outcomes :
    ∃ s : State Unit, Transition.run step (start none true)
        [.call ['m'] none (), .receive (makeErrorObj (-30001) [] none 1),
          .receive (resultObj .null 1)] = some s ∧
      s.called = [1] ∧ s.outcomes = [1, 1] ∧ ¬ OneOutcome s := by
  refine ⟨_, rfl, rfl, rfl, ?_⟩
  intro h
  have hcount : [1, 1].count 1 ≤ 1 := h.atMostOne 1 (List.mem_singleton.mpr rfl)
  exact absurd hcount (by decide)

end Armadito.Jrpc.Outcomes
