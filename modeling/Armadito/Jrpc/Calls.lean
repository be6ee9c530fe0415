import Armadito.Jrpc.Dispatch

/-!
# Jrpc.Calls

Every step of the two connections keeps the invariant, so every run
dispatches the results to the callbacks as it should.
-/

namespace Armadito.Jrpc

variable {β : Type} {s : DispatchState β}

/-! ## Calls -/

/-- Nothing has been invoked for an id that is still to be given out. -/
theorem DispatchState.Inv.invocations_eq_nil (h : s.Inv) {id : Nat}
    (hid : s.client.currentId ≤ id) : invocations id s.log = [] := by
  rw [List.eq_nil_iff_forall_not_mem]
  rintro ⟨cb, r⟩ hmem
  obtain ⟨origin, result, ret, invoked, hprocessed, hcb⟩ := mem_invocations.mp hmem
  obtain ⟨-, -, hcalled, -⟩ := h.explained.invoked hprocessed hcb
  have := (h.ids hcalled).2
  omega

theorem pending_concat_called {log : List (Event β)} {i id : Nat} {c cb : β} :
    Pending (log ++ [.called i c]) id cb ↔
      Pending log id cb ∨ (id = i ∧ cb = c ∧ invocations id log = []) := by
  have hinv : invocations id [(.called i c : Event β)] = [] := rfl
  unfold Pending
  rw [invocations_append, hinv, List.append_nil, List.mem_append, List.mem_singleton,
    Event.called.injEq]
  tauto

/-- Events other than a call or an invocation change nothing that is
pending. -/
theorem pending_concat_served {log : List (Event β)} {i id : Nat} {result : Json} {cb : β} :
    Pending (log ++ [.served i result]) id cb ↔ Pending log id cb := by
  have hinv : invocations id [(.served i result : Event β)] = [] := rfl
  unfold Pending
  rw [invocations_append, hinv, List.append_nil, List.mem_append, List.mem_singleton]
  simp

theorem inv_call (h : s.Inv) (hmax : s.client.currentId < 2 ^ 31) (method : CString)
    (params : Option Json) (cb : β) :
    ∃ s', step s (.call method params (some cb)) = some s' ∧ s'.Inv ∧
      s'.client.currentId = s.client.currentId + 1 := by
  have hpositive := h.positive
  have hnil := h.invocations_eq_nil (Nat.le_refl _)
  -- what is pending was called, and the next id was not given out yet
  have hnew : hashTableSearch s.client.responseTable s.client.currentId = none := by
    rw [Option.eq_none_iff_forall_ne_some]
    intro c hc
    have := (h.ids (h.pending.mp hc).1).2
    omega
  obtain ⟨table, hcall, htable, hsearch⟩ :=
    jrpcCall_some h.table (by omega) (by omega) hnew method params cb
  have hstep : step s (.call method params (some cb)) = some
      { client := { s.client with
          currentId := s.client.currentId + 1
          responseTable := table }
        toServer := s.toServer ++
          [(s.client.currentId, makeCallObj method params s.client.currentId)]
        toClient := s.toClient
        log := s.log ++ [.called s.client.currentId cb] } := by
    rw [step, hcall]
    rfl
  refine ⟨_, hstep, ⟨htable, ?_, ?_, ?_, ?_, ?_, ?_, ?_, ?_⟩, rfl⟩
  · show 1 ≤ s.client.currentId + 1
    omega
  · show s.client.currentId + 1 ≤ 2 ^ 31
    omega
  · intro id c hmem
    show 1 ≤ id ∧ id < s.client.currentId + 1
    rcases List.mem_append.mp hmem with hmem | hmem
    · have := h.ids hmem
      omega
    · cases List.mem_singleton.mp hmem
      exact ⟨hpositive, Nat.lt_succ_self _⟩
  · intro id c
    show hashTableSearch table id = some c ↔ _
    rw [hsearch, Function.update_apply, pending_concat_called]
    by_cases hid : id = s.client.currentId
    · subst hid
      rw [if_pos rfl, ← h.pending, hnew, Option.some.injEq]
      simp [hnil, eq_comm]
    · rw [if_neg hid, h.pending]
      simp [hid]
  · intro p hp
    rcases List.mem_append.mp hp with hp | hp
    · exact (h.toServer p hp).append _
    · rw [List.mem_singleton.mp hp]
      exact ⟨method, params, rfl, .inr ⟨cb, by simp⟩⟩
  · intro p hp
    exact (h.toClient p hp).append _
  · intro id hid
    have hserved := h.served id hid
    have hresults : results id [(.called s.client.currentId cb : Event β)] = [] := rfl
    show _ ≤ if id < s.client.currentId + 1 then 1 else 0
    rw [List.countP_append, results_append, hresults, List.append_nil, List.countP_singleton]
    by_cases heq : s.client.currentId = id
    · rw [if_neg (by omega)] at hserved
      rw [if_pos (by simpa using heq), if_pos (by omega)]
      omega
    · rw [if_neg (by simpa using heq)]
      split at hserved <;> split <;> omega
  · apply h.explained.concat
    intro origin id result ret invoked heq
    cases heq

theorem inv_notify (h : s.Inv) (method : CString) (params : Option Json) :
    ∃ s', step s (.call method params none) = some s' ∧ s'.Inv ∧
      s'.client.currentId = s.client.currentId := by
  have hstep : step s (.call method params none) = some
      { s with toServer := s.toServer ++ [(0, makeCallObj method params 0)] } := by
    show some { s with toServer := _, log := s.log ++ [] } = _
    rw [List.append_nil]
    rfl
  refine ⟨_, hstep, ⟨h.table, h.positive, h.bound, h.ids, h.pending, ?_, h.toClient, ?_,
    h.explained⟩, rfl⟩
  · intro p hp
    rcases List.mem_append.mp hp with hp | hp
    · exact h.toServer p hp
    · rw [List.mem_singleton.mp hp]
      exact ⟨method, params, rfl, .inl rfl⟩
  · intro id hid
    have hserved := h.served id hid
    rw [List.countP_append, List.countP_singleton, if_neg (by simpa using (by omega : 0 ≠ id))]
    exact hserved

/-! ## Serving -/

theorem servingConnection_find (methods : CString → Option (Option Json → Json))
    (method : CString) :
    ((servingConnection methods : JrpcConnection β).mapper.bind fun mapper => mapper.find method) =
      (methods method).map fun f params => (0, some (f params)) := rfl

theorem servedEvents_makeCallObj {id : Nat} (hid : id < 2 ^ 31) (method : CString)
    (params : Option Json) (methods : CString → Option (Option Json → Json)) :
    (servedEvents id methods (makeCallObj method params id) : List (Event β)) =
      match methods method with
      | some f => [.served id (f params)]
      | none => [] := by
  have hunpack := jsonRpcUnpack_makeCallObj method params id
  rw [Nat.mod_eq_of_lt (by omega)] at hunpack
  cases hmethod : methods method <;> simp [servedEvents, hunpack, hmethod]

/-- What serving a request does: the method is not found, or its result is
sent back unless the request was a notification. -/
theorem serve_cases {id : Nat} (hid : id < 2 ^ 31) (method : CString) (params : Option Json)
    (methods : CString → Option (Option Json → Json)) {effects : List (Effect β)}
    (heffects : (jrpcProcess (servingConnection methods)
      (makeCallObj method params id)).2.2 = effects) :
    (∃ code text, sentMessages effects = [makeErrorObj code text none id] ∧
        (servedEvents id methods (makeCallObj method params id) : List (Event β)) = []) ∨
      ∃ result, sentMessages effects = (if id ≠ 0 then [resultObj result id] else []) ∧
        (servedEvents id methods (makeCallObj method params id) : List (Event β)) =
          [.served id result] := by
  have hcast : castInt 64 id = id := by
    apply Int.bmod_eq_of_le
    · omega
    · omega
  have hfind := @servingConnection_find β methods method
  rw [jrpcProcess_makeCallObj _ _ _ (by omega)] at heffects
  rw [servedEvents_makeCallObj hid]
  cases hmethod : methods method with
  | none =>
    rw [hmethod, Option.map_none] at hfind
    obtain ⟨text, hsent⟩ := connectionProcessRequest_none hfind id params
    rw [← heffects, hsent]
    exact .inl ⟨_, text, rfl, rfl⟩
  | some f =>
    rw [hmethod, Option.map_some] at hfind
    have hsent : (connectionProcessRequest (servingConnection methods) method id params).2 =
        if id ≠ 0 then [.send (resultObj (f params) (castInt 64 id))] else [] :=
      connectionProcessRequest_some hfind rfl id
    rw [hcast] at hsent
    rw [← heffects, hsent]
    refine .inr ⟨f params, ?_, rfl⟩
    by_cases hzero : id = 0
    · rw [if_neg (not_not.mpr hzero), if_neg (not_not.mpr hzero)]
      rfl
    · rw [if_pos hzero, if_pos hzero]
      rfl

theorem length_results_served (log : List (Event β)) (call id : Nat) (result : Json) :
    (results id (log ++ [.served call result])).length =
      (results id log).length + if call = id then 1 else 0 := by
  rw [results_append, List.length_append]
  by_cases heq : call = id
  · simp [results, Event.results, heq]
  · simp [results, Event.results, heq]

section Queue

variable {call : Nat} {message : Json} {toServer : List (Nat × Json)}

/-- A request that leaves the queue may be served once more. -/
theorem DispatchState.Inv.served_tail (h : s.Inv)
    (hqueue : s.toServer = (call, message) :: toServer) {id : Nat} (hid : 1 ≤ id) :
    toServer.countP (fun p => p.1 = id) + (results id s.log).length +
        (if call = id then 1 else 0) ≤
      if id < s.client.currentId then 1 else 0 := by
  have hserved := h.served id hid
  rw [hqueue, List.countP_cons] at hserved
  simp only [decide_eq_true_eq] at hserved
  omega

/-- A method that is not found: an error is sent back. -/
theorem inv_served_error (h : s.Inv) (hqueue : s.toServer = (call, message) :: toServer)
    (code : Int) (text : CString) :
    ({ s with
      toServer
      toClient := s.toClient ++ [(.answer call, makeErrorObj code text none call)] } :
        DispatchState β).Inv := by
  refine ⟨h.table, h.positive, h.bound, h.ids, h.pending, ?_, ?_, ?_, h.explained⟩
  · intro p hp
    exact h.toServer p (by rw [hqueue]; exact List.mem_cons_of_mem _ hp)
  · intro p hp
    rcases List.mem_append.mp hp with hp | hp
    · exact h.toClient p hp
    · rw [List.mem_singleton.mp hp]
      exact .error call code text
  · intro id hid
    have htail := h.served_tail hqueue hid
    show toServer.countP (fun p => p.1 = id) + (results id s.log).length ≤
      if id < s.client.currentId then 1 else 0
    omega

/-- A method that is called: its result is sent back, unless the request was
a notification. -/
theorem inv_served_result (h : s.Inv) (hqueue : s.toServer = (call, message) :: toServer)
    (hcall : call = 0 ∨ ∃ cb, .called call cb ∈ s.log) (result : Json) :
    ({ s with
      toServer
      toClient := s.toClient ++
        (if call ≠ 0 then [resultObj result call] else []).map fun m => (.answer call, m)
      log := s.log ++ [.served call result] } : DispatchState β).Inv := by
  refine ⟨h.table, h.positive, h.bound, ?_, ?_, ?_, ?_, ?_, ?_⟩
  · intro id cb hmem
    rcases List.mem_append.mp hmem with hmem | hmem
    · exact h.ids hmem
    · cases List.mem_singleton.mp hmem
  · intro id cb
    rw [pending_concat_served]
    exact h.pending
  · intro p hp
    exact (h.toServer p (by rw [hqueue]; exact List.mem_cons_of_mem _ hp)).append _
  · intro p hp
    rcases List.mem_append.mp hp with hp | hp
    · exact (h.toClient p hp).append _
    · split at hp
      · next hzero =>
        rw [List.map_singleton, List.mem_singleton] at hp
        obtain ⟨cb, hcb⟩ := hcall.resolve_left hzero
        rw [hp]
        exact .answer (List.mem_append_right _ (List.mem_singleton.mpr rfl))
          (List.mem_append_left _ hcb)
      · cases hp
  · intro id hid
    have htail := h.served_tail hqueue hid
    show toServer.countP (fun p => p.1 = id) +
      (results id (s.log ++ [.served call result])).length ≤
        if id < s.client.currentId then 1 else 0
    rw [length_results_served]
    omega
  · apply h.explained.concat
    intro origin id r ret invoked heq
    cases heq

end Queue

theorem inv_serve (h : s.Inv) {methods : CString → Option (Option Json → Json)}
    {s' : DispatchState β} (hs' : step s (.serve methods) = some s') :
    s'.Inv ∧ s'.client = s.client := by
  cases hqueue : s.toServer with
  | nil =>
    rw [step, hqueue] at hs'
    cases hs'
  | cons request toServer =>
    obtain ⟨call, message⟩ := request
    obtain ⟨method, params, hmessage, hcall⟩ := h.toServer (call, message) (by rw [hqueue]; simp)
    dsimp only at hmessage hcall
    subst hmessage
    -- ids on the way are small enough for the unsigned int of a request
    have hlt : call < 2 ^ 31 := by
      have hbound := h.bound
      rcases hcall with hzero | ⟨cb, hcb⟩
      · omega
      · have := (h.ids hcb).2
        omega
    generalize heffects : (jrpcProcess (servingConnection methods : JrpcConnection β)
      (makeCallObj method params call)).2.2 = effects
    have hstep : step s (.serve methods) = some
        { s with
          toServer
          toClient := s.toClient ++ (sentMessages effects).map fun m => (.answer call, m)
          log := s.log ++ servedEvents call methods (makeCallObj method params call) } := by
      rw [step, hqueue, ← heffects]
    rw [hstep] at hs'
    cases hs'
    refine ⟨?_, rfl⟩
    rcases serve_cases hlt method params methods heffects with
      ⟨code, text, hsent, hlog⟩ | ⟨result, hsent, hlog⟩
    · rw [hsent, hlog, List.append_nil]
      exact inv_served_error h hqueue code text
    · rw [hsent, hlog]
      exact inv_served_result h hqueue hcall result

/-! ## Extra messages -/

theorem inv_inject (h : s.Inv) (result : Json) (id : Int) :
    ∃ s', step s (.inject result id) = some s' ∧ s'.Inv ∧ s'.client = s.client := by
  refine ⟨_, rfl, ⟨h.table, h.positive, h.bound, h.ids, h.pending, h.toServer, ?_, h.served,
    h.explained⟩, rfl⟩
  intro p hp
  rcases List.mem_append.mp hp with hp | hp
  · exact h.toClient p hp
  · rw [List.mem_singleton.mp hp]
    exact .extra result id

/-! ## Processing -/

theorem pending_concat_processed {log : List (Event β)} {origin : Origin} {i id : Nat}
    {result : Json} {ret : Int} {invoked : List (β × Json)} {cb : β} :
    Pending (log ++ [.processed origin i result ret invoked]) id cb ↔
      Pending log id cb ∧ (i = id → invoked = []) := by
  have hinv : invocations id [.processed origin i result ret invoked] =
      if i = id then invoked else [] := by
    simp [invocations, Event.invocations]
  unfold Pending
  rw [invocations_append, hinv, List.append_eq_nil_iff, List.mem_append, List.mem_singleton,
    ite_eq_right_iff]
  simp only [reduceCtorEq, or_false]
  tauto

theorem processedEvents_resultObj (origin : Origin) (result : Json) (id : Int) (ret : Int)
    (effects : List (Effect β)) :
    processedEvents origin (resultObj result id) ret effects =
      [.processed origin (id % 2 ^ 64).toNat result ret (invokedCallbacks effects)] := by
  rw [processedEvents, jsonRpcUnpack_resultObj]

/-- A result message has left the queue and was processed; the table is the
one that it leaves. -/
theorem inv_processed (h : s.Inv) {origin : Origin} {message : Json}
    {toClient : List (Origin × Json)} (hqueue : s.toClient = (origin, message) :: toClient)
    {i : Nat} {result : Json} {ret : Int} {invoked : List (β × Json)} {table : HashTable β}
    (htable : table.Inv)
    (hpending : ∀ {k cb}, hashTableSearch table k = some cb ↔
      Pending s.log k cb ∧ (i = k → invoked = []))
    (hwell : ProcessedWell s.log origin i result ret invoked) :
    ({ s with
      client := { s.client with responseTable := table }
      toClient
      log := s.log ++ [.processed origin i result ret invoked] } : DispatchState β).Inv := by
  refine ⟨htable, h.positive, h.bound, ?_, ?_, ?_, ?_, ?_, ?_⟩
  · intro k cb hmem
    rcases List.mem_append.mp hmem with hmem | hmem
    · exact h.ids hmem
    · cases List.mem_singleton.mp hmem
  · intro k cb
    rw [pending_concat_processed]
    exact hpending
  · intro p hp
    exact (h.toServer p hp).append _
  · intro p hp
    exact (h.toClient p (by rw [hqueue]; exact List.mem_cons_of_mem _ hp)).append _
  · intro k hk
    have hnone : results k [(.processed origin i result ret invoked : Event β)] = [] := rfl
    rw [results_append, hnone, List.append_nil]
    exact h.served k hk
  · apply h.explained.concat
    intro origin' id' result' ret' invoked' heq
    cases heq
    exact hwell

/-- Processing a result message, whether an answer or an extra one: only a
pending callback is invoked. -/
theorem deliver_result (h : s.Inv) {origin : Origin} {result : Json} {id : Int}
    {toClient : List (Origin × Json)}
    (hqueue : s.toClient = (origin, resultObj result id) :: toClient)
    (horigin : ∀ call, origin = .answer call →
      (id % 2 ^ 64).toNat = call ∧ .served call result ∈ s.log ∧ ∃ cb, .called call cb ∈ s.log) :
    ∃ s', step s .deliver = some s' ∧ s'.Inv ∧ s'.client.currentId = s.client.currentId := by
  cases hsearch : hashTableSearch s.client.responseTable (id % 2 ^ 64).toNat with
  | none =>
    have hprocess := (jrpcProcess_resultObj s.client result id).trans
      (connectionProcessResult_none result hsearch)
    have hstep : step s .deliver = some
        { s with
          toClient
          log := s.log ++
            [.processed origin (id % 2 ^ 64).toNat result jrpcErrInvalidResponseId []] } := by
      rw [step, hqueue]
      simp only [hprocess, processedEvents_resultObj]
      simp [sentMessages, invokedCallbacks]
    have hwell : ProcessedWell s.log origin (id % 2 ^ 64).toNat result
        jrpcErrInvalidResponseId [] := by
      refine ⟨fun cb hcb => ?_, fun _ => ⟨rfl, rfl⟩, horigin⟩
      rw [h.pending.mpr hcb] at hsearch
      cases hsearch
    have hinv := inv_processed h hqueue h.table
      ⟨fun hk => ⟨h.pending.mp hk, fun _ => rfl⟩, fun hk => h.pending.mpr hk.1⟩ hwell
    exact ⟨_, hstep, hinv, rfl⟩
  | some cb =>
    obtain ⟨table, hresult, htable, hupdate⟩ :=
      connectionProcessResult_some h.table result hsearch
    have hprocess := (jrpcProcess_resultObj s.client result id).trans hresult
    have hstep : step s .deliver = some
        { s with
          client := { s.client with responseTable := table }
          toClient
          log := s.log ++
            [.processed origin (id % 2 ^ 64).toNat result jrpcOk [(cb, result)]] } := by
      rw [step, hqueue]
      simp only [hprocess, processedEvents_resultObj]
      simp [sentMessages, invokedCallbacks]
    have hpending : ∀ {k c}, hashTableSearch table k = some c ↔
        Pending s.log k c ∧ ((id % 2 ^ 64).toNat = k → [(cb, result)] = []) := by
      intro k c
      rw [hupdate, Function.update_apply]
      by_cases hk : k = (id % 2 ^ 64).toNat
      · simp [hk]
      · rw [if_neg hk, h.pending]
        exact ⟨fun hp => ⟨hp, fun heq => absurd heq.symm hk⟩, And.left⟩
    have hwell : ProcessedWell s.log origin (id % 2 ^ 64).toNat result jrpcOk
        [(cb, result)] := by
      refine ⟨?_, fun hno => absurd (h.pending.mp hsearch) (hno cb), horigin⟩
      intro c hc
      rw [h.pending.mpr hc] at hsearch
      cases hsearch
      exact ⟨rfl, rfl⟩
    exact ⟨_, hstep, inv_processed h hqueue htable hpending hwell, rfl⟩

/-- Processing an error message leaves the callbacks alone. -/
theorem deliver_error (h : s.Inv) {origin : Origin} {code : Int} {text : CString} {call : Nat}
    {toClient : List (Origin × Json)}
    (hqueue : s.toClient = (origin, makeErrorObj code text none call) :: toClient) :
    ∃ s', step s .deliver = some s' ∧ s'.Inv ∧ s'.client.currentId = s.client.currentId := by
  have hunpack := jsonRpcUnpack_makeErrorObj code text none call
  have hevents : ∀ ret (effects : List (Effect β)), processedEvents origin
      (makeErrorObj code text none call) ret effects = [] := by
    intro ret effects
    rw [processedEvents, hunpack]
  have hsent : sentMessages
      (connectionProcessError s.client (call % 2 ^ 64) (castInt 32 code) text none).2 = [] := by
    rw [connectionProcessError]
    cases s.client.errorHandler <;> rfl
  have hstep : step s .deliver = some { s with toClient } := by
    rw [step, hqueue]
    simp only [hevents, List.append_nil]
    simp only [jrpcProcess, hunpack, hsent, List.map_nil, List.append_nil]
  refine ⟨_, hstep, ⟨h.table, h.positive, h.bound, h.ids, h.pending, h.toServer, ?_, h.served,
    h.explained⟩, rfl⟩
  intro p hp
  exact h.toClient p (by rw [hqueue]; exact List.mem_cons_of_mem _ hp)

theorem inv_deliver (h : s.Inv) {s' : DispatchState β} (hs' : step s .deliver = some s') :
    s'.Inv ∧ s'.client.currentId = s.client.currentId := by
  cases hqueue : s.toClient with
  | nil =>
    rw [step, hqueue] at hs'
    cases hs'
  | cons p toClient =>
    have hp := h.toClient p (by rw [hqueue]; simp)
    -- by what the message is: an extra result, an answer, or an error
    have hsome : ∃ t, step s .deliver = some t ∧ t.Inv ∧
        t.client.currentId = s.client.currentId := by
      cases hp with
      | extra result id =>
        apply deliver_result h hqueue
        intro call heq
        cases heq
      | @answer call result cb hserved hcalled =>
        apply deliver_result h hqueue
        intro call' heq
        cases heq
        have hbound := h.bound
        have hlt := (h.ids hcalled).2
        exact ⟨by omega, hserved, cb, hcalled⟩
      | error call code text => exact deliver_error h hqueue
    obtain ⟨t, ht, hinv, hid⟩ := hsome
    rw [hs'] at ht
    cases ht
    exact ⟨hinv, hid⟩

/-! ## Runs -/

/-- One step, when there are ids left for it. -/
theorem step_inv (h : s.Inv) {label : Label β}
    (hmax : label.isCall = true → s.client.currentId < 2 ^ 31) {s' : DispatchState β}
    (hs' : step s label = some s') :
    s'.Inv ∧ s'.client.currentId = s.client.currentId + if label.isCall then 1 else 0 := by
  cases label with
  | call method params cb =>
    cases cb with
    | some cb =>
      obtain ⟨t, ht, hinv, hid⟩ := inv_call h (hmax rfl) method params cb
      rw [hs'] at ht
      cases ht
      exact ⟨hinv, hid⟩
    | none =>
      obtain ⟨t, ht, hinv, hid⟩ := inv_notify h method params
      rw [hs'] at ht
      cases ht
      exact ⟨hinv, hid⟩
  | serve methods =>
    obtain ⟨hinv, hclient⟩ := inv_serve h hs'
    exact ⟨hinv, by rw [hclient]; rfl⟩
  | inject result id =>
    obtain ⟨t, ht, hinv, hclient⟩ := inv_inject h result id
    rw [hs'] at ht
    cases ht
    exact ⟨hinv, by rw [hclient]; rfl⟩
  | deliver => exact inv_deliver h hs'

/-- The invariant of a run with fewer than 2^31 calls. -/
theorem run_inv {labels : List (Label β)} {s : DispatchState β}
    (hrun : Transition.run step DispatchState.initial labels = some s)
    (hcalls : labels.countP Label.isCall < 2 ^ 31) :
    s.Inv ∧ s.client.currentId = labels.countP Label.isCall + 1 := by
  have hhistory := Transition.run_history
    (P := fun past s => past.countP Label.isCall < 2 ^ 31 →
      s.Inv ∧ s.client.currentId = past.countP Label.isCall + 1)
    (by
      intro past s label s' ih hs' hlt
      rw [List.countP_append, List.countP_singleton] at hlt ⊢
      obtain ⟨hinv, hid⟩ := ih (by omega)
      have hmax : label.isCall = true → s.client.currentId < 2 ^ 31 := by
        intro hcall
        rw [if_pos hcall] at hlt
        omega
      obtain ⟨hinv', hid'⟩ := step_inv hinv hmax hs'
      exact ⟨hinv', by omega⟩)
    labels [] DispatchState.initial s (fun _ => ⟨initial_inv, rfl⟩) hrun
  exact hhistory hcalls

/-- The assertion of the table never fails: a further call can be made. -/
theorem call_enabled {labels : List (Label β)} {s : DispatchState β}
    (hrun : Transition.run step DispatchState.initial labels = some s)
    (hcalls : labels.countP Label.isCall + 1 < 2 ^ 31) (method : CString)
    (params : Option Json) (cb : Option β) :
    ∃ s', step s (.call method params cb) = some s' := by
  obtain ⟨hinv, hid⟩ := run_inv hrun (by omega)
  cases cb with
  | none =>
    obtain ⟨s', hs', -⟩ := inv_notify hinv method params
    exact ⟨s', hs'⟩
  | some cb =>
    obtain ⟨s', hs', -⟩ := inv_call hinv (by omega) method params cb
    exact ⟨s', hs'⟩

/-- **Results are dispatched to the callbacks of their calls**, in every
interleaving, whatever extra messages there are. -/
theorem calls_dispatched {labels : List (Label β)} {s : DispatchState β}
    (hrun : Transition.run step DispatchState.initial labels = some s)
    (hcalls : labels.countP Label.isCall < 2 ^ 31) : Dispatched s.log := by
  obtain ⟨hinv, -⟩ := run_inv hrun hcalls
  apply hinv.explained.dispatched
  intro id cb hcalled
  have hid := hinv.ids hcalled
  have hserved := hinv.served id hid.1
  rw [if_pos hid.2] at hserved
  omega

/-- Two calls that wait at the same time, a notification, and an extra
message with an id that has been used by then. -/
def echoRun : List (Label Nat) :=
  let methods : CString → Option (Option Json → Json) :=
    fun method => if method = ['e'] then some fun params => params.getD .null else none
  [.call ['e'] (some (.integer 5)) (some 10), .call ['e'] none none,
    .call ['e'] (some (.integer 6)) (some 20), .serve methods, .serve methods,
    .serve methods, .inject (.integer 7) 1, .deliver, .deliver, .deliver]

theorem calls_dispatched_echoRun :
    ∃ s, Transition.run step DispatchState.initial echoRun = some s ∧
      s.log.length = 8 ∧ Dispatched s.log :=
  ⟨_, rfl, rfl, calls_dispatched
    (rfl : Transition.run step DispatchState.initial echoRun = some _) (by decide)⟩

/-! ## Forged results -/

/-- A callback gets only what the method produced for its call. -/
def OnlyOwnResults (log : List (Event β)) : Prop :=
  ∀ id cb r, (cb, r) ∈ invocations id log → .served id r ∈ log

/-- Somebody else is faster than the serving side. -/
def forgedRun : List (Label Unit) :=
  [.call ['m'] none (some ()), .inject (.integer 7) 1, .deliver]

/-- An id is all that a result message needs. -/
theorem forgedRun_not_onlyOwnResults :
    ∃ s, Transition.run step DispatchState.initial forgedRun = some s ∧
      forgedRun.countP Label.isCall < 2 ^ 31 ∧ ¬ OnlyOwnResults s.log := by
  refine ⟨_, rfl, by decide, ?_⟩
  intro h
  have hserved := mem_results.mpr (h 1 () (.integer 7) (List.mem_singleton.mpr rfl))
  cases hserved

end Armadito.Jrpc
