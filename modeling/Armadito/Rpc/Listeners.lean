import Armadito.Lib.Run
import Armadito.Rpc.ScanRequest

/-!
# Rpc.Listeners

The life of the event callbacks. A `scan` request registers a callback that
points to its connection and to its scan object, a `listen` request one
that points to its connection. Nothing ever takes a callback off the list:
`a6o_event_source_remove_cb` has no caller. So a callback outlives what it
points to, and the events that are safe to fire can be told from what
happened before.
-/

namespace Armadito.Rpc

open Armadito.Core Armadito.Jrpc

/-! ## The daemon as a transition system -/

/-- `allocated` holds the addresses given out so far. -/
structure State where
  daemon : Daemon
  allocated : List Nat

/-- What clients, scans and the daemon do next. -/
inductive Label where
  | connect (conn : Nat)
  | scanRequest (conn addr : Nat) (params : Option Json)
  | listenRequest (conn : Nat) (params : Option Json)
  | scanFinished (addr : Nat)
  | disconnect (conn : Nat)
  | fire (ev : A6oEvent)

/-- No client is connected. -/
def start : State :=
  { daemon := { conns := [], onDemands := [], callbacks := [], threads := [] }, allocated := [] }

/-- The object is there while its thread runs; `a6o_on_demand_free` ends
both. -/
def scanThreadEnd (d : Daemon) (addr : Nat) : Daemon :=
  { d with
    onDemands := d.onDemands.filter fun p => p.1 ≠ addr
    threads := d.threads.erase (some addr) }

/-- The end of `client_thread`. -/
def clientThreadEnd (d : Daemon) (conn : Nat) : Daemon :=
  { d with conns := d.conns.filter fun c => c ≠ conn }

/-- A request that makes the daemon crash has no successor. Firing an event
changes nothing in the daemon, whatever its callbacks run into. -/
def step (realpath : Option (CString → Option CString)) (s : State) : Label → Option State
  | .connect conn =>
    if conn ∉ s.allocated then
      some { daemon := { s.daemon with conns := conn :: s.daemon.conns }
             allocated := conn :: s.allocated }
    else none
  | .scanRequest conn addr params =>
    if conn ∈ s.daemon.conns ∧ addr ∉ s.allocated then
      match scanMethod realpath s.daemon conn addr params with
      | .ok (_, daemon) => some { daemon, allocated := addr :: s.allocated }
      | .error _ => none
    else none
  | .listenRequest conn params =>
    if conn ∈ s.daemon.conns then
      match listenMethod s.daemon conn params with
      | .ok (_, daemon) => some { s with daemon }
      | .error _ => none
    else none
  | .scanFinished addr =>
    if some addr ∈ s.daemon.threads then
      some { s with daemon := scanThreadEnd s.daemon addr }
    else none
  | .disconnect conn =>
    if conn ∈ s.daemon.conns then
      some { s with daemon := clientThreadEnd s.daemon conn }
    else none
  | .fire _ => some s

/-- What the callback points to is still there. -/
def CallbackLive (d : Daemon) : EventCb → Prop
  | .scanEventCb conn onDemand =>
    conn ∈ d.conns ∧ ∃ addr, onDemand = some addr ∧ addr ∈ d.onDemands.map Prod.fst
  | .listenEventCb conn => conn ∈ d.conns

/-- A live callback reads no freed and no NULL pointer. -/
theorem runCallback_of_live {d : Daemon} {cb : EventCb} (h : CallbackLive d cb)
    (ev : A6oEvent) (marshalled : Bool) : ∃ sent, runCallback d ev marshalled cb = .ok sent := by
  have hnotify : ∀ conn, conn ∈ d.conns → jrpcNotify d conn ev = .ok (some ⟨conn, ev⟩) := by
    intro conn hconn
    rw [jrpcNotify, derefConn, if_pos hconn]
    rfl
  cases cb with
  | scanEventCb conn onDemand =>
    obtain ⟨hconn, addr, rfl, haddr⟩ := h
    obtain ⟨scan, hscan⟩ : ∃ scan, d.onDemands.lookup addr = some scan := by
      cases hlookup : d.onDemands.lookup addr with
      | some scan => exact ⟨scan, rfl⟩
      | none =>
        obtain ⟨p, hp, rfl⟩ := List.mem_map.mp haddr
        have := List.lookup_eq_none_iff.mp hlookup p hp
        simp at this
    simp only [runCallback, scanEventCb, derefOnDemand, hscan, bind, Except.bind]
    split
    · exact ⟨none, rfl⟩
    · split
      · exact ⟨none, rfl⟩
      · exact ⟨_, hnotify conn hconn⟩
  | listenEventCb conn =>
    rw [runCallback, listenEventCb]
    split
    · exact ⟨none, rfl⟩
    · exact ⟨_, hnotify conn h⟩

/-! ## What a step does -/

/-- The fields of a request, in the order they are read. -/
structure ListenParams (params : Option Json) (l : A6oRpcListenParam) : Prop where
  detection : structFieldInt 32 params "detection" = .ok l.detection
  onDemand : structFieldInt 32 params "on_demand" = .ok l.onDemand
  onDemandProgress :
    structFieldInt 32 params "on_demand_progress" = .ok l.onDemandProgress
  quarantine : structFieldInt 32 params "quarantine" = .ok l.quarantine
  realTimeProt : structFieldInt 32 params "real_time_prot" = .ok l.realTimeProt
  avUpdate : structFieldInt 32 params "av_update" = .ok l.avUpdate

theorem unmarshallListenParam_eq_ok {params : Option Json} {l : A6oRpcListenParam} :
    unmarshallListenParam params = .ok l ↔ ListenParams params l := by
  simp only [unmarshallListenParam, bind_eq_ok]
  constructor
  · rintro ⟨_, h1, _, h2, _, h3, _, h4, _, h5, _, h6, heq⟩
    cases heq
    exact ⟨h1, h2, h3, h4, h5, h6⟩
  · rintro ⟨h1, h2, h3, h4, h5, h6⟩
    exact ⟨_, h1, _, h2, _, h3, _, h4, _, h5, _, h6, rfl⟩

theorem listenMethod_cases {d : Daemon} {conn : Nat} {params : Option Json} {ret : Int}
    {d' : Daemon} (h : listenMethod d conn params = .ok (ret, d')) :
    ((∀ l, ¬ ListenParams params l) ∧ d' = d) ∨
      ∃ l, ListenParams params l ∧ d' = startListen d conn l := by
  unfold listenMethod jrpcUnmarshallStructPtr at h
  by_cases hnull : jsonIsNull params = true
  · rw [if_pos hnull] at h
    cases h
  · rw [if_neg hnull] at h
    cases hdecode : unmarshallListenParam params with
    | error code =>
      rw [hdecode] at h
      cases h
      refine .inl ⟨fun l hl => ?_, rfl⟩
      rw [unmarshallListenParam_eq_ok.mpr hl] at hdecode
      cases hdecode
    | ok l =>
      rw [hdecode] at h
      cases h
      exact .inr ⟨l, unmarshallListenParam_eq_ok.mp hdecode, rfl⟩

/-- The steps of the daemon. -/
inductive Stepped (realpath : Option (CString → Option CString)) (s : State) :
    Label → State → Prop where
  | connect {conn : Nat} (hfresh : conn ∉ s.allocated) :
      Stepped realpath s (.connect conn)
        { daemon := { s.daemon with conns := conn :: s.daemon.conns }
          allocated := conn :: s.allocated }
  | scanRefused {conn addr : Nat} {params : Option Json} (hconn : conn ∈ s.daemon.conns)
      (haddr : addr ∉ s.allocated) (hno : ∀ p, ¬ ScanParams params p) :
      Stepped realpath s (.scanRequest conn addr params)
        { s with allocated := addr :: s.allocated }
  | scanStarted {conn addr : Nat} {params : Option Json} {p : A6oRpcScanParam}
      (hconn : conn ∈ s.daemon.conns) (haddr : addr ∉ s.allocated) (hp : ScanParams params p) :
      Stepped realpath s (.scanRequest conn addr params)
        { daemon := startScan realpath s.daemon conn addr p
          allocated := addr :: s.allocated }
  | listenRefused {conn : Nat} {params : Option Json} (hconn : conn ∈ s.daemon.conns)
      (hno : ∀ l, ¬ ListenParams params l) : Stepped realpath s (.listenRequest conn params) s
  | listenStarted {conn : Nat} {params : Option Json} {l : A6oRpcListenParam}
      (hconn : conn ∈ s.daemon.conns) (hl : ListenParams params l) :
      Stepped realpath s (.listenRequest conn params)
        { s with daemon := startListen s.daemon conn l }
  | scanFinished {addr : Nat} (hthread : some addr ∈ s.daemon.threads) :
      Stepped realpath s (.scanFinished addr) { s with daemon := scanThreadEnd s.daemon addr }
  | disconnect {conn : Nat} (hconn : conn ∈ s.daemon.conns) :
      Stepped realpath s (.disconnect conn) { s with daemon := clientThreadEnd s.daemon conn }
  | fire (ev : A6oEvent) : Stepped realpath s (.fire ev) s

theorem step_cases {realpath : Option (CString → Option CString)} {s s' : State}
    {label : Label} (h : step realpath s label = some s') : Stepped realpath s label s' := by
  cases label with
  | connect conn =>
    rw [step] at h
    split at h
    · next hfresh =>
      cases h
      exact .connect hfresh
    · cases h
  | scanRequest conn addr params =>
    rw [step] at h
    split at h
    · next hreq =>
      rcases scanMethod_cases realpath s.daemon conn addr params with
        ⟨-, hret⟩ | ⟨code, -, hno, -, hret⟩ | ⟨p, hp, hret⟩
      · rw [hret] at h
        cases h
      · rw [hret] at h
        cases h
        exact .scanRefused hreq.1 hreq.2 hno
      · rw [hret] at h
        cases h
        exact .scanStarted hreq.1 hreq.2 hp
    · cases h
  | listenRequest conn params =>
    rw [step] at h
    split at h
    · next hconn =>
      split at h
      · next ret daemon hret =>
        cases h
        rcases listenMethod_cases hret with ⟨hno, rfl⟩ | ⟨l, hl, rfl⟩
        · exact .listenRefused hconn hno
        · exact .listenStarted hconn hl
      · cases h
    · cases h
  | scanFinished addr =>
    rw [step] at h
    split at h
    · next hthread =>
      cases h
      exact .scanFinished hthread
    · cases h
  | disconnect conn =>
    rw [step] at h
    split at h
    · next hconn =>
      cases h
      exact .disconnect hconn
    · cases h
  | fire ev =>
    cases h
    exact .fire ev

/-! ## What the past says about the state -/

/-- The state after the steps `past`. -/
structure Inv (realpath : Option (CString → Option CString)) (past : List Label)
    (s : State) : Prop where
  conns : ∀ c, c ∈ s.daemon.conns ↔ .connect c ∈ past ∧ .disconnect c ∉ past
  scans : ∀ a, a ∈ s.daemon.onDemands.map Prod.fst ↔
    (∃ c params p, .scanRequest c a params ∈ past ∧ ScanParams params p ∧
      scanOnDemand realpath p ≠ none) ∧ .scanFinished a ∉ past
  callbacks : ∀ entry, entry ∈ s.daemon.callbacks ↔
    (∃ c a params p, .scanRequest c a params ∈ past ∧ ScanParams params p ∧
      entry = ⟨scanEventMask p, .scanEventCb c ((scanOnDemand realpath p).map fun _ => a)⟩) ∨
    ∃ c params l, .listenRequest c params ∈ past ∧ ListenParams params l ∧
      entry = ⟨listenEventMask l, .listenEventCb c⟩
  requested : ∀ c, (∃ a params, .scanRequest c a params ∈ past) ∨
    (∃ params, .listenRequest c params ∈ past) → .connect c ∈ past
  /-- an address that was not given out yet does not occur -/
  fresh : ∀ a, a ∉ s.allocated → .connect a ∉ past ∧ .disconnect a ∉ past ∧
    .scanFinished a ∉ past ∧ ∀ c params, .scanRequest c a params ∉ past
  threads : ∀ a, some a ∈ s.daemon.threads → a ∈ s.allocated

/-! ## One step -/

variable {realpath : Option (CString → Option CString)} {past : List Label} {s s' : State}

/-- A step that registers nothing and frees nothing. -/
theorem Inv.idle (h : Inv realpath past s) {label : Label}
    (hconnect : ∀ c, label ≠ .connect c) (hdisconnect : ∀ c, label ≠ .disconnect c)
    (hfinish : ∀ a, label ≠ .scanFinished a)
    (hscan : ∀ c a params p, label = .scanRequest c a params → ¬ ScanParams params p)
    (hlisten : ∀ c params l, label = .listenRequest c params → ¬ ListenParams params l)
    (hconn : ∀ c, (∃ a params, label = .scanRequest c a params) ∨
      (∃ params, label = .listenRequest c params) → c ∈ s.daemon.conns)
    {allocated : List Nat} (hsub : ∀ a ∈ s.allocated, a ∈ allocated)
    (hnew : ∀ c a params, label = .scanRequest c a params → a ∈ allocated) :
    Inv realpath (past ++ [label]) { s with allocated } := by
  have hmem : ∀ {l : Label}, l ≠ label → (l ∈ past ++ [label] ↔ l ∈ past) := by
    intro l hne
    simp [hne]
  constructor
  case conns =>
    intro c
    rw [hmem (hconnect c).symm, hmem (hdisconnect c).symm]
    exact h.conns c
  case scans =>
    intro a
    rw [hmem (hfinish a).symm, h.scans a]
    refine and_congr_left fun _ => ?_
    constructor
    · rintro ⟨c, params, p, hpast, hrest⟩
      exact ⟨c, params, p, List.mem_append_left _ hpast, hrest⟩
    · rintro ⟨c, params, p, hpast, hp, hrest⟩
      have hne : Label.scanRequest c a params ≠ label :=
        fun heq => hscan c a params p heq.symm hp
      exact ⟨c, params, p, (hmem hne).mp hpast, hp, hrest⟩
  case callbacks =>
    intro entry
    rw [h.callbacks entry]
    constructor
    · intro hreg
      rcases hreg with ⟨c, a, params, p, hpast, hrest⟩ | ⟨c, params, l, hpast, hrest⟩
      · exact .inl ⟨c, a, params, p, List.mem_append_left _ hpast, hrest⟩
      · exact .inr ⟨c, params, l, List.mem_append_left _ hpast, hrest⟩
    · intro hreg
      rcases hreg with ⟨c, a, params, p, hpast, hp, hrest⟩ | ⟨c, params, l, hpast, hl, hrest⟩
      · have hne : Label.scanRequest c a params ≠ label :=
          fun heq => hscan c a params p heq.symm hp
        exact .inl ⟨c, a, params, p, (hmem hne).mp hpast, hp, hrest⟩
      · have hne : Label.listenRequest c params ≠ label :=
          fun heq => hlisten c params l heq.symm hl
        exact .inr ⟨c, params, l, (hmem hne).mp hpast, hl, hrest⟩
  case requested =>
    intro c hreq
    rw [hmem (hconnect c).symm]
    -- a connection that is there was made once
    by_cases hold : (∃ a params, .scanRequest c a params ∈ past) ∨
        (∃ params, .listenRequest c params ∈ past)
    · exact h.requested c hold
    · refine ((h.conns c).mp (hconn c ?_)).1
      rcases hreq with ⟨a, params, hreq⟩ | ⟨params, hreq⟩
      · rcases List.mem_append.mp hreq with hreq | hreq
        · exact absurd (.inl ⟨a, params, hreq⟩) hold
        · exact .inl ⟨a, params, (List.mem_singleton.mp hreq).symm⟩
      · rcases List.mem_append.mp hreq with hreq | hreq
        · exact absurd (.inr ⟨params, hreq⟩) hold
        · exact .inr ⟨params, (List.mem_singleton.mp hreq).symm⟩
  case fresh =>
    intro a ha
    obtain ⟨h1, h2, h3, h4⟩ := h.fresh a fun hold => ha (hsub a hold)
    rw [hmem (hconnect a).symm, hmem (hdisconnect a).symm, hmem (hfinish a).symm]
    refine ⟨h1, h2, h3, fun c params hreq => ?_⟩
    rcases List.mem_append.mp hreq with hreq | hreq
    · exact h4 c params hreq
    · exact ha (hnew c a params (List.mem_singleton.mp hreq).symm)
  case threads =>
    intro a ha
    exact hsub a (h.threads a ha)

theorem Inv.connect (h : Inv realpath past s) {c : Nat} (hc : c ∉ s.allocated) :
    Inv realpath (past ++ [.connect c])
      { daemon := { s.daemon with conns := c :: s.daemon.conns }
        allocated := c :: s.allocated } := by
  obtain ⟨-, hnodis, -, -⟩ := h.fresh c hc
  constructor
  case conns =>
    intro c'
    simp only [List.mem_cons, List.mem_append, List.not_mem_nil, or_false, reduceCtorEq,
      Label.connect.injEq, h.conns c']
    by_cases heq : c' = c
    · subst heq
      simp [hnodis]
    · simp [heq]
  case scans => simpa using h.scans
  case callbacks => simpa using h.callbacks
  case requested =>
    intro c' hreq
    exact List.mem_append_left _ (h.requested c' (by simpa using hreq))
  case fresh =>
    intro a ha
    obtain ⟨hne, ha⟩ := not_or.mp (List.mem_cons.not.mp ha)
    simpa [hne] using h.fresh a ha
  case threads =>
    intro a ha
    exact List.mem_cons_of_mem _ (h.threads a ha)

theorem Inv.disconnect (h : Inv realpath past s) {c : Nat} (hc : c ∈ s.daemon.conns) :
    Inv realpath (past ++ [.disconnect c]) { s with daemon := clientThreadEnd s.daemon c } := by
  have hcon := ((h.conns c).mp hc).1
  constructor
  case conns =>
    intro c'
    simp only [clientThreadEnd, List.mem_filter, h.conns c', decide_eq_true_eq,
      List.mem_append, List.mem_singleton, reduceCtorEq, or_false, Label.disconnect.injEq,
      not_or, and_assoc]
  case scans => simpa [clientThreadEnd] using h.scans
  case callbacks => simpa [clientThreadEnd] using h.callbacks
  case requested =>
    intro c' hreq
    exact List.mem_append_left _ (h.requested c' (by simpa using hreq))
  case fresh =>
    intro a ha
    have hne : a ≠ c := fun heq => (h.fresh a ha).1 (heq ▸ hcon)
    simpa [hne] using h.fresh a ha
  case threads => exact h.threads

theorem Inv.scanFinished (h : Inv realpath past s) {addr : Nat}
    (ha : some addr ∈ s.daemon.threads) :
    Inv realpath (past ++ [.scanFinished addr])
      { s with daemon := scanThreadEnd s.daemon addr } := by
  constructor
  case conns => simpa [scanThreadEnd] using h.conns
  case scans =>
    intro a
    have hmem : a ∈ (scanThreadEnd s.daemon addr).onDemands.map Prod.fst ↔
        a ∈ s.daemon.onDemands.map Prod.fst ∧ a ≠ addr := by
      simp only [scanThreadEnd, List.mem_map, List.mem_filter, decide_eq_true_eq]
      constructor
      · rintro ⟨p, ⟨hp, hne⟩, heq⟩
        exact ⟨⟨p, hp, heq⟩, heq ▸ hne⟩
      · rintro ⟨⟨p, hp, heq⟩, hne⟩
        exact ⟨p, ⟨hp, heq ▸ hne⟩, heq⟩
    rw [hmem, h.scans a]
    simp only [List.mem_append, List.mem_singleton, reduceCtorEq, or_false,
      Label.scanFinished.injEq, not_or, and_assoc]
  case callbacks => simpa [scanThreadEnd] using h.callbacks
  case requested =>
    intro c' hreq
    exact List.mem_append_left _ (h.requested c' (by simpa using hreq))
  case fresh =>
    intro a hfresh
    have hne : a ≠ addr := fun heq => hfresh (heq ▸ h.threads addr ha)
    simpa [hne] using h.fresh a hfresh
  case threads =>
    intro a hmem
    exact h.threads a (List.mem_of_mem_erase hmem)

/-- A scan is started; its object exists when its root was found. -/
theorem Inv.startScan (h : Inv realpath past s) {c addr : Nat} {params : Option Json}
    {p : A6oRpcScanParam} (hp : ScanParams params p) (hc : c ∈ s.daemon.conns)
    (haddr : addr ∉ s.allocated) :
    Inv realpath (past ++ [.scanRequest c addr params])
      { daemon := startScan realpath s.daemon c addr p
        allocated := addr :: s.allocated } := by
  obtain ⟨-, -, hnofinish, hnoscan⟩ := h.fresh addr haddr
  constructor
  case conns => simpa [Rpc.startScan] using h.conns
  case scans =>
    intro a
    simp only [List.mem_append, List.mem_singleton, reduceCtorEq, or_false,
      Label.scanRequest.injEq]
    -- a fresh address: nothing was scanned there before, nothing has finished there
    by_cases heq : a = addr
    · subst heq
      have hold : a ∉ s.daemon.onDemands.map Prod.fst := by
        rw [h.scans a]
        rintro ⟨⟨c', params', _, hpast, _⟩, _⟩
        exact hnoscan c' params' hpast
      cases hscan : scanOnDemand realpath p with
      | none =>
        simp only [Rpc.startScan, hscan]
        refine iff_of_false hold ?_
        rintro ⟨⟨c', params', p', hpast, hp', hsome⟩, _⟩
        rcases hpast with hpast | ⟨rfl, -, rfl⟩
        · exact hnoscan c' params' hpast
        · obtain rfl := hp.unique hp'
          exact hsome hscan
      | some scan =>
        simp only [Rpc.startScan, hscan, List.map_cons, List.mem_cons, true_or, true_iff]
        exact ⟨⟨c, params, p, .inr ⟨rfl, trivial, rfl⟩, hp, by simp [hscan]⟩, hnofinish⟩
    · have hmem : a ∈ (Rpc.startScan realpath s.daemon c addr p).onDemands.map Prod.fst ↔
          a ∈ s.daemon.onDemands.map Prod.fst := by
        cases hscan : scanOnDemand realpath p <;> simp [Rpc.startScan, hscan, heq]
      rw [hmem, h.scans a]
      simp [heq]
  case callbacks =>
    intro entry
    simp only [Rpc.startScan, a6oEventSourceAddCb, List.mem_cons, h.callbacks entry,
      List.mem_append, reduceCtorEq, or_false, Label.scanRequest.injEq, List.not_mem_nil]
    constructor
    · intro hreg
      rcases hreg with rfl | ⟨c', a, params', p', hpast, hrest⟩ | hlisten
      · exact .inl ⟨c, addr, params, p, .inr ⟨rfl, rfl, rfl⟩, hp, rfl⟩
      · exact .inl ⟨c', a, params', p', .inl hpast, hrest⟩
      · exact .inr hlisten
    · intro hreg
      rcases hreg with ⟨c', a, params', p', hpast | ⟨rfl, rfl, rfl⟩, hp', rfl⟩ | hlisten
      · exact .inr (.inl ⟨c', a, params', p', hpast, hp', rfl⟩)
      · obtain rfl := hp.unique hp'
        exact .inl rfl
      · exact .inr (.inr hlisten)
  case requested =>
    intro c' hreq
    have hcon := ((h.conns c).mp hc).1
    simp only [List.mem_append, List.mem_singleton, reduceCtorEq, or_false,
      Label.scanRequest.injEq] at hreq ⊢
    rcases hreq with ⟨a, params', hpast | ⟨rfl, -, -⟩⟩ | hlisten
    · exact h.requested c' (.inl ⟨a, params', hpast⟩)
    · exact hcon
    · exact h.requested c' (.inr hlisten)
  case fresh =>
    intro a ha
    obtain ⟨hne, ha⟩ := not_or.mp (List.mem_cons.not.mp ha)
    simpa [hne] using h.fresh a ha
  case threads =>
    intro a ha
    rw [Rpc.startScan, List.mem_append, List.mem_singleton] at ha
    rcases ha with ha | ha
    · exact List.mem_cons_of_mem _ (h.threads a ha)
    · obtain ⟨_, -, heq⟩ := Option.map_eq_some_iff.mp ha.symm
      rw [← heq]
      exact List.mem_cons_self

theorem Inv.startListen (h : Inv realpath past s) {c : Nat} {params : Option Json}
    {l : A6oRpcListenParam} (hl : ListenParams params l) (hc : c ∈ s.daemon.conns) :
    Inv realpath (past ++ [.listenRequest c params])
      { s with daemon := startListen s.daemon c l } := by
  constructor
  case conns => simpa [Rpc.startListen] using h.conns
  case scans => simpa [Rpc.startListen] using h.scans
  case callbacks =>
    intro entry
    simp only [Rpc.startListen, a6oEventSourceAddCb, List.mem_cons, h.callbacks entry,
      List.mem_append, reduceCtorEq, or_false, Label.listenRequest.injEq, List.not_mem_nil]
    constructor
    · intro hreg
      rcases hreg with rfl | hscan | ⟨c', params', l', hpast, hrest⟩
      · exact .inr ⟨c, params, l, .inr ⟨rfl, rfl⟩, hl, rfl⟩
      · exact .inl hscan
      · exact .inr ⟨c', params', l', .inl hpast, hrest⟩
    · intro hreg
      rcases hreg with hscan | ⟨c', params', l', hpast | ⟨rfl, rfl⟩, hl', rfl⟩
      · exact .inr (.inl hscan)
      · exact .inr (.inr ⟨c', params', l', hpast, hl', rfl⟩)
      · have heq := (unmarshallListenParam_eq_ok.mpr hl).symm.trans
          (unmarshallListenParam_eq_ok.mpr hl')
        cases heq
        exact .inl rfl
  case requested =>
    intro c' hreq
    have hcon := ((h.conns c).mp hc).1
    simp only [List.mem_append, List.mem_singleton, reduceCtorEq, or_false,
      Label.listenRequest.injEq] at hreq ⊢
    rcases hreq with hscan | ⟨params', hpast | ⟨rfl, -⟩⟩
    · exact h.requested c' (.inl hscan)
    · exact h.requested c' (.inr ⟨params', hpast⟩)
    · exact hcon
  case fresh => simpa using h.fresh
  case threads => exact h.threads

/-! ## Every step, every run -/

theorem step_inv (h : Inv realpath past s) {label : Label}
    (hstep : step realpath s label = some s') : Inv realpath (past ++ [label]) s' := by
  cases step_cases hstep with
  | connect hfresh => exact h.connect hfresh
  | @scanRefused c addr params hconn haddr hno =>
    refine h.idle (by simp) (by simp) (by simp) ?_ (by simp) ?_ ?_ ?_
    · intro c' a params' p' heq
      cases heq
      exact hno p'
    · intro c' hor
      rcases hor with ⟨a, params', heq⟩ | ⟨params', heq⟩
      · cases heq
        exact hconn
      · cases heq
    · exact fun a ha => List.mem_cons_of_mem _ ha
    · intro c' a params' heq
      cases heq
      exact List.mem_cons_self
  | scanStarted hconn haddr hp => exact h.startScan hp hconn haddr
  | @listenRefused c params hconn hno =>
    refine h.idle (by simp) (by simp) (by simp) (by simp) ?_ ?_ (fun a ha => ha) (by simp)
    · intro c' params' l heq
      cases heq
      exact hno l
    · intro c' hor
      rcases hor with ⟨a, params', heq⟩ | ⟨params', heq⟩
      · cases heq
      · cases heq
        exact hconn
  | listenStarted hconn hl => exact h.startListen hl hconn
  | scanFinished hthread => exact h.scanFinished hthread
  | disconnect hconn => exact h.disconnect hconn
  | fire ev =>
    exact h.idle (by simp) (by simp) (by simp) (by simp) (by simp) (by simp)
      (fun a ha => ha) (by simp)

theorem start_inv : Inv realpath [] start := by
  constructor <;> simp [start]

theorem run_inv (h : Transition.run (step realpath) start past = some s) :
    Inv realpath past s := by
  have := Transition.run_history (P := Inv realpath)
    (fun _ _ _ _ hinv hstep => step_inv hinv hstep) past [] start s start_inv h
  rwa [List.nil_append] at this

/-! ## When firing is safe -/

/-- After the steps `past`, everyone who asked for events of this type is
still there: no scan request subscribed to it whose scan could not be
created, has finished, or whose client has gone, and no listen request of a
client that has gone. -/
def SafeToFire (realpath : Option (CString → Option CString)) (past : List Label)
    (type : A6oEventType) : Prop :=
  (∀ c a params p, .scanRequest c a params ∈ past → ScanParams params p →
    scanEventMask p &&& type.mask ≠ 0 →
    (∀ resolve, realpath = some resolve → resolve p.rootPath ≠ none) ∧
      .scanFinished a ∉ past ∧ .disconnect c ∉ past) ∧
  ∀ c params l, .listenRequest c params ∈ past → ListenParams params l →
    listenEventMask l &&& type.mask ≠ 0 → .disconnect c ∉ past

theorem live_iff_safeToFire (h : Inv realpath past s) (type : A6oEventType) :
    (∀ cb ∈ firedCallbacks s.daemon.callbacks type, CallbackLive s.daemon cb) ↔
      SafeToFire realpath past type := by
  constructor
  · intro hlive
    constructor
    · intro c a params p hpast hp hmask
      have hentry := (h.callbacks _).mpr (.inl ⟨c, a, params, p, hpast, hp, rfl⟩)
      obtain ⟨hconn, addr, hsome, hobj⟩ :=
        hlive _ (mem_firedCallbacks.mpr ⟨_, hentry, hmask⟩)
      obtain ⟨scan, hscan, rfl⟩ := Option.map_eq_some_iff.mp hsome
      refine ⟨?_, ((h.scans a).mp hobj).2, ((h.conns c).mp hconn).2⟩
      intro resolve hreal hnone
      rw [scanOnDemand_eq_none.mpr ⟨resolve, hreal, hnone⟩] at hscan
      cases hscan
    · intro c params l hpast hl hmask
      have hentry := (h.callbacks _).mpr (.inr ⟨c, params, l, hpast, hl, rfl⟩)
      have hconn : c ∈ s.daemon.conns := hlive _ (mem_firedCallbacks.mpr ⟨_, hentry, hmask⟩)
      exact ((h.conns c).mp hconn).2
  · rintro ⟨hscans, hlistens⟩ cb hcb
    obtain ⟨mask, hentry, hmask⟩ := mem_firedCallbacks.mp hcb
    rcases (h.callbacks _).mp hentry with
      ⟨c, a, params, p, hpast, hp, heq⟩ | ⟨c, params, l, hpast, hl, heq⟩
    · cases heq
      obtain ⟨hroot, hfinish, hdis⟩ := hscans c a params p hpast hp hmask
      have hcon := h.requested c (.inl ⟨a, params, hpast⟩)
      refine ⟨(h.conns c).mpr ⟨hcon, hdis⟩, a, ?_, ?_⟩
      · cases hscan : scanOnDemand realpath p with
        | some scan => rfl
        | none =>
          obtain ⟨resolve, hreal, hnone⟩ := scanOnDemand_eq_none.mp hscan
          exact absurd hnone (hroot resolve hreal)
      · refine (h.scans a).mpr ⟨⟨c, params, p, hpast, hp, ?_⟩, hfinish⟩
        intro hscan
        obtain ⟨resolve, hreal, hnone⟩ := scanOnDemand_eq_none.mp hscan
        exact hroot resolve hreal hnone
    · cases heq
      have hcon := h.requested c (.inr ⟨params, hpast⟩)
      exact (h.conns c).mpr ⟨hcon, hlistens c params l hpast hl hmask⟩

/-- **A run only ever runs live callbacks if and only if every event in it
is fired at a safe moment.** -/
theorem fire_live_iff {labels : List Label}
    (hrun : Transition.run (step realpath) start labels = some s) :
    (∀ past ev post t, labels = past ++ .fire ev :: post →
        Transition.run (step realpath) start past = some t →
        ∀ cb ∈ firedCallbacks t.daemon.callbacks ev.type, CallbackLive t.daemon cb) ↔
      ∀ past ev post, labels = past ++ .fire ev :: post →
        SafeToFire realpath past ev.type := by
  constructor
  · intro hlive past ev post heq
    rw [heq, Transition.run_append] at hrun
    obtain ⟨t, ht, -⟩ := Option.bind_eq_some_iff.mp hrun
    exact (live_iff_safeToFire (run_inv ht) ev.type).mp (hlive past ev post t heq ht)
  · intro hsafe past ev post t heq ht
    exact (live_iff_safeToFire (run_inv ht) ev.type).mpr (hsafe past ev post heq)

/-! ## Before and after a scan has finished -/

/-- A scan of the root directory. -/
def rootParams : Json :=
  .object [("root_path", .string "/".toList), ("send_progress", .integer 0),
    ("recursive", .integer 1), ("threaded", .integer 0), ("scan_id", .integer 1)]

/-- The scan 1 is completed. -/
def scanCompleted : A6oEvent := { type := .onDemandCompleted, scanId := 1 }

/-- While the scan of a connected client is under way, its events reach a
live callback. -/
theorem fire_during_scan :
    ∃ s, Transition.run (step none) start
        [.connect 1, .scanRequest 1 2 (some rootParams), .fire scanCompleted] = some s ∧
      ∀ past ev post t,
        [.connect 1, .scanRequest 1 2 (some rootParams), .fire scanCompleted]
          = past ++ .fire ev :: post →
        Transition.run (step none) start past = some t →
        ∀ cb ∈ firedCallbacks t.daemon.callbacks ev.type, CallbackLive t.daemon cb := by
  refine ⟨_, rfl, (fire_live_iff rfl).mpr ?_⟩
  intro past ev post heq
  obtain rfl : past = [.connect 1, .scanRequest 1 2 (some rootParams)] := by
    rcases past with _ | ⟨a, _ | ⟨b, _ | ⟨c, past⟩⟩⟩ <;> simp_all
  exact ⟨by simp, by simp⟩

/-- One client, one scan; the scan finishes, and any later event of the
type makes the callback read the freed object. -/
theorem fire_after_scanFinished :
    ∃ s, Transition.run (step none) start
        [.connect 1, .scanRequest 1 2 (some rootParams), .scanFinished 2] = some s ∧
      (.scanEventCb 1 (some 2) ∈ firedCallbacks s.daemon.callbacks .onDemandCompleted) ∧
      ¬ CallbackLive s.daemon (.scanEventCb 1 (some 2)) ∧
      runCallback s.daemon scanCompleted true (.scanEventCb 1 (some 2))
        = .error .useAfterFree := by
  refine ⟨_, rfl, ?_, ?_, rfl⟩
  · exact List.mem_singleton_self _
  · rintro ⟨_, addr, haddr, hmem⟩
    cases haddr
    exact absurd hmem (by decide)

end Armadito.Rpc
