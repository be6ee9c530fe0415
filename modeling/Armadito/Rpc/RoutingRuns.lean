import Armadito.Rpc.Routing

/-!
# Rpc.RoutingRuns

Runs in which every event reaches its own client only. One firing is
followed through the list of callbacks: among the live callbacks of scan
requests the comparison of scan ids lets exactly one through.
-/

namespace Armadito.Rpc.Routing

open Armadito.Core Armadito.Core.Producers Armadito.Jrpc

/-! ## One callback -/

theorem accepts_scanEventMask (param : A6oRpcScanParam) (conn : EventCb) (type : A6oEventType) :
    CallbackEntry.accepts ⟨scanEventMask param, conn⟩ type = wanted param type := by
  by_cases h : param.sendProgress = 0
  · cases type <;>
      simp [CallbackEntry.accepts, scanEventMask, wanted, h, A6oEventType.mask]
  · cases type <;>
      simp [CallbackEntry.accepts, scanEventMask, wanted, h, A6oEventType.mask]

theorem eventHasScanId_of_wanted {param : A6oRpcScanParam} {type : A6oEventType}
    (h : wanted param type = true) : eventHasScanId type = true := by
  cases type <;> simp_all [wanted, eventHasScanId]

/-- The callback reads through no bad pointer: its scan object is there, and
so is the connection it notifies. -/
def CallbackSafe (d : Daemon) (e : EventNew.A6oEvent) : EventCb → Prop
  | .scanEventCb conn onDemand =>
    ∃ addr scan, onDemand = some addr ∧ d.onDemands.lookup addr = some scan ∧
      ((header e).scanId = scan.scanId → marshalled e = true → conn ∈ d.conns)
  | .listenEventCb conn => marshalled e = true → conn ∈ d.conns

/-- The connection that a callback sends to. -/
def callbackConn : EventCb → Nat
  | .scanEventCb conn _ | .listenEventCb conn => conn

/-- What a callback that does not fault sends. -/
def sentBy (d : Daemon) (e : EventNew.A6oEvent) (cb : EventCb) : List Sent :=
  match runCallback d (header e) (marshalled e) cb with
  | .ok (some n) => [⟨n.conn, e⟩]
  | _ => []

section Callbacks

variable {d : Daemon} {e : EventNew.A6oEvent}

theorem jrpcNotify_of_mem {conn : Nat} (h : conn ∈ d.conns) :
    jrpcNotify d conn (header e) = .ok (some ⟨conn, header e⟩) := by
  rw [jrpcNotify, derefConn, if_pos h]
  rfl

theorem runCallback_scan {conn addr : Nat} {scan : A6oOnDemand}
    (hscan : d.onDemands.lookup addr = some scan) (htype : eventHasScanId e.type = true)
    (hsafe : (header e).scanId = scan.scanId → marshalled e = true → conn ∈ d.conns) :
    runCallback d (header e) (marshalled e) (.scanEventCb conn (some addr)) =
      .ok (if (header e).scanId = scan.scanId ∧ marshalled e = true then
        some ⟨conn, header e⟩ else none) := by
  have htype' : eventHasScanId (header e).type = true := htype
  rw [runCallback, scanEventCb, derefOnDemand, hscan]
  by_cases hid : (header e).scanId = scan.scanId
  · by_cases hm : marshalled e = true
    · simp [hid, hm, jrpcNotify_of_mem (hsafe hid hm), bind, Except.bind]
    · simp [hid, hm, bind, Except.bind, pure, Except.pure]
  · simp [hid, htype', bind, Except.bind, pure, Except.pure]

theorem runCallback_of_safe {cb : EventCb} (htype : ∀ conn onDemand,
      cb = .scanEventCb conn onDemand → eventHasScanId e.type = true)
    (h : CallbackSafe d e cb) :
    ∃ sent, runCallback d (header e) (marshalled e) cb = .ok sent := by
  cases cb with
  | scanEventCb conn onDemand =>
    obtain ⟨addr, scan, rfl, hscan, hsafe⟩ := h
    exact ⟨_, runCallback_scan hscan (htype _ _ rfl) hsafe⟩
  | listenEventCb conn =>
    rw [runCallback, listenEventCb]
    by_cases hm : marshalled e = true
    · simp [hm, jrpcNotify_of_mem (h hm)]
    · simp [hm]

theorem notify_of_safe {cbs : List EventCb}
    (h : ∀ cb ∈ cbs, ∃ sent, runCallback d (header e) (marshalled e) cb = .ok sent) :
    notify d e cbs = (cbs.flatMap (sentBy d e), false) := by
  induction cbs with
  | nil => rfl
  | cons cb cbs ih =>
    obtain ⟨sent, hsent⟩ := h cb List.mem_cons_self
    have hrest := ih fun cb' hcb' => h cb' (List.mem_cons_of_mem _ hcb')
    have hcb : sentBy d e cb = sent.toList.map fun n => ⟨n.conn, e⟩ := by
      rw [sentBy, hsent]
      cases sent with
      | none => rfl
      | some n => rfl
    rw [notify, hsent, List.flatMap_cons, hcb]
    simp only [hrest]

theorem sentBy_scanEventCb {conn addr : Nat} {scan : A6oOnDemand}
    (hscan : d.onDemands.lookup addr = some scan) (htype : eventHasScanId e.type = true)
    (hsafe : (header e).scanId = scan.scanId → marshalled e = true → conn ∈ d.conns) :
    sentBy d e (.scanEventCb conn (some addr)) =
      if (header e).scanId = scan.scanId ∧ marshalled e = true then [⟨conn, e⟩] else [] := by
  rw [sentBy, runCallback_scan hscan htype hsafe]
  split
  · next h =>
    split at h
    · next hmatch =>
      cases h
      rw [if_pos hmatch]
    · cases h
  · next h =>
    rw [if_neg]
    intro hmatch
    exact h _ (by rw [if_pos hmatch])

/-- A callback notifies its own connection. -/
theorem conn_of_mem_sentBy {cb : EventCb} {n : Sent} (h : n ∈ sentBy d e cb) :
    n.conn = callbackConn cb := by
  have hnotify : ∀ {conn m}, jrpcNotify d conn (header e) = .ok (some m) → m.conn = conn := by
    intro conn m hnotify
    obtain ⟨-, -, hnotify⟩ := bind_eq_ok.mp hnotify
    cases hnotify
    rfl
  rw [sentBy] at h
  split at h
  · next m hrun =>
    rw [List.mem_singleton.mp h]
    cases cb with
    | scanEventCb conn onDemand =>
      obtain ⟨scan, -, hrun⟩ := bind_eq_ok.mp hrun
      split_ifs at hrun
      · cases hrun
      · cases hrun
      · exact hnotify hrun
    | listenEventCb conn =>
      rw [runCallback, listenEventCb] at hrun
      split_ifs at hrun
      · cases hrun
      · exact hnotify hrun
  · cases h

end Callbacks

/-! ## All callbacks of an event -/

/-- A callback of a scan. -/
def isScanEntry (p : CallbackEntry EventCb) : Bool :=
  match p.cb with
  | .scanEventCb _ _ => true
  | .listenEventCb _ => false

/-- The callback that a scan request registers. -/
def Request.entry (realpath : Option (CString → Option CString)) (r : Request) :
    CallbackEntry EventCb :=
  ⟨scanEventMask r.param,
    .scanEventCb r.conn ((scanOnDemand realpath r.param).map fun _ => r.addr)⟩

/-- The client hears of the event if it has the id of its scan. -/
def Request.Hears (r : Request) (conn : Nat) (e : EventNew.A6oEvent) : Prop :=
  r.conn = conn ∧ wanted r.param e.type = true ∧ marshalled e = true

instance (r : Request) (conn : Nat) (e : EventNew.A6oEvent) : Decidable (r.Hears conn e) :=
  inferInstanceAs (Decidable (_ ∧ _ ∧ _))

theorem sentTo_append {conn : Nat} {a b : List Sent} :
    sentTo conn (a ++ b) = sentTo conn a ++ sentTo conn b := by
  rw [sentTo, List.filter_append, List.map_append]
  rfl

/-- What a client is sent of an event comes from its own callbacks. -/
theorem sentTo_own {d : Daemon} {e : EventNew.A6oEvent} {conn : Nat} {type : A6oEventType}
    (callbacks : List (CallbackEntry EventCb)) :
    sentTo conn ((firedCallbacks callbacks type).flatMap (sentBy d e)) =
      sentTo conn ((firedCallbacks (callbacks.filter fun p => callbackConn p.cb = conn)
        type).flatMap (sentBy d e)) := by
  induction callbacks with
  | nil => rfl
  | cons p callbacks ih =>
    have hfired : ∀ ps : List (CallbackEntry EventCb), firedCallbacks (p :: ps) type =
        (if p.accepts type then [p.cb] else []) ++ firedCallbacks ps type := by
      intro ps
      rw [firedCallbacks, List.filter_cons]
      split
      · rfl
      · rfl
    by_cases hown : callbackConn p.cb = conn
    · rw [List.filter_cons_of_pos (by simpa using hown), hfired, hfired, List.flatMap_append,
        List.flatMap_append, sentTo_append, sentTo_append, ih]
    · have hnone : sentTo conn ((if p.accepts type then [p.cb] else []).flatMap (sentBy d e))
          = [] := by
        rw [sentTo, List.map_eq_nil_iff, List.filter_eq_nil_iff]
        intro n hn
        obtain ⟨cb, hcb, hn⟩ := List.mem_flatMap.mp hn
        have hsame : cb = p.cb := by
          split at hcb
          · exact List.mem_singleton.mp hcb
          · cases hcb
        rw [conn_of_mem_sentBy hn, hsame]
        simpa using hown
      rw [List.filter_cons_of_neg (by simpa using hown), hfired, List.flatMap_append,
        sentTo_append, hnone, List.nil_append, ih]

/-- A client that does not listen is notified by scan callbacks only. -/
theorem sentTo_flatMap_sentBy {d : Daemon} {e : EventNew.A6oEvent} {conn : Nat}
    {type : A6oEventType} {callbacks : List (CallbackEntry EventCb)}
    (h : ∀ mask, ⟨mask, .listenEventCb conn⟩ ∉ callbacks) :
    sentTo conn ((firedCallbacks callbacks type).flatMap (sentBy d e)) =
      (callbacks.filter isScanEntry).flatMap fun p =>
        if p.accepts type then sentTo conn (sentBy d e p.cb) else [] := by
  induction callbacks with
  | nil => rfl
  | cons p callbacks ih =>
    have hrest := ih fun mask hmem => h mask (List.mem_cons_of_mem _ hmem)
    obtain ⟨mask, cb⟩ := p
    have hfired : firedCallbacks (⟨mask, cb⟩ :: callbacks) type =
        (if CallbackEntry.accepts ⟨mask, cb⟩ type then [cb] else []) ++
          firedCallbacks callbacks type := by
      rw [firedCallbacks, List.filter_cons]
      split
      · rfl
      · rfl
    rw [hfired, List.flatMap_append, sentTo_append, hrest]
    cases cb with
    | scanEventCb conn' onDemand =>
      rw [List.filter_cons_of_pos rfl, List.flatMap_cons]
      split
      · simp
      · rfl
    | listenEventCb conn' =>
      have hne : conn' ≠ conn := fun heq => h mask (heq ▸ List.mem_cons_self)
      rw [List.filter_cons_of_neg (by simp [isScanEntry])]
      have hnone : sentTo conn (sentBy d e (.listenEventCb conn')) = [] := by
        rw [sentTo, List.map_eq_nil_iff, List.filter_eq_nil_iff]
        intro n hn
        rw [conn_of_mem_sentBy hn]
        exact fun heq => hne (of_decide_eq_true heq)
      split
      · simp [hnone]
      · rfl

/-- Of the elements with a key, there is one. -/
theorem flatMap_of_nodup {α β γ : Type} [DecidableEq β] (key : α → β) (q : α → Prop)
    [DecidablePred q] {b : γ} {l : List α} (hnodup : (l.map key).Nodup) {a : α} (ha : a ∈ l) :
    (l.flatMap fun r => if key r = key a ∧ q r then [b] else []) =
      if q a then [b] else [] := by
  induction l with
  | nil => cases ha
  | cons r l ih =>
    obtain ⟨hnew, hnodup⟩ := List.nodup_cons.mp hnodup
    rw [List.flatMap_cons]
    rcases List.mem_cons.mp ha with rfl | ha
    · have hrest : (l.flatMap fun r => if key r = key a ∧ q r then [b] else []) = [] := by
        rw [List.flatMap_eq_nil_iff]
        intro r hr
        rw [if_neg]
        rintro ⟨hkey, -⟩
        exact hnew (List.mem_map.mpr ⟨r, hr, hkey⟩)
      rw [hrest, List.append_nil]
      simp
    · have hkey : key r ≠ key a := fun heq => hnew (heq ▸ List.mem_map_of_mem ha)
      rw [ih hnodup ha, if_neg (fun h => hkey h.1), List.nil_append]

/-! ## The invariant -/

/-- The callbacks of scan requests are those of the requests, in order, and
the scan objects are theirs; ids and addresses tell the requests apart. -/
structure Inv (realpath : Option (CString → Option CString)) (s : State) : Prop where
  alive : s.crashed = false
  callbacks : s.base.daemon.callbacks.filter isScanEntry =
    s.requests.map (Request.entry realpath)
  addrs : (s.requests.map Request.addr).Nodup
  ids : (s.requests.map fun r => r.param.scanId).Nodup
  idRange : ∀ r ∈ s.requests, castInt 64 r.param.scanId = r.param.scanId
  allocated : ∀ r ∈ s.requests, r.addr ∈ s.base.allocated
  objects : ∀ addr scan, s.base.daemon.onDemands.lookup addr = some scan →
    ∃ r ∈ s.requests, r.addr = addr ∧ scan.scanId = r.param.scanId
  origins : ∀ f ∈ s.fired, ∀ addr, f.origin = .onDemand addr → addr ∈ s.base.allocated
  routed : ∀ conn, ¬ Listening s.base.daemon conn → sentTo conn s.sent = ownEvents s conn

variable {realpath : Option (CString → Option CString)} {s s' : State}

/-! ## A step of the daemon -/

theorem newRequests_of_params {conn addr : Nat} {params : Option Json} {p : A6oRpcScanParam}
    (hp : ScanParams params p) :
    newRequests (.scanRequest conn addr params) = [⟨conn, addr, p⟩] := by
  have hnull : jsonIsNull params = false := by
    cases h : jsonIsNull params with
    | false => rfl
    | true =>
      rw [jsonIsNull_eq_true] at h
      rw [h] at hp
      exact absurd hp (not_scanParams_null p)
  rw [newRequests, jrpcUnmarshallStructPtr, hnull, unmarshallScanParam_eq_ok.mpr hp]
  rfl

theorem newRequests_of_no_params {conn addr : Nat} {params : Option Json}
    (hp : ∀ p, ¬ ScanParams params p) : newRequests (.scanRequest conn addr params) = [] := by
  rw [newRequests]
  split
  · next p h =>
    rw [jrpcUnmarshallStructPtr] at h
    split at h
    · cases h
    · obtain ⟨p', hp', h⟩ := bind_eq_ok.mp h
      exact absurd (unmarshallScanParam_eq_ok.mp hp') (hp p')
  · rfl

theorem lookup_filter_ne {α : Type} {l : List (Nat × α)} {addr a : Nat} {x : α}
    (h : (l.filter fun p => p.1 ≠ addr).lookup a = some x) : l.lookup a = some x := by
  induction l with
  | nil => cases h
  | cons p l ih =>
    obtain ⟨k, v⟩ := p
    by_cases hk : k = addr
    · rw [List.filter_cons_of_neg (by simp [hk])] at h
      have hne : a ≠ k := by
        rintro rfl
        obtain ⟨l₁, l₂, heq, -⟩ := List.lookup_eq_some_iff.mp h
        have hmem : (a, x) ∈ l.filter fun p => p.1 ≠ addr := by
          rw [heq]
          exact List.mem_append_right _ List.mem_cons_self
        simpa [hk] using (List.mem_filter.mp hmem).2
      rw [List.lookup_cons, beq_eq_false_iff_ne.mpr hne]
      exact ih h
    · rw [List.filter_cons_of_pos (by simpa using hk), List.lookup_cons] at h
      rw [List.lookup_cons]
      split at h
      · exact h
      · exact ih h

/-- A step of the daemon starts the scan of a request, or it leaves the
callbacks of the requests alone and adds no scan object. -/
theorem base_step_cases {b b' : Rpc.State} {l : Rpc.Label}
    (h : Rpc.step realpath b l = some b') :
    (∃ conn addr params p, l = .scanRequest conn addr params ∧ ScanParams params p ∧
      addr ∉ b.allocated ∧
      b' = { daemon := startScan realpath b.daemon conn addr p
             allocated := addr :: b.allocated }) ∨
    (newRequests l = [] ∧
      b'.daemon.callbacks.filter isScanEntry = b.daemon.callbacks.filter isScanEntry ∧
      (∀ conn, Listening b.daemon conn → Listening b'.daemon conn) ∧
      (∀ addr scan, b'.daemon.onDemands.lookup addr = some scan →
        b.daemon.onDemands.lookup addr = some scan) ∧
      ∀ addr ∈ b.allocated, addr ∈ b'.allocated) := by
  cases Rpc.step_cases h with
  | connect _ =>
    exact .inr ⟨rfl, rfl, fun _ h => h, fun _ _ h => h, fun _ h => List.mem_cons_of_mem _ h⟩
  | scanRefused _ _ hno =>
    exact .inr ⟨newRequests_of_no_params hno, rfl, fun _ h => h, fun _ _ h => h,
      fun _ h => List.mem_cons_of_mem _ h⟩
  | @scanStarted conn addr params p _ haddr hp =>
    exact .inl ⟨conn, addr, params, p, rfl, hp, haddr, rfl⟩
  | listenRefused _ _ => exact .inr ⟨rfl, rfl, fun _ h => h, fun _ _ h => h, fun _ h => h⟩
  | listenStarted _ _ =>
    refine .inr ⟨rfl, rfl, ?_, fun _ _ h => h, fun _ h => h⟩
    rintro conn ⟨mask, hmem⟩
    exact ⟨mask, List.mem_cons_of_mem _ hmem⟩
  | scanFinished _ =>
    exact .inr ⟨rfl, rfl, fun _ h => h, fun _ _ h => lookup_filter_ne h, fun _ h => h⟩
  | disconnect _ => exact .inr ⟨rfl, rfl, fun _ h => h, fun _ _ h => h, fun _ h => h⟩
  | fire _ => exact .inr ⟨rfl, rfl, fun _ h => h, fun _ _ h => h, fun _ h => h⟩

theorem daemonStep_eq_some {l : Rpc.Label} (h : daemonStep realpath s l = some s') :
    ∃ base, Rpc.step realpath s.base l = some base ∧
      s' = { s with base, requests := newRequests l ++ s.requests } := by
  cases l with
  | fire ev => cases h
  | connect _ | scanRequest _ _ _ | listenRequest _ _ | scanFinished _ | disconnect _ =>
    obtain ⟨base, hbase, rfl⟩ := Option.map_eq_some_iff.mp h
    exact ⟨base, hbase, rfl⟩

/-- The scan ids of all requests are distinct. -/
def DistinctScanIds (s : State) : Label → Prop
  | .daemon (.scanRequest _ _ params) =>
    ∀ p, ScanParams params p → ∀ r ∈ s.requests, r.param.scanId ≠ p.scanId
  | _ => True

/-- A new request owns nothing that was fired before. -/
theorem own_cons {requests : List Request} {r : Request} {conn : Nat} {f : Fired}
    (h : f.origin ≠ .onDemand r.addr) : own (r :: requests) conn f = own requests conn f := by
  rw [own, own]
  cases horigin : f.origin with
  | onAccess => rfl
  | onDemand addr =>
    have hne : r.addr ≠ addr := fun heq => h (by rw [horigin, heq])
    simp [hne]

theorem Inv.startScan (h : Inv realpath s) {conn addr : Nat} {params : Option Json}
    {p : A6oRpcScanParam} (hp : ScanParams params p) (haddr : addr ∉ s.base.allocated)
    (hdistinct : ∀ r ∈ s.requests, r.param.scanId ≠ p.scanId) :
    Inv realpath { s with
      base := { daemon := startScan realpath s.base.daemon conn addr p
                allocated := addr :: s.base.allocated }
      requests := ⟨conn, addr, p⟩ :: s.requests } := by
  constructor
  case alive => exact h.alive
  case callbacks =>
    show List.filter isScanEntry (Request.entry realpath ⟨conn, addr, p⟩ :: _) = _
    rw [List.filter_cons_of_pos rfl, h.callbacks]
    rfl
  case addrs =>
    refine List.nodup_cons.mpr ⟨fun hmem => ?_, h.addrs⟩
    obtain ⟨r, hr, (heq : r.addr = addr)⟩ := List.mem_map.mp hmem
    exact haddr (heq ▸ h.allocated r hr)
  case ids =>
    refine List.nodup_cons.mpr ⟨fun hmem => ?_, h.ids⟩
    obtain ⟨r, hr, heq⟩ := List.mem_map.mp hmem
    exact hdistinct r hr heq
  case idRange =>
    refine List.forall_mem_cons.mpr ⟨?_, h.idRange⟩
    obtain ⟨n, -, hcast⟩ := hp.scanId
    show castInt 64 p.scanId = p.scanId
    rw [← hcast]
    exact Int.bmod_bmod
  case allocated =>
    exact List.forall_mem_cons.mpr ⟨List.mem_cons_self,
      fun r hr => List.mem_cons_of_mem _ (h.allocated r hr)⟩
  case objects =>
    intro a scan hlookup
    -- an object is new, or a request that was there before owns it
    have hold : ∀ {scan}, s.base.daemon.onDemands.lookup a = some scan →
        ∃ r ∈ ⟨conn, addr, p⟩ :: s.requests, r.addr = a ∧ scan.scanId = r.param.scanId := by
      intro scan hscan
      obtain ⟨r, hr, hrest⟩ := h.objects a scan hscan
      exact ⟨r, List.mem_cons_of_mem _ hr, hrest⟩
    rw [Rpc.startScan] at hlookup
    cases hnew : scanOnDemand realpath p with
    | none =>
      simp only [hnew] at hlookup
      exact hold hlookup
    | some scan' =>
      simp only [hnew, List.lookup_cons] at hlookup
      split at hlookup
      · next heq =>
        cases hlookup
        exact ⟨_, List.mem_cons_self, (beq_iff_eq.mp heq).symm,
          (scanOnDemand_builtFrom hnew).scanId⟩
      · exact hold hlookup
  case origins =>
    exact fun f hf a ha => List.mem_cons_of_mem _ (h.origins f hf a ha)
  case routed =>
    intro conn' hlisten
    have hlisten' : ¬ Listening s.base.daemon conn' := by
      rintro ⟨mask, hmem⟩
      exact hlisten ⟨mask, List.mem_cons_of_mem _ hmem⟩
    show sentTo conn' s.sent = (s.fired.filter (own (_ :: s.requests) conn')).map Fired.event
    rw [h.routed conn' hlisten', ownEvents]
    congr 1
    refine List.filter_congr fun f hf => (own_cons fun horigin => ?_).symm
    exact haddr (h.origins f hf addr horigin)

theorem Inv.daemonStep (h : Inv realpath s) {l : Rpc.Label}
    (hdistinct : DistinctScanIds s (.daemon l)) (hstep : daemonStep realpath s l = some s') :
    Inv realpath s' := by
  obtain ⟨base, hbase, rfl⟩ := daemonStep_eq_some hstep
  rcases base_step_cases hbase with
    ⟨conn, addr, params, p, rfl, hp, haddr, rfl⟩ | ⟨hnone, hcallbacks, hlisten, hobjects, hsub⟩
  · rw [newRequests_of_params hp]
    exact h.startScan hp haddr (hdistinct p hp)
  · rw [hnone, List.nil_append]
    constructor
    case alive => exact h.alive
    case callbacks => exact hcallbacks.trans h.callbacks
    case addrs => exact h.addrs
    case ids => exact h.ids
    case idRange => exact h.idRange
    case allocated => exact fun r hr => hsub _ (h.allocated r hr)
    case objects => exact fun addr scan hscan => h.objects addr scan (hobjects addr scan hscan)
    case origins => exact fun f hf addr haddr => hsub _ (h.origins f hf addr haddr)
    case routed => exact fun conn hno => h.routed conn fun hold => hno (hlisten conn hold)

/-! ## A step that fires an event -/

/-- A scan callback runs only for events with a scan id. -/
theorem Inv.hasScanId (h : Inv realpath s) {type : A6oEventType} {conn : Nat}
    {onDemand : Option Nat}
    (hcb : .scanEventCb conn onDemand ∈ firedCallbacks s.base.daemon.callbacks type) :
    eventHasScanId type = true := by
  rw [firedCallbacks] at hcb
  obtain ⟨entry, hentry, heq⟩ := List.mem_map.mp hcb
  obtain ⟨hmem, haccepts⟩ := List.mem_filter.mp hentry
  have hscan : entry ∈ s.base.daemon.callbacks.filter isScanEntry :=
    List.mem_filter.mpr ⟨hmem, by rw [isScanEntry, heq]⟩
  rw [h.callbacks] at hscan
  obtain ⟨r, -, rfl⟩ := List.mem_map.mp hscan
  rw [Request.entry, accepts_scanEventMask] at haccepts
  exact eventHasScanId_of_wanted haccepts

/-- The callback of a request lets through the events of its scan. -/
theorem Inv.sentTo_entry (h : Inv realpath s) {e : EventNew.A6oEvent}
    (hsafe : ∀ cb ∈ firedCallbacks s.base.daemon.callbacks e.type,
      CallbackSafe s.base.daemon e cb) {r : Request} (hr : r ∈ s.requests) (conn : Nat) :
    (if (r.entry realpath).accepts e.type then
        sentTo conn (sentBy s.base.daemon e (r.entry realpath).cb) else []) =
      if r.param.scanId = (header e).scanId ∧ r.Hears conn e then [e] else [] := by
  have haccepts : (r.entry realpath).accepts e.type = wanted r.param e.type :=
    accepts_scanEventMask r.param _ e.type
  rw [haccepts]
  by_cases hwanted : wanted r.param e.type = true
  · have hmem : r.entry realpath ∈ s.base.daemon.callbacks := by
      have hentry := List.mem_map_of_mem (f := Request.entry realpath) hr
      rw [← h.callbacks] at hentry
      exact (List.mem_filter.mp hentry).1
    have hcb : (r.entry realpath).cb ∈ firedCallbacks s.base.daemon.callbacks e.type :=
      List.mem_map.mpr ⟨_, List.mem_filter.mpr ⟨hmem, haccepts.trans hwanted⟩, rfl⟩
    obtain ⟨addr, scan, haddr, hscan, hconn⟩ := hsafe _ hcb
    obtain ⟨-, -, rfl⟩ := Option.map_eq_some_iff.mp haddr
    -- addresses tell the requests apart, so the scan object is the one of `r`
    obtain ⟨r', hr', haddr', hid⟩ := h.objects _ _ hscan
    obtain rfl : r' = r := List.inj_on_of_nodup_map h.addrs hr' hr haddr'
    rw [if_pos hwanted, Request.entry, haddr,
      sentBy_scanEventCb hscan (eventHasScanId_of_wanted hwanted) hconn, hid]
    by_cases hmatch : (header e).scanId = r'.param.scanId ∧ marshalled e = true
    · rw [if_pos hmatch]
      by_cases hc : r'.conn = conn
      · simp [Request.Hears, sentTo, hc, hmatch, hwanted]
      · simp [Request.Hears, sentTo, hc]
    · rw [if_neg hmatch, if_neg fun hall => hmatch ⟨hall.1.symm, hall.2.2.2⟩]
      rfl
  · rw [if_neg hwanted, if_neg fun hall => hwanted hall.2.2.1]

theorem Inv.fireEvent (h : Inv realpath s) {origin : Origin} {ev : EventNew.A6oEventUnion}
    {now : Int64} (hstep : fireEvent s origin ev now = some s')
    (horigin : ∀ addr, origin = .onDemand addr → addr ∈ s.base.allocated)
    (hsafe : ∀ cb ∈ firedCallbacks s.base.daemon.callbacks ev.type,
      CallbackSafe s.base.daemon { timestamp := now, u := ev } cb)
    (hown : ∀ conn e, EventNew.a6oEventNew now ev = .ok e →
      (s.requests.flatMap fun r =>
        if r.param.scanId = (header e).scanId ∧ r.Hears conn e then [e] else []) =
        if own s.requests conn ⟨origin, e⟩ = true then [e] else []) : Inv realpath s' := by
  rw [Routing.fireEvent] at hstep
  split at hstep
  · cases hstep
  · next e hnew =>
    obtain ⟨-, rfl⟩ := EventNew.a6oEventNew_eq_ok.mp hnew
    have hok := notify_of_safe fun cb hcb =>
      runCallback_of_safe (fun _ _ heq => h.hasScanId (heq ▸ hcb)) (hsafe cb hcb)
    cases hstep
    constructor
    case alive => exact congrArg Prod.snd hok
    case callbacks => exact h.callbacks
    case addrs => exact h.addrs
    case ids => exact h.ids
    case idRange => exact h.idRange
    case allocated => exact h.allocated
    case objects => exact h.objects
    case origins =>
      intro f hf addr haddr
      rcases List.mem_append.mp hf with hf | hf
      · exact h.origins f hf addr haddr
      · rw [List.mem_singleton.mp hf] at haddr
        exact horigin addr haddr
    case routed =>
      intro conn hlisten
      have hnolisten : ∀ mask, ⟨mask, .listenEventCb conn⟩ ∉ s.base.daemon.callbacks :=
        fun mask hmem => hlisten ⟨mask, hmem⟩
      -- the callbacks that let the event through are those of the requests that own it
      have hsent : sentTo conn (notify s.base.daemon { timestamp := now, u := ev }
          (firedCallbacks s.base.daemon.callbacks ev.type)).1 =
          if own s.requests conn ⟨origin, { timestamp := now, u := ev }⟩ = true then
            [{ timestamp := now, u := ev }] else [] := by
        rw [← hown conn _ hnew, hok, sentTo_flatMap_sentBy hnolisten, h.callbacks,
          List.flatMap_map]
        exact List.flatMap_congr fun r hr =>
          h.sentTo_entry (e := { timestamp := now, u := ev }) hsafe hr conn
      show sentTo conn (s.sent ++ _) = _
      rw [sentTo_append, h.routed conn hlisten, ownEvents, ownEvents, List.filter_append,
        List.map_append]
      congr 1
      refine hsent.trans ?_
      show _ = (List.filter (own s.requests conn) [_]).map Fired.event
      rw [List.filter_singleton]
      split
      · simp [*]
      · simp [*]

/-- The event can be fired: no callback that asked for its type reads
through a bad pointer. -/
def CallbacksSafe (s : State) (e : EventNew.A6oEvent) : Prop :=
  ∀ cb ∈ firedCallbacks s.base.daemon.callbacks e.type, CallbackSafe s.base.daemon e cb

theorem Inv.onDemandFires (h : Inv realpath s) {addr : Nat} {stored onDemand : A6oOnDemand}
    {fire : OnDemandFire} {ev : EventNew.A6oEventUnion} {now : Int64}
    (hstored : s.base.daemon.onDemands.lookup addr = some stored)
    (hsame : SameScan stored onDemand) (hev : onDemandEvent onDemand fire = some ev)
    (hsafe : CallbacksSafe s { timestamp := now, u := ev })
    (haction : ∀ action ∈ ev.scanAction, DeclaredAction action)
    (hstep : Routing.fireEvent s (.onDemand addr) ev now = some s') : Inv realpath s' := by
  obtain ⟨r, hr, rfl, hid⟩ := h.objects addr stored hstored
  refine h.fireEvent hstep ?_ hsafe ?_
  · intro a ha
    cases ha
    exact h.allocated r hr
  · intro conn e hnew
    have hsent : marshalled e = true := (marshalled_iff hnew).mpr haction
    -- a scan id fits a `time_t`, so the event has the one of the request
    have hheader : (header e).scanId = r.param.scanId := by
      obtain ⟨-, rfl⟩ := EventNew.a6oEventNew_eq_ok.mp hnew
      have hrange := h.idRange r hr
      rw [← hid, hsame.2.1] at hrange ⊢
      show (ev.scanId.map Int64.toInt).getD 0 = onDemand.scanId
      rw [onDemandEvent_scanId hev]
      exact (Int64.toInt_ofInt).trans hrange
    rw [hheader, flatMap_of_nodup (fun r : Request => r.param.scanId)
      (fun r => r.Hears conn e) h.ids hr]
    have hown : own s.requests conn ⟨.onDemand r.addr, e⟩ = true ↔ r.Hears conn e := by
      rw [own, List.any_eq_true]
      constructor
      · rintro ⟨r', hr', hmatch⟩
        simp only [Bool.and_eq_true, decide_eq_true_eq] at hmatch
        obtain rfl : r' = r := List.inj_on_of_nodup_map h.addrs hr' hr hmatch.1.2
        exact ⟨hmatch.1.1, hmatch.2, hsent⟩
      · rintro ⟨hconn, hwanted, -⟩
        exact ⟨r, hr, by simp [hconn, hwanted]⟩
    simp only [hown]

theorem Inv.onAccessFires (h : Inv realpath s) {unset : Int64} {status : A6oFileStatus}
    {report : A6oReport} {ev : EventNew.A6oEventUnion} {now : Int64}
    (hev : onAccessEvent unset status report = some ev)
    (hsafe : CallbacksSafe s { timestamp := now, u := ev })
    (hunset : DeclaredAction report.action → ∀ r ∈ s.requests, r.param.scanId ≠ unset.toInt)
    (hstep : Routing.fireEvent s .onAccess ev now = some s') : Inv realpath s' := by
  obtain rfl := onAccessEvent_eq_some hev
  refine h.fireEvent hstep ?_ hsafe ?_
  · intro a ha
    cases ha
  · intro conn e hnew
    have hnotOwn : own s.requests conn ⟨.onAccess, e⟩ = false := rfl
    rw [hnotOwn, if_neg Bool.false_ne_true, List.flatMap_eq_nil_iff]
    intro r hr
    rw [if_neg]
    rintro ⟨hid, -, -, hsent⟩
    -- an action that is not declared keeps the event from being sent at all
    have haction := (marshalled_iff hnew).mp hsent report.action rfl
    obtain ⟨-, rfl⟩ := EventNew.a6oEventNew_eq_ok.mp hnew
    exact hunset haction r hr hid

/-! ## Runs -/

/-- The event finds its callbacks in order; a detection of a scan has one
action, and the unset field of one of the on-access monitor is no id of a
scan that was requested. -/
def RoutedAt (s : State) : Label → Prop
  | .daemon _ => True
  | .onDemandFires _ onDemand fire now => ∀ ev, onDemandEvent onDemand fire = some ev →
      CallbacksSafe s { timestamp := now, u := ev } ∧
        ∀ action ∈ ev.scanAction, DeclaredAction action
  | .onAccessFires unset status report now => ∀ ev, onAccessEvent unset status report = some ev →
      CallbacksSafe s { timestamp := now, u := ev } ∧
        (DeclaredAction report.action → ∀ r ∈ s.requests, r.param.scanId ≠ unset.toInt)

theorem step_inv {label : Label} (h : Inv realpath s) (hdistinct : DistinctScanIds s label)
    (hroutedAt : RoutedAt s label) (hstep : step realpath s label = some s') :
    Inv realpath s' := by
  cases label with
  | daemon l =>
    rw [step, h.alive] at hstep
    exact h.daemonStep hdistinct hstep
  | onDemandFires addr onDemand fire now =>
    rw [step, h.alive, if_neg Bool.false_ne_true] at hstep
    split at hstep
    · cases hstep
    · next stored hstored =>
      split at hstep
      · next hrunning =>
        obtain ⟨ev, hev, hfire⟩ := Option.bind_eq_some_iff.mp hstep
        obtain ⟨hsafe, haction⟩ := hroutedAt ev hev
        exact h.onDemandFires hstored hrunning.2 hev hsafe haction hfire
      · cases hstep
  | onAccessFires unset status report now =>
    rw [step, h.alive, if_neg Bool.false_ne_true] at hstep
    obtain ⟨ev, hev, hfire⟩ := Option.bind_eq_some_iff.mp hstep
    obtain ⟨hsafe, hunset⟩ := hroutedAt ev hev
    exact h.onAccessFires hev hsafe hunset hfire

theorem start_inv : Inv realpath start := by
  constructor <;> simp [start, Rpc.start, sentTo, ownEvents]

/-- **In a run of such steps every client is sent the events of its scans,
in order, and nothing else.** -/
theorem routed_run {labels : List Label}
    (hdistinct : Transition.AllSteps (step realpath) DistinctScanIds start labels)
    (hroutedAt : Transition.AllSteps (step realpath) RoutedAt start labels)
    (hrun : Transition.run (step realpath) start labels = some s) : Routed s := by
  have hinv : Inv realpath s :=
    Transition.run_invariant_of_allSteps (P := Inv realpath)
      (fun _ _ _ h hok hstep => step_inv h hok.1 hok.2 hstep) labels start s start_inv
      (hdistinct.and hroutedAt) hrun
  exact ⟨hinv.alive, hinv.routed⟩

/-! ## One client and the on-access monitor -/

/-- A scan of the root directory. -/
def scanParams : Json :=
  .object [("root_path", .string ['/']), ("send_progress", .integer 0),
    ("recursive", .integer 1), ("threaded", .integer 0), ("scan_id", .integer 1)]

/-- The scan that is made for it. -/
def scanObject : A6oOnDemand :=
  { rootPath := ['/'], scanId := 1, flags := a6oScanRecurse, toScanCount := 0, scannedCount := 0,
    malwareCount := 0, suspiciousCount := 0, wasCancelled := 0, progressPeriod := 0,
    lastProgressTime := 0, lastProgressValue := a6oOnDemandProgressUnknown }

/-- The daemon while the scan is under way. -/
def scanDaemon : Daemon :=
  { conns := [1], onDemands := [(2, scanObject)], threads := [some 2]
    callbacks := [⟨scanEventMask ⟨['/'], 0, 1, 0, 1⟩, .scanEventCb 1 (some 2)⟩] }

/-- A file that is found. -/
def malwareReport : A6oReport :=
  { path := some ['/', 'e'], status := .malware, action := a6oActionNone,
    moduleName := some ['m'], moduleReport := some ['r'] }

/-- A detection on access whose `scan_id` is that of a scan. -/
def misrouted : EventNew.A6oEvent :=
  { timestamp := 7, u := fireRealTimeDetectionEvent 1 malwareReport }

/-- The client asks for scan 1, and the monitor finds malware. -/
def monitorRun (unset : Int64) : List Label :=
  [.daemon (.connect 1), .daemon (.scanRequest 1 2 (some scanParams)),
    .onAccessFires unset .malware malwareReport 7]

/-- The same, and the scan completes. -/
def completedRun : List Label :=
  [.daemon (.connect 1), .daemon (.scanRequest 1 2 (some scanParams)),
    .onAccessFires 99 .malware malwareReport 7, .onDemandFires 2 scanObject (.completed 5) 8]

theorem completedRun_distinct :
    Transition.AllSteps (step none) DistinctScanIds start completedRun := by
  refine ⟨trivial, fun s₁ h₁ => ⟨?_, fun _ _ => ⟨trivial, fun _ _ =>
    ⟨trivial, fun _ _ => trivial⟩⟩⟩⟩
  obtain rfl := Option.some.inj h₁
  intro p _ r hr
  cases hr

theorem completedRun_routedAt :
    Transition.AllSteps (step none) RoutedAt start completedRun := by
  refine ⟨trivial, fun s₁ h₁ => ⟨trivial, fun s₂ h₂ => ⟨?_, fun s₃ h₃ =>
    ⟨?_, fun _ _ => trivial⟩⟩⟩⟩
  · obtain rfl := Option.some.inj h₁
    obtain rfl := Option.some.inj h₂
    intro ev hev
    cases hev
    refine ⟨fun cb hcb => ?_, fun _ r hr => ?_⟩
    · obtain rfl : cb = .scanEventCb 1 (some 2) := List.mem_singleton.mp hcb
      exact ⟨2, scanObject, rfl, rfl, fun hid => absurd hid (by decide)⟩
    · obtain rfl := List.mem_singleton.mp hr
      decide
  · obtain rfl := Option.some.inj h₁
    obtain rfl := Option.some.inj h₂
    obtain rfl := Option.some.inj h₃
    intro ev hev
    cases hev
    refine ⟨fun cb hcb => ?_, fun action haction => ?_⟩
    · obtain rfl : cb = .scanEventCb 1 (some 2) := List.mem_singleton.mp hcb
      exact ⟨2, scanObject, rfl, rfl, fun _ _ => List.mem_singleton_self 1⟩
    · cases haction

theorem completed_routed :
    ∃ s, Transition.run (step none) start completedRun = some s ∧ Routed s :=
  ⟨_, rfl, routed_run completedRun_distinct completedRun_routedAt rfl⟩

/-- The unset field happens to hold the id of the scan, and the client is
told of a detection that no scan of its own made. -/
theorem unset_scanId_misrouted :
    Transition.AllSteps (step none) DistinctScanIds start (monitorRun 1) ∧
      ∃ s, Transition.run (step none) start (monitorRun 1) = some s ∧ ¬ Routed s := by
  refine ⟨⟨trivial, fun s₁ h₁ => ⟨?_, fun s₂ h₂ => ⟨trivial, fun _ _ => trivial⟩⟩⟩, _, rfl, ?_⟩
  · obtain rfl := Option.some.inj h₁
    intro p _ r hr
    cases hr
  · rintro ⟨-, hrouted⟩
    have hnew : EventNew.a6oEventNew 7 (fireRealTimeDetectionEvent 1 malwareReport) =
        .ok misrouted := rfl
    have hsent : marshalled misrouted = true :=
      (marshalled_iff hnew).mpr fun action haction => by cases haction; decide
    have hcb : sentBy scanDaemon misrouted (.scanEventCb 1 (some 2)) = _ :=
      sentBy_scanEventCb rfl rfl fun _ _ => List.mem_singleton_self 1
    rw [if_pos ⟨by decide, hsent⟩] at hcb
    have hnotify : notify scanDaemon misrouted [.scanEventCb 1 (some 2)] = _ :=
      notify_of_safe fun cb hmem => runCallback_of_safe (fun _ _ _ => rfl) <| by
        rw [List.mem_singleton.mp hmem]
        exact ⟨2, scanObject, rfl, rfl, fun _ _ => List.mem_singleton_self 1⟩
    have hnone : sentTo 1 (notify scanDaemon misrouted [.scanEventCb 1 (some 2)]).1 = [] := by
      refine hrouted 1 ?_
      rintro ⟨mask, hmem⟩
      cases List.mem_singleton.mp hmem
    rw [hnotify, List.flatMap_singleton, hcb] at hnone
    cases hnone

end Armadito.Rpc.Routing
