import Armadito.Rpc.RpcBe

/-!
# Rpc.ScanRequest

What a `scan` request can do to the daemon, for every JSON value a client
may send and every outcome of `realpath`.
-/

namespace Armadito.Rpc

open Armadito.Core Armadito.Jrpc

variable {realpath : Option (CString → Option CString)} {d : Daemon} {conn addr : Nat}

/-- The parameters a request spells out: an object with the five members,
each of its type. -/
structure ScanParams (params : Option Json) (s : A6oRpcScanParam) : Prop where
  rootPath : jsonObjectGet params "root_path" = some (.string s.rootPath)
  sendProgress : ∃ n, jsonObjectGet params "send_progress" = some (.integer n) ∧
    castInt 32 n = s.sendProgress
  recursive : ∃ n, jsonObjectGet params "recursive" = some (.integer n) ∧
    castInt 32 n = s.recursive
  threaded : ∃ n, jsonObjectGet params "threaded" = some (.integer n) ∧
    castInt 32 n = s.threaded
  scanId : ∃ n, jsonObjectGet params "scan_id" = some (.integer n) ∧
    castInt 64 n = s.scanId

theorem unmarshallScanParam_eq_ok {params : Option Json} {s : A6oRpcScanParam} :
    unmarshallScanParam params = .ok s ↔ ScanParams params s := by
  simp only [unmarshallScanParam, bind_eq_ok, structFieldString_eq_ok]
  constructor
  · rintro ⟨root, hroot, progress, hprogress, recursive, hrec, threaded, hthr, id, hid, heq⟩
    cases heq
    exact ⟨hroot, structFieldInt_eq_ok.mp hprogress, structFieldInt_eq_ok.mp hrec,
      structFieldInt_eq_ok.mp hthr, structFieldInt_eq_ok.mp hid⟩
  · intro h
    exact ⟨_, h.rootPath, _, structFieldInt_eq_ok.mpr h.sendProgress,
      _, structFieldInt_eq_ok.mpr h.recursive, _, structFieldInt_eq_ok.mpr h.threaded,
      _, structFieldInt_eq_ok.mpr h.scanId, rfl⟩

/-- A decoding that fails reports an error, not success. -/
theorem unmarshallScanParam_error {params : Option Json} {code : Int}
    (h : unmarshallScanParam params = .error code) : IsMarshallError code := by
  rcases bind_eq_error.mp h with h | ⟨_, _, h⟩
  · exact structFieldString_error h
  rcases bind_eq_error.mp h with h | ⟨_, _, h⟩
  · exact structFieldInt_error h
  rcases bind_eq_error.mp h with h | ⟨_, _, h⟩
  · exact structFieldInt_error h
  rcases bind_eq_error.mp h with h | ⟨_, _, h⟩
  · exact structFieldInt_error h
  rcases bind_eq_error.mp h with h | ⟨_, _, h⟩
  · exact structFieldInt_error h
  · cases h

theorem not_scanParams_null (s : A6oRpcScanParam) : ¬ ScanParams (some .null) s := by
  intro h
  have := h.rootPath
  cases this

variable (realpath d conn addr) in
/-- The outcomes of the method: it reads through a NULL structure, refuses
the parameters, or starts the scan. -/
theorem scanMethod_cases (params : Option Json) :
    (params = some .null ∧ scanMethod realpath d conn addr params = .error .nullDeref) ∨
    (∃ code, code ≠ jrpcOk ∧ (∀ s, ¬ ScanParams params s) ∧ params ≠ some .null ∧
      scanMethod realpath d conn addr params = .ok (code, d)) ∨
    ∃ s, ScanParams params s ∧
      scanMethod realpath d conn addr params = .ok (jrpcOk, startScan realpath d conn addr s) := by
  unfold scanMethod jrpcUnmarshallStructPtr
  by_cases hnull : params = some .null
  · subst hnull
    exact .inl ⟨rfl, rfl⟩
  · rw [if_neg (by simpa using hnull)]
    cases hdecode : unmarshallScanParam params with
    | error code =>
      refine .inr (.inl ⟨code, (unmarshallScanParam_error hdecode).ne_ok, ?_, hnull, rfl⟩)
      intro s hs
      rw [unmarshallScanParam_eq_ok.mpr hs] at hdecode
      cases hdecode
    | ok s => exact .inr (.inr ⟨s, unmarshallScanParam_eq_ok.mp hdecode, rfl⟩)

/-- The parameters determine what they spell out. -/
theorem ScanParams.unique {params : Option Json} {s s' : A6oRpcScanParam}
    (h : ScanParams params s) (h' : ScanParams params s') : s = s' := by
  have heq := (unmarshallScanParam_eq_ok.mpr h).symm.trans (unmarshallScanParam_eq_ok.mpr h')
  cases heq
  rfl

/-! ## The started scan -/

/-- The scan object takes over all five parameters. -/
structure BuiltFrom (realpath : Option (CString → Option CString)) (s : A6oRpcScanParam)
    (scan : A6oOnDemand) : Prop where
  rootPath : resolveRoot realpath s.rootPath = some scan.rootPath
  scanId : scan.scanId = s.scanId
  threaded : scan.hasFlag a6oScanThreaded = true ↔ s.threaded ≠ 0
  recursive : scan.hasFlag a6oScanRecurse = true ↔ s.recursive ≠ 0
  progress : scan.progressPeriod ≠ 0 ↔ s.sendProgress ≠ 0

theorem scanOnDemand_eq_none {s : A6oRpcScanParam} :
    scanOnDemand realpath s = none ↔
      ∃ resolve, realpath = some resolve ∧ resolve s.rootPath = none := by
  cases realpath with
  | none => simp [scanOnDemand, a6oOnDemandNew, resolveRoot]
  | some resolve => simp [scanOnDemand, a6oOnDemandNew, resolveRoot]

theorem scanOnDemand_builtFrom {s : A6oRpcScanParam} {scan : A6oOnDemand}
    (h : scanOnDemand realpath s = some scan) : BuiltFrom realpath s scan := by
  obtain ⟨root, hroot, rfl⟩ := Option.map_eq_some_iff.mp h
  constructor
  case rootPath => exact hroot
  case scanId => rfl
  case threaded =>
    by_cases ht : s.threaded = 0 <;> by_cases hr : s.recursive = 0 <;>
      simp [A6oOnDemand.hasFlag, scanFlags, ht, hr, a6oScanThreaded, a6oScanRecurse]
  case recursive =>
    by_cases ht : s.threaded = 0 <;> by_cases hr : s.recursive = 0 <;>
      simp [A6oOnDemand.hasFlag, scanFlags, ht, hr, a6oScanThreaded, a6oScanRecurse]
  case progress =>
    by_cases hp : s.sendProgress = 0 <;> simp [hp, defaultProgressPeriod]

/-- A callback with a scan object never reads through a NULL pointer. -/
theorem scanEventCb_ne_nullDeref (d : Daemon) (ev : A6oEvent) (conn addr : Nat)
    (marshalled : Bool) : scanEventCb d ev conn (some addr) marshalled ≠ .error .nullDeref := by
  intro h
  rcases bind_eq_error.mp h with h | ⟨scan, -, h⟩
  · simp only [derefOnDemand] at h
    split at h <;> cases h
  · split at h
    · cases h
    · split at h
      · cases h
      · rcases bind_eq_error.mp h with h | ⟨_, -, h⟩
        · rw [derefConn] at h
          split at h <;> cases h
        · cases h

/-- The request is refused without effect, or a scan is started on an
object built from the parameters; and no NULL pointer is read, now or by
the thread and the callback later. -/
def RequestHandled (realpath : Option (CString → Option CString)) (d : Daemon)
    (conn addr : Nat) (params : Option Json) : Prop :=
  ∃ ret d', scanMethod realpath d conn addr params = .ok (ret, d') ∧
    ((ret ≠ jrpcOk ∧ d'.callbacks = d.callbacks ∧ d'.threads = d.threads) ∨
      (ret = jrpcOk ∧ ∃ s scan onDemand, ScanParams params s ∧ BuiltFrom realpath s scan ∧
        d'.threads = d.threads ++ [onDemand] ∧
        d'.callbacks = ⟨scanEventMask s, .scanEventCb conn onDemand⟩ :: d.callbacks ∧
        scanThreadFun d' onDemand = .ok scan ∧
        ∀ later ev marshalled, scanEventCb later ev conn onDemand marshalled ≠
          .error .nullDeref))

/-- **A scan request is handled if and only if its parameters are not the
JSON null and, where `realpath` is used, it resolves the requested root.**
A request that does not spell out the five parameters is refused, so the
second condition is about those that do. -/
theorem scanMethod_handled_iff (params : Option Json) :
    RequestHandled realpath d conn addr params ↔
      params ≠ some .null ∧
      ∀ s resolve, ScanParams params s → realpath = some resolve →
        resolve s.rootPath ≠ none := by
  rcases scanMethod_cases realpath d conn addr params with
    ⟨rfl, hret⟩ | ⟨code, hcode, hno, hnull, hret⟩ | ⟨s, hs, hret⟩
  · have hnot : ¬ RequestHandled realpath d conn addr (some .null) := by
      rintro ⟨ret, d', h, _⟩
      rw [hret] at h
      cases h
    simp [hnot]
  · have hok : RequestHandled realpath d conn addr params :=
      ⟨code, d, hret, .inl ⟨hcode, rfl, rfl⟩⟩
    simp only [hok, hnull, true_iff, ne_eq, not_false_eq_true, true_and]
    exact fun s _ hs => absurd hs (hno s)
  · have hnull : params ≠ some .null := fun h => not_scanParams_null s (h ▸ hs)
    simp only [hnull, ne_eq, not_false_eq_true, true_and]
    constructor
    · -- a scan that is handled has an object, so its root was resolved
      rintro ⟨ret, d', h, hhandled⟩ s' resolve hs' hreal
      obtain rfl := hs.unique hs'
      rw [hret] at h
      cases h
      rcases hhandled with ⟨hne, -⟩ | ⟨-, _, scan, _, hs₁, hbuilt, -⟩
      · exact absurd rfl hne
      · obtain rfl := hs.unique hs₁
        have := hbuilt.rootPath
        rw [hreal] at this
        intro hnone
        rw [resolveRoot, hnone] at this
        cases this
    · intro hroot
      cases hscan : scanOnDemand realpath s with
      | none =>
        obtain ⟨resolve, hreal, hnone⟩ := scanOnDemand_eq_none.mp hscan
        exact absurd hnone (hroot s resolve hs hreal)
      | some scan =>
        refine ⟨jrpcOk, _, hret, .inr ⟨rfl, s, scan, some addr, hs,
          scanOnDemand_builtFrom hscan, ?_, ?_, ?_, ?_⟩⟩
        · simp [startScan, hscan]
        · simp [startScan, hscan, a6oEventSourceAddCb]
        · simp [scanThreadFun, derefOnDemand, startScan, hscan]
        · intro later ev marshalled
          exact scanEventCb_ne_nullDeref later ev conn addr marshalled

/-! ## Where it fails -/

/-- One client, and no scan. -/
def idleDaemon : Daemon := { conns := [1], onDemands := [], callbacks := [], threads := [] }

/-- The parameters of a scan of `/missing`. -/
def missingRootParams : Json :=
  .object [("root_path", .string "/missing".toList), ("send_progress", .integer 0),
    ("recursive", .integer 1), ("threaded", .integer 0), ("scan_id", .integer 7)]

/-- Null parameters are read through a NULL pointer. A root that `realpath`
does not find leads to a thread and a callback with no scan object. -/
theorem scanMethod_null_or_missing_root :
    scanMethod none idleDaemon 1 2 (some .null) = .error .nullDeref ∧
    ¬ RequestHandled none idleDaemon 1 2 (some .null) ∧
    (∃ d', scanMethod (some fun _ => none) idleDaemon 1 2 (some missingRootParams)
        = .ok (jrpcOk, d') ∧
      d'.threads = [none] ∧ scanThreadFun d' none = .error .nullDeref) ∧
    ¬ RequestHandled (some fun _ => none) idleDaemon 1 2 (some missingRootParams) := by
  refine ⟨rfl, ?_, ⟨_, rfl, rfl, rfl⟩, ?_⟩
  · rintro ⟨ret, d', h, _⟩
    cases h
  · rintro ⟨ret, d', h, hhandled⟩
    cases h
    rcases hhandled with ⟨hne, -⟩ | ⟨-, s, scan, onDemand, -, -, hthreads, -, hrun, -⟩
    · exact absurd rfl hne
    · -- the only thread that was started runs on NULL
      have hnone : [none] = [onDemand] := hthreads
      cases hnone
      cases hrun

end Armadito.Rpc
