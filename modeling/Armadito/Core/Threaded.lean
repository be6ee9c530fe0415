import Mathlib.Data.List.ReduceOption
import Armadito.Core.Races

/-!
# Core.Threaded

A scan with and without `A6O_SCAN_THREADED`, over one tree of files.

Both modes reach the same plain files. A threaded scan leaves out those
`realpath` cannot resolve; the other mode calls `scan_file` with a NULL
path, counts the file, and destroys a context that was never filled. Only a
threaded scan can come to a race.
-/

namespace Armadito.Core.Pool

open Armadito.Os EventNew Producers Tally

/-! ## The files of a scan -/

/-- What `os_file_stat` finds at the root. -/
inductive Root where
  | plainFile
  | directory (d : Dir)
  | other

/-- What `a6o_on_demand_run` hands over. -/
def runHandOvers (sys : PathCalls) (o : A6oOnDemand) : Root → List HandOver
  | .plainFile => handOver o (some o.rootPath)
  | .directory d =>
    (osDirMap sys (o.hasFlag a6oScanRecurse) (scanEntry o) o.rootPath d []).2
  | .other => []

/-- Notes the plain files and returns what `scan_entry` returns. -/
def noteEntry : DirentCb (List CString) :=
  fun path flags _ log =>
    if flags.test .isError then (1, log)
    else if !flags.test .isPlainFile then (1, log)
    else (0, log ++ path.toList)

/-- The plain files the walk reaches, before `realpath`. -/
def reached (sys : PathCalls) (recurse : Bool) (root : CString) (d : Dir) : List CString :=
  (osDirMap { sys with realpath := some } recurse noteEntry root d []).2

/-- Their paths; `none` is a file that cannot be resolved. -/
def filesOf (sys : PathCalls) (o : A6oOnDemand) : Root → List (Option CString)
  | .plainFile => [some o.rootPath]
  | .directory d => (reached sys (o.hasFlag a6oScanRecurse) o.rootPath d).map sys.realpath
  | .other => []

/-- **Both modes walk alike**; they differ in what they hand over. -/
theorem runHandOvers_eq (sys : PathCalls) (o : A6oOnDemand) (root : Root) :
    runHandOvers sys o root = (filesOf sys o root).flatMap (handOver o) := by
  cases root with
  | plainFile => simp [runHandOvers, filesOf]
  | other => rfl
  | directory d =>
    rw [runHandOvers, filesOf, reached, List.flatMap_map]
    refine (@osDirMap_rel _ _ sys { sys with realpath := some } (scanEntry o) noteEntry
      (fun log names => log = names.flatMap fun p => handOver o (sys.realpath p))
      (o.hasFlag a6oScanRecurse) rfl ?_ ?_ o.rootPath d [] [] rfl).2
    · intro p errno log names h
      rw [scanEntry_error]
      exact ⟨rfl, h⟩
    · intro p t log names h
      subst h
      cases t <;> simp [scanEntry, noteEntry, direntFlags, a6oOnDemandIsCancelled]

theorem handOver_fits {o : A6oOnDemand} {path : Option CString} {h : HandOver}
    (hh : h ∈ handOver o path) : o.fits h := by
  cases ht : o.hasFlag a6oScanThreaded with
  | true =>
    cases path with
    | none => simp [handOver, ht] at hh
    | some p =>
      obtain rfl : h = .poolPush p := by simpa [handOver, ht] using hh
      exact ht
  | false =>
    obtain rfl : h = .scanFile path := by simpa [handOver, ht] using hh
    show (!o.hasFlag a6oScanThreaded) = true
    rw [ht]
    rfl

theorem runHandOvers_fits {sys : PathCalls} {o : A6oOnDemand} {root : Root}
    {h : HandOver} (hh : h ∈ runHandOvers sys o root) : o.fits h := by
  rw [runHandOvers_eq] at hh
  obtain ⟨path, -, hpath⟩ := List.mem_flatMap.mp hh
  exact handOver_fits hpath

theorem runHandOvers_threaded {sys : PathCalls} {o : A6oOnDemand} {root : Root}
    (h : o.hasFlag a6oScanThreaded = true) :
    runHandOvers sys o root = (filesOf sys o root).reduceOption.map .poolPush := by
  rw [runHandOvers_eq]
  induction filesOf sys o root with
  | nil => rfl
  | cons path paths ih =>
    rw [List.flatMap_cons, ih]
    cases path <;> simp [handOver, h]

theorem runHandOvers_sequential {sys : PathCalls} {o : A6oOnDemand} {root : Root}
    (h : o.hasFlag a6oScanThreaded = false) :
    (runHandOvers sys o root).map HandOver.path = filesOf sys o root := by
  rw [runHandOvers_eq]
  induction filesOf sys o root with
  | nil => rfl
  | cons path paths ih =>
    rw [List.flatMap_cons, List.map_append, ih]
    simp [handOver, h, HandOver.path]

/-! ## Outcomes -/

/-- How a run ends: with the death of the process, in a race after which
nothing is known, or with the totals of its completed event and the
detections it has fired. -/
inductive Outcome where
  | aborted
  | undefined
  | completed (totalScanned totalMalware totalSuspicious : UInt64)
      (detections : Multiset A6oEventUnion)

/-- How a run has ended. -/
inductive Ends (s : State) : Outcome → Prop where
  | aborted (f : Fault) (h : s.stopped = some (.died f)) : Ends s .aborted
  | undefined (h : s.stopped = some .raced) : Ends s .undefined
  | completed (e : EventNew.A6oEvent) (ev : A6oOnDemandCompletedEvent) (he : e ∈ s.log)
    (hev : e.u = .evOnDemandCompleted ev) :
    Ends s (.completed ev.totalScannedCount ev.totalMalwareCount ev.totalSuspiciousCount
      (detectionsOf s.log))

/-- `a6o_on_demand_run` over the files of `w` and the tree at the root may
end like this: the files are handed over as the walk comes to them, and a
completed run has handed over all of them. -/
def Produces (w : World) (sys : PathCalls) (root : Root) (o : A6oOnDemand)
    (conf : A6oScanConf) (out : Outcome) : Prop :=
  ∃ time labels s,
    Transition.Reaches step (ScansWith w.Answers) (start o conf time) labels s ∧
    (handedOver labels).IsPrefix (runHandOvers sys o root) ∧
    (s.completed → handedOver labels = runHandOvers sys o root) ∧ Ends s out

/-- The outcome that the reports on the files add up to. -/
def expected (w : World) (conf : A6oScanConf) (o : A6oOnDemand)
    (paths : List (Option CString)) : Outcome :=
  .completed (countToSize (.ofNat paths.length))
    (countToSize (.ofNat (paths.countP fun p => (reportFor w conf p).status = .malware)))
    (countToSize (.ofNat (paths.countP fun p => (reportFor w conf p).status = .suspicious)))
    (total (fun p => detectionOf o (reportFor w conf p)) paths)

section

variable {w : World} {conf : A6oScanConf}

theorem Task.Sound.report {t : Task} (ht : t.Sound w conf) (hdone : t.isDone) :
    ∃ scan, t = .done scan ∧ scan.report = reportFor w conf t.path ∧
      ∀ p, t.path = some p → ¬ Crashes w conf p := by
  cases t with
  | done scan => exact ⟨scan, rfl, ht⟩
  | _ => simp [Task.isDone] at hdone

theorem countP_hasStatus {tasks : List Task} (hsound : ∀ t ∈ tasks, t.Sound w conf)
    (hdone : tasks.all Task.isDone) (status : A6oFileStatus) :
    tasks.countP (Task.hasStatus status)
      = (tasks.map Task.path).countP fun p => (reportFor w conf p).status = status := by
  rw [List.countP_map]
  refine List.countP_congr ?_
  intro t ht
  obtain ⟨scan, rfl, hreport, -⟩ :=
    (hsound t ht).report (List.all_eq_true.mp hdone t ht)
  simp only [Task.hasStatus, Function.comp, hreport]

theorem total_detections {o : A6oOnDemand} {tasks : List Task}
    (hsound : ∀ t ∈ tasks, t.Sound w conf) (hdone : tasks.all Task.isDone) :
    total (Task.detections o) tasks
      = total (fun p => detectionOf o (reportFor w conf p)) (tasks.map Task.path) := by
  rw [total, total, List.map_map]
  congr 1
  refine List.map_congr_left ?_
  intro t ht
  obtain ⟨scan, rfl, hreport, -⟩ :=
    (hsound t ht).report (List.all_eq_true.mp hdone t ht)
  simp only [Task.detections, Function.comp, hreport]

theorem MayRace.of_prefix {paths paths' : List CString} (hpre : paths.IsPrefix paths')
    (h : MayRace w conf paths) : MayRace w conf paths' := by
  obtain ⟨rest, rfl⟩ := hpre
  obtain ⟨before, a, mid, b, after, rfl, hpair⟩ := h
  exact ⟨before, a, mid, b, after ++ rest, by simp, hpair⟩

/-- The files that a run hands over, those without a path left out. -/
def handedPaths (sys : PathCalls) (o : A6oOnDemand) (root : Root) : List CString :=
  (runHandOvers sys o root).filterMap HandOver.path

/-- **A run ends in one of three ways**, whatever the order of its steps. -/
theorem Produces.cases {sys : PathCalls} {root : Root} {o : A6oOnDemand}
    {out : Outcome} (hzero : o.scannedCount = 0 ∧ o.malwareCount = 0 ∧ o.suspiciousCount = 0)
    (hmodules : ModulesFileOnly conf) (h : Produces w sys root o conf out) :
    (out = .aborted ∧
      ∃ p ∈ (runHandOvers sys o root).map HandOver.path, MayAbort w conf p) ∨
    (out = .undefined ∧ o.threaded ∧ MayRace w conf (handedPaths sys o root)) ∨
    (out = expected w conf o ((runHandOvers sys o root).map HandOver.path) ∧
      ∀ p, some p ∈ (runHandOvers sys o root).map HandOver.path → ¬ Crashes w conf p) := by
  obtain ⟨time, labels, s, hreach, hpre, hall, hends⟩ := h
  have hfixed := fixedInv_run hmodules hreach
  have hpaths := tasks_path hreach.1
  cases hends with
  | aborted f hstopped =>
    obtain ⟨-, t, ht, hmay⟩ | - := hfixed.stopped _ hstopped
    refine .inl ⟨rfl, t.path, ?_, hmay⟩
    have hmem : t.path ∈ s.tasks.map Task.path := List.mem_map_of_mem ht
    rw [hpaths] at hmem
    exact (hpre.map HandOver.path).subset hmem
  | undefined hstopped =>
    obtain - | ⟨hthreaded, hrace⟩ := hfixed.stopped _ hstopped
    refine .inr (.inl ⟨rfl, hthreaded, hrace.of_prefix ?_⟩)
    have htasks : s.tasks.filterMap Task.path = (handedOver labels).filterMap HandOver.path := by
      simpa [List.reduceOption, List.filterMap_map] using congrArg List.reduceOption hpaths
    rw [htasks]
    exact hpre.filterMap HandOver.path
  | completed e ev he hev =>
    have hinv := inv_run hzero.1 hzero.2.1 hzero.2.2 hreach.1
    obtain ⟨hcompleted, hdone, hscanned, hmalware, hsuspicious⟩ := hinv.completed e he ev hev
    rw [← hall hcompleted, ← hpaths]
    refine .inr (.inr ⟨?_, ?_⟩)
    · rw [expected, hscanned, hmalware, hsuspicious, hfixed.detections,
        total_scanned_of_done hdone, total_withStatus_of_done hdone,
        total_withStatus_of_done hdone, countP_hasStatus hfixed.sound hdone,
        countP_hasStatus hfixed.sound hdone, total_detections hfixed.sound hdone,
        List.length_map]
    · intro p hp
      obtain ⟨t, ht, htp⟩ := List.mem_map.mp hp
      obtain ⟨scan, -, -, hcrash⟩ :=
        (hfixed.sound t ht).report (List.all_eq_true.mp hdone t ht)
      exact hcrash p htp

/-! ## Every outcome is reached -/

theorem World.answers_none (w : World) (env : Env) : w.Answers env none := nofun

theorem not_notCopied_ierror :
    ¬ NotCopied (a6oReportChange (a6oReportInit none) .ierror none none) := by
  rintro ⟨hmust, -⟩
  exact absurd hmust (by decide)

/-- A file that does not end the process can be scanned to the end. -/
theorem scan_returns {conf' : A6oScanConf} (hmodules : ModulesFileOnly conf)
    (hsame : SameAnswers conf conf') {path : Option CString}
    (hclean : ∀ p, path = some p → ¬ Crashes w conf p) :
    ∃ env scan conf'', w.Answers env path ∧ ScanReturns env conf' path scan conf'' ∧
      a6oScanContextDestroy scan = .ok () ∧ SameAnswers conf conf'' := by
  cases path with
  | none =>
    refine ⟨w.env (contextInit (-1)) [], _, conf', w.answers_none _,
      ⟨scanFile_none _ _, fun o => fireDetected_ok _ o not_notCopied_ierror⟩, ?_, hsame⟩
    rfl
  | some p => exact scan_returns_some hmodules hsame (hclean p rfl)

/-- A file that may end the process can do so. -/
theorem abort_one {s : State} (hs : s.Quiet) {h : HandOver} (haccepts : s.accepts h)
    (hmodules : ModulesFileOnly conf) (hsame : SameAnswers conf s.conf)
    (hmay : MayAbort w conf h.path) :
    ∃ labels s' f, Transition.Reaches step (ScansWith w.Answers) s labels s' ∧
      handedOver labels = [h] ∧ s'.stopped = some (.died f) ∧ s'.completed = false := by
  cases hpath : h.path with
  | none =>
    -- the stack holds a pointer where the context's path will be
    let stack : A6oScanContext := { contextInit (-1) with path := some [] }
    let scan : Scan := ⟨none, { stack with status := .fileOpenError },
      a6oReportChange (a6oReportInit none) .ierror none none⟩
    have hscan : ScanReturns (w.env stack []) s.conf h.path scan s.conf := by
      rw [hpath]
      exact ⟨scanFile_none _ _, fun o => fireDetected_ok _ o not_notCopied_ierror⟩
    obtain ⟨labels, s', hreach, hhanded, hlive, htasks, -, -⟩ :=
      scan_update hs haccepts hscan (hpath ▸ w.answers_none _)
    have ht : s'.tasks[s.tasks.length]? = some (.running scan .progressUpdated) := by
      simp [htasks]
    have hend : taskStep (w.env stack []) s'.onDemand s'.conf (.running scan .progressUpdated)
        = some (.error .useAfterFree) := rfl
    refine ⟨_, _, .useAfterFree, hreach.append (.cons (scansWith_running ht)
      (step_thread hlive ht hend rfl) (.refl _)), ?_, rfl, hlive.completed⟩
    rw [handedOver_append, hhanded]
    rfl
  | some p =>
    have hw := w.env_answers (contextInit (-1)) p
    rw [hpath] at hmay
    have herror : ∃ f, taskStep (w.env (contextInit (-1)) p) s.onDemand s.conf
        (.queued h.path) = some (.error f) := by
      rw [hpath]
      have hreport := scanFile_report hw (modulesFileOnly_congr hsame hmodules)
      rw [fileReport_congr hsame] at hreport
      simp only [taskStep]
      cases hscan : scanFile (w.env (contextInit (-1)) p) s.conf (some p) with
      | error f => exact ⟨f, rfl⟩
      | ok r =>
        obtain ⟨scan, conf'⟩ := r
        rw [hscan] at hreport
        rcases hmay with ⟨f, hf⟩ | ⟨report, hrep, hnot⟩
        · rw [hf] at hreport
          cases hreport
        · rw [hrep] at hreport
          have hsame : scan.report = report := Except.ok.inj hreport
          obtain ⟨f, hf⟩ := fireDetected_error (w.env (contextInit (-1)) p) s.onDemand hnot
          refine ⟨f, ?_⟩
          show some (fireDetected _ s.onDemand scan.report >>= _) = _
          rw [hsame, hf]
          rfl
    obtain ⟨f, hf⟩ := herror
    exact ⟨_, _, f, hand_over hs haccepts (hpath ▸ hw) hf, rfl, rfl, hs.completed⟩

/-- One of the files ends the process; those before it are scanned. -/
theorem abort_some (hmodules : ModulesFileOnly conf) :
    ∀ (hs : List HandOver) (s : State), s.Idle → SameAnswers conf s.conf →
      (∀ h ∈ hs, s.onDemand.fits h) → (∃ h ∈ hs, MayAbort w conf h.path) →
      ∃ labels s' f, Transition.Reaches step (ScansWith w.Answers) s labels s' ∧
        (handedOver labels).IsPrefix hs ∧ s'.stopped = some (.died f) ∧
        s'.completed = false := by
  intro hs
  induction hs with
  | nil =>
    rintro s - - - ⟨h, hh, -⟩
    cases hh
  | cons h hs ih =>
    intro s hidle hsame hfits hex
    have haccepts := hidle.accepts (hfits h List.mem_cons_self)
    by_cases hmay : MayAbort w conf h.path
    · obtain ⟨labels, s', f, hreach, hhanded, hstopped, hopen⟩ :=
        abort_one hidle.quiet haccepts hmodules hsame hmay
      refine ⟨labels, s', f, hreach, ?_, hstopped, hopen⟩
      rw [hhanded]
      exact ⟨hs, rfl⟩
    · have hclean : ∀ p, h.path = some p → ¬ Crashes w conf p := by
        intro p hp hcrash
        rw [hp] at hmay
        exact hmay hcrash
      obtain ⟨env, scan, conf', hgood, hscan, hdestroy, hsame'⟩ :=
        scan_returns hmodules hsame hclean
      obtain ⟨labels, s₁, hreach, hhanded, hlive, htasks, hconf, hflags⟩ :=
        scan_one hidle.quiet haccepts hscan hdestroy hgood
      have hidle₁ : s₁.Idle := ⟨hlive, by simp [htasks, hidle.done, Task.isDone]⟩
      have hex₁ : ∃ g ∈ hs, MayAbort w conf g.path := by
        obtain ⟨g, hg, hgmay⟩ := hex
        rcases List.mem_cons.mp hg with rfl | hg
        · exact absurd hgmay hmay
        · exact ⟨g, hg, hgmay⟩
      obtain ⟨labels', s', f, hreach', hpre, hstopped, hopen⟩ :=
        ih s₁ hidle₁ (hconf ▸ hsame') (fits_tail hflags hfits) hex₁
      refine ⟨labels ++ labels', s', f, hreach.append hreach', ?_, hstopped, hopen⟩
      rw [handedOver_append, hhanded, List.singleton_append]
      exact (List.cons_prefix_cons).mpr ⟨rfl, hpre⟩

theorem start_idle (o : A6oOnDemand) (conf : A6oScanConf) (time : Int64) :
    (start o conf time).Idle :=
  ⟨⟨rfl, rfl⟩, rfl⟩

theorem produces_aborted {sys : PathCalls} {root : Root} {o : A6oOnDemand}
    (hmodules : ModulesFileOnly conf)
    (h : ∃ p ∈ (runHandOvers sys o root).map HandOver.path, MayAbort w conf p) :
    Produces w sys root o conf .aborted := by
  obtain ⟨p, hp, hmay⟩ := h
  obtain ⟨f, hf, rfl⟩ := List.mem_map.mp hp
  obtain ⟨labels, s, fault, hreach, hpre, hstopped, hopen⟩ :=
    abort_some hmodules (runHandOvers sys o root) (start o conf 0) (start_idle o conf 0)
      (.refl conf) (fun h hh => runHandOvers_fits hh) ⟨f, hf, hmay⟩
  refine ⟨0, labels, s, hreach, hpre, ?_, .aborted fault hstopped⟩
  intro hcompleted
  rw [hopen] at hcompleted
  cases hcompleted

theorem produces_undefined {sys : PathCalls} {root : Root} {o : A6oOnDemand}
    (hmodules : ModulesFileOnly conf) (hthreaded : o.threaded)
    (h : MayRace w conf (handedPaths sys o root)) :
    Produces w sys root o conf .undefined := by
  have hpushes : runHandOvers sys o root = (handedPaths sys o root).map .poolPush := by
    rw [handedPaths, runHandOvers_threaded hthreaded, List.filterMap_map]
    exact congrArg _ (List.filterMap_some).symm
  have hs : Waiting conf (start o conf 0) := ⟨(start_idle o conf 0).quiet, hthreaded, rfl⟩
  obtain ⟨labels, s, hreach, hpre, hstopped, hopen⟩ := race_reached hs rfl hmodules h
  refine ⟨0, labels, s, hreach, hpushes ▸ hpre, ?_, .undefined hstopped⟩
  intro hcompleted
  rw [hopen] at hcompleted
  cases hcompleted

theorem produces_completed {sys : PathCalls} {root : Root} {o : A6oOnDemand}
    (hmodules : ModulesFileOnly conf)
    (h : ∀ p, some p ∈ (runHandOvers sys o root).map HandOver.path → ¬ Crashes w conf p) :
    ∃ a b c d, Produces w sys root o conf (.completed a b c d) := by
  obtain ⟨labels, s, hreach, hhanded, hidle, -, -⟩ :=
    @scan_all w.Answers (SameAnswers conf) (runHandOvers sys o root)
      (start o conf 0) (start_idle o conf 0) (.refl conf) (fun h hh => runHandOvers_fits hh)
      fun f hf conf' hsame => scan_returns hmodules hsame fun p hp =>
        h p (hp ▸ List.mem_map_of_mem hf)
  have hlabels : handedOver (labels ++ [.complete 0 0]) = runHandOvers sys o root := by
    rw [handedOver_append, hhanded]
    exact List.append_nil _
  exact ⟨_, _, _, _, 0, _, _, hreach.append (complete_idle hidle 0 0), hlabels ▸ List.prefix_rfl,
    fun _ => hlabels,
    .completed _ _ (List.mem_append_right _ (List.mem_singleton.mpr rfl)) rfl⟩

/-- **How a run can end**, in either mode. -/
theorem produces_iff {sys : PathCalls} {root : Root} {o : A6oOnDemand} {out : Outcome}
    (hzero : o.scannedCount = 0 ∧ o.malwareCount = 0 ∧ o.suspiciousCount = 0)
    (hmodules : ModulesFileOnly conf) :
    Produces w sys root o conf out ↔
      (out = .aborted ∧
        ∃ p ∈ (runHandOvers sys o root).map HandOver.path, MayAbort w conf p) ∨
      (out = .undefined ∧ o.threaded ∧ MayRace w conf (handedPaths sys o root)) ∨
      (out = expected w conf o ((runHandOvers sys o root).map HandOver.path) ∧
        ∀ p, some p ∈ (runHandOvers sys o root).map HandOver.path → ¬ Crashes w conf p) := by
  constructor
  · exact Produces.cases hzero hmodules
  · rintro (⟨rfl, h⟩ | ⟨rfl, hthreaded, h⟩ | ⟨rfl, h⟩)
    · exact produces_aborted hmodules h
    · exact produces_undefined hmodules hthreaded h
    · obtain ⟨a, b, c, d, hprod⟩ := produces_completed hmodules h
      rcases hprod.cases hzero hmodules with ⟨heq, -⟩ | ⟨heq, -⟩ | ⟨heq, -⟩
      · cases heq
      · cases heq
      · exact heq ▸ hprod

end

/-! ## The two modes -/

/-- `enum a6o_scan_flags`. -/
def scanFlags (threaded recurse : Bool) : Nat :=
  (if threaded then a6oScanThreaded else 0) ||| (if recurse then a6oScanRecurse else 0)

theorem scanFlags_recurse (threaded recurse : Bool) :
    (scanFlags threaded recurse &&& a6oScanRecurse != 0) = recurse := by
  cases threaded <;> cases recurse <;> rfl

theorem scanFlags_threaded (threaded recurse : Bool) :
    (scanFlags threaded recurse &&& a6oScanThreaded != 0) = threaded := by
  cases threaded <;> cases recurse <;> rfl

/-- The scan objects of the two modes differ in the flag. -/
structure TwoModes (oT oS : A6oOnDemand) : Prop where
  threaded : oT.hasFlag a6oScanThreaded = true
  sequential : oS.hasFlag a6oScanThreaded = false
  recurse : oT.hasFlag a6oScanRecurse = oS.hasFlag a6oScanRecurse
  rootPath : oT.rootPath = oS.rootPath
  scanId : oT.scanId = oS.scanId
  zeroT : oT.scannedCount = 0 ∧ oT.malwareCount = 0 ∧ oT.suspiciousCount = 0
  zeroS : oS.scannedCount = 0 ∧ oS.malwareCount = 0 ∧ oS.suspiciousCount = 0

theorem twoModes_new {realpath : Option (CString → Option CString)} {rootPath : CString}
    {scanId sendProgress : Int} {recurse : Bool} {oT oS : A6oOnDemand}
    (hT : a6oOnDemandNew realpath rootPath scanId (scanFlags true recurse) sendProgress
      = some oT)
    (hS : a6oOnDemandNew realpath rootPath scanId (scanFlags false recurse) sendProgress
      = some oS) : TwoModes oT oS := by
  obtain ⟨root, hroot, rfl⟩ := Option.map_eq_some_iff.mp hT
  obtain ⟨root', hroot', rfl⟩ := Option.map_eq_some_iff.mp hS
  obtain rfl : root = root' := Option.some.inj (hroot.symm.trans hroot')
  exact ⟨scanFlags_threaded true recurse, scanFlags_threaded false recurse,
    (scanFlags_recurse true recurse).trans (scanFlags_recurse false recurse).symm, rfl, rfl,
    ⟨rfl, rfl, rfl⟩, ⟨rfl, rfl, rfl⟩⟩

section

variable {w : World} {conf : A6oScanConf} {sys : PathCalls} {root : Root}
variable {oT oS : A6oOnDemand}

theorem TwoModes.filesOf (h : TwoModes oT oS) :
    filesOf sys oT root = filesOf sys oS root := by
  cases root with
  | plainFile => simp only [Pool.filesOf, h.rootPath]
  | directory d => simp only [Pool.filesOf, h.rootPath, h.recurse]
  | other => rfl

theorem TwoModes.expected (h : TwoModes oT oS) (paths : List (Option CString)) :
    expected w conf oT paths = expected w conf oS paths := by
  have hcongr : (fun p => detectionOf oT (reportFor w conf p))
      = fun p => detectionOf oS (reportFor w conf p) :=
    funext fun p => detectionOf_congr h.scanId _
  simp only [Pool.expected, hcongr]

theorem map_some_reduceOption {α : Type} {l : List (Option α)} (h : ∀ x ∈ l, x ≠ none) :
    l.reduceOption.map some = l := by
  induction l with
  | nil => rfl
  | cons x xs ih =>
    have ih := ih fun y hy => h y (List.mem_cons_of_mem _ hy)
    cases x with
    | none => exact absurd rfl (h none List.mem_cons_self)
    | some x => rw [List.reduceOption_cons_of_some, List.map_cons, ih]

theorem TwoModes.handedPaths_threaded (h : TwoModes oT oS) :
    handedPaths sys oT root = (Pool.filesOf sys oS root).reduceOption := by
  rw [handedPaths, runHandOvers_threaded h.threaded, h.filesOf, List.filterMap_map]
  exact List.filterMap_some

theorem TwoModes.not_threaded (h : TwoModes oT oS) : ¬ oS.threaded := by
  simp [A6oOnDemand.threaded, h.sequential]

/-- **Threaded and non-threaded scans agree exactly when no two threads can
meet in the cache of the MIME types and every plain file the walk reaches
can be resolved**, or one of them ends the process in both modes. -/
theorem modes_agree_iff {realpath : Option (CString → Option CString)} {rootPath : CString}
    {scanId sendProgress : Int} {recurse : Bool}
    (hT : a6oOnDemandNew realpath rootPath scanId (scanFlags true recurse) sendProgress
      = some oT)
    (hS : a6oOnDemandNew realpath rootPath scanId (scanFlags false recurse) sendProgress
      = some oS)
    (hmodules : ModulesFileOnly conf) :
    (∀ out, Produces w sys root oT conf out ↔ Produces w sys root oS conf out) ↔
      ¬ MayRace w conf (filesOf sys oS root).reduceOption ∧
        ((∀ p ∈ filesOf sys oS root, p ≠ none) ∨
          ∃ p, some p ∈ filesOf sys oS root ∧ Crashes w conf p) := by
  have hmodes := twoModes_new hT hS
  have hhandedT := @TwoModes.handedPaths_threaded sys root oT oS hmodes
  have hpathsT : (runHandOvers sys oT root).map HandOver.path
      = (filesOf sys oS root).reduceOption.map some := by
    rw [runHandOvers_threaded hmodes.threaded, hmodes.filesOf, List.map_map]
    rfl
  have hpathsS := @runHandOvers_sequential sys oS root hmodes.sequential
  have hmemT : ∀ p, some p ∈ (runHandOvers sys oT root).map HandOver.path ↔
      some p ∈ filesOf sys oS root := by
    intro p
    simp [hpathsT, List.reduceOption_mem_iff]
  constructor
  · intro hagree
    refine ⟨fun hrace => ?_, ?_⟩
    · have hT' := produces_undefined hmodules hmodes.threaded (hhandedT ▸ hrace)
      rcases ((hagree .undefined).mp hT').cases hmodes.zeroS hmodules with
        ⟨heq, -⟩ | ⟨-, hthreaded, -⟩ | ⟨heq, -⟩
      · cases heq
      · exact hmodes.not_threaded hthreaded
      · cases heq
    · by_contra hcond
      obtain ⟨hnone, hcrash⟩ := not_or.mp hcond
      -- without a pool the file without a path may end the process
      have hS' : Produces w sys root oS conf .aborted := by
        refine produces_aborted hmodules ⟨none, ?_, trivial⟩
        rw [hpathsS]
        by_contra hmem
        exact hnone fun p hp hpn => hmem (hpn ▸ hp)
      rcases ((hagree .aborted).mpr hS').cases hmodes.zeroT hmodules with
        ⟨-, p, hp, hmay⟩ | ⟨heq, -⟩ | ⟨heq, -⟩
      · cases p with
        | none => simp [hpathsT] at hp
        | some p => exact hcrash ⟨p, (hmemT p).mp hp, hmay⟩
      · cases heq
      · cases heq
  · rintro ⟨hrace, hfiles⟩ out
    rw [produces_iff hmodes.zeroT hmodules, produces_iff hmodes.zeroS hmodules, hhandedT]
    have hno : ¬ (out = .undefined ∧ oT.threaded ∧
        MayRace w conf (filesOf sys oS root).reduceOption) := fun h => hrace h.2.2
    have hno' : ¬ (out = .undefined ∧ oS.threaded ∧ MayRace w conf (handedPaths sys oS root)) :=
      fun h => hmodes.not_threaded h.2.1
    rw [or_iff_right hno, or_iff_right hno']
    rcases hfiles with hall | ⟨p, hp, hcrash⟩
    · have hsame : (runHandOvers sys oT root).map HandOver.path
          = (runHandOvers sys oS root).map HandOver.path := by
        rw [hpathsT, hpathsS, map_some_reduceOption hall]
      rw [hsame, hmodes.expected]
    · have hT' := (hmemT p).mpr hp
      have hS' : some p ∈ (runHandOvers sys oS root).map HandOver.path := hpathsS ▸ hp
      constructor
      · rintro (⟨rfl, -⟩ | ⟨-, hclean⟩)
        · exact .inl ⟨rfl, some p, hS', hcrash⟩
        · exact absurd hcrash (hclean p hT')
      · rintro (⟨rfl, -⟩ | ⟨-, hclean⟩)
        · exact .inl ⟨rfl, some p, hT', hcrash⟩
        · exact absurd hcrash (hclean p hS')

end

/-! ## Two files in a directory -/

/-- A directory with one file. -/
def oneFileDir : Root :=
  .directory (.opened (.leaf "f".toList .reg DType.reg_ne_dir .endOfDir))

/-- A directory with two files. -/
def twoFilesDir : Root :=
  .directory (.opened (.leaf "f".toList .reg DType.reg_ne_dir
    (.leaf "g".toList .reg DType.reg_ne_dir .endOfDir)))

/-- `realpath` fails on every entry. -/
def unresolved : PathCalls :=
  { asprintf := fun path name => some (joinPath path name), realpath := fun _ => none }

/-- Files of which no type is known. -/
def untypedWorld : World :=
  { openable := fun _ => true, mimeType := fun _ => none, seekOk := fun _ _ => true }

/-- Files that are plain text. -/
def textWorld : World := { untypedWorld with mimeType := fun _ => some "text/plain".toList }

/-- An earlier scan has looked the type up. -/
def warmConf : A6oScanConf :=
  cacheInsert detectConf "text/plain".toList (some [detectAll])

/-- A recursive scan, with threads or without. -/
def modeScan (threaded : Bool) : A6oOnDemand :=
  { recursiveScan with flags := scanFlags threaded true }

theorem modeScan_new (threaded : Bool) :
    a6oOnDemandNew none "/r".toList 1 (scanFlags threaded true) 0
      = some (modeScan threaded) := rfl

theorem poolConf_fileOnly : ModulesFileOnly poolConf := by
  intro mimeType modules h
  cases h

theorem detectConf_fileOnly : ModulesFileOnly detectConf := by
  intro mimeType modules h m hm
  have hmodules : modules = [detectAll] := by
    by_cases htype : mimeType = "text/plain".toList
    · subst htype
      exact (Option.some.inj (Except.ok.inj h)).symm
    · have hmime : mimeTypeContains detectConf.mimeTypes mimeType = false := by
        show (decide ("text/plain".toList = mimeType)
          || decide ("text/plain".toList = "*".toList) || false) = false
        rw [decide_eq_false (Ne.symm htype)]
        rfl
      have hlookup : detectConf.mimeTypeCache.lookup mimeType = none := rfl
      rw [answers, a6oScanConfGetApplicableModules, hlookup, hmime] at h
      cases h
  rw [hmodules] at hm
  obtain rfl := List.mem_singleton.mp hm
  rintro scanFun ⟨⟩ fd fd' path mime
  rfl

theorem warmConf_fileOnly : ModulesFileOnly warmConf :=
  modulesFileOnly_congr (sameAnswers_insert rfl) detectConf_fileOnly

theorem modes_agree_warm :
    (filesOf plainPathCalls (modeScan false) twoFilesDir).length = 2 ∧
    ∀ out, Produces textWorld plainPathCalls twoFilesDir (modeScan true) warmConf out ↔
      Produces textWorld plainPathCalls twoFilesDir (modeScan false) warmConf out := by
  refine ⟨rfl, ?_⟩
  refine (modes_agree_iff (modeScan_new true) (modeScan_new false) warmConf_fileOnly).mpr
    ⟨?_, .inl ?_⟩
  · rintro ⟨before, a, mid, b, after, -, hpair⟩
    have hnot : ∀ path, ¬ Inserts textWorld warmConf path := by
      rintro path ⟨mimeType, hlookUp, hins⟩
      obtain rfl : mimeType = "text/plain".toList := by
        simpa [World.lookUp, textWorld, untypedWorld, a6oScanConfIsWhiteListed, warmConf,
          cacheInsert, detectConf, poolConf] using hlookUp.symm
      exact absurd hins (by decide)
    rcases hpair.inserts with hins | hins
    · exact hnot a hins
    · exact hnot b hins
  · decide

/-- A file that cannot be resolved: the threaded scan counts nothing, the
other one counts a file. -/
theorem modes_differ :
    Produces untypedWorld unresolved oneFileDir (modeScan true) poolConf
        (.completed 0 0 0 0) ∧
      ¬ Produces untypedWorld unresolved oneFileDir (modeScan false) poolConf
        (.completed 0 0 0 0) ∧
      Produces untypedWorld unresolved oneFileDir (modeScan false) poolConf
        (.completed 1 0 0 0) := by
  have hzero : ∀ threaded, (modeScan threaded).scannedCount = 0 ∧
      (modeScan threaded).malwareCount = 0 ∧ (modeScan threaded).suspiciousCount = 0 :=
    fun _ => ⟨rfl, rfl, rfl⟩
  have hS : expected untypedWorld poolConf (modeScan false) [none]
      = .completed 1 0 0 0 := rfl
  refine ⟨?_, ?_, ?_⟩
  · refine (produces_iff (hzero true) poolConf_fileOnly).mpr (.inr (.inr ⟨rfl, ?_⟩))
    rintro p hp
    cases hp
  · intro h
    rcases h.cases (hzero false) poolConf_fileOnly with ⟨heq, -⟩ | ⟨heq, -⟩ | ⟨heq, -⟩
    · cases heq
    · cases heq
    · have heq' : Outcome.completed 0 0 0 0 = .completed 1 0 0 0 := heq.trans hS
      cases heq'
  · refine (produces_iff (hzero false) poolConf_fileOnly).mpr (.inr (.inr ⟨rfl, ?_⟩))
    rintro p hp
    have := List.mem_singleton.mp hp
    cases this

/-- Two files of a type that no scan has looked up. -/
example : Produces textWorld plainPathCalls twoFilesDir (modeScan true) detectConf .undefined := by
  refine produces_undefined detectConf_fileOnly rfl
    ⟨[], "/r/f".toList, [], "/r/g".toList, [], rfl, by decide, by decide, .inl ?_, by decide⟩
  exact ⟨"text/plain".toList, rfl, rfl⟩

end Armadito.Core.Pool
