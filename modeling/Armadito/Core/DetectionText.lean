import Armadito.Core.Decider
import Armadito.Core.Producers

/-!
# Core.DetectionText

Whether a detection reaches its listeners. The event copies three strings
of the report; the text is the only one of them that modules may leave
NULL, and the copy does not look.
-/

namespace Armadito.Core.DetectionText

open EventNew Producers

variable {κ : Type}

/-- The end of `fire_detection_event`: a new event, given to the callbacks
that ask for its type. -/
def fireDetection (callbacks : List (CallbackEntry κ)) (now : Int64)
    (detectionEv : A6oEventUnion) : Except Fault (List (κ × EventNew.A6oEvent)) := do
  let ev ← a6oEventNew now detectionEv
  return (firedCallbacks callbacks ev.type).map fun cb => (cb, ev)

/-- The event is built, and each callback registered for detections is run
with it. -/
def Delivered (callbacks : List (CallbackEntry κ)) (now : Int64)
    (detectionEv : A6oEventUnion) : Prop :=
  ∃ runs, fireDetection callbacks now detectionEv = .ok runs ∧
    ∀ entry ∈ callbacks, entry.accepts .detection →
      (entry.cb, { timestamp := now, u := detectionEv }) ∈ runs

/-- A module that raises the running status gives a text. -/
def TextGiven (calls : List ModuleCall) : Prop :=
  ∃ call ∈ raisers .undecided calls, call.report ≠ none

theorem delivered_iff (callbacks : List (CallbackEntry κ)) (now : Int64)
    {detectionEv : A6oEventUnion} (htype : detectionEv.type = .detection) :
    Delivered callbacks now detectionEv ↔ none ∉ detectionEv.strings := by
  constructor
  · rintro ⟨runs, hruns, -⟩
    obtain ⟨ev, hev, -⟩ := bind_eq_ok.mp hruns
    exact (a6oEventNew_eq_ok.mp hev).1
  · intro hstrings
    have hev : a6oEventNew now detectionEv = .ok { timestamp := now, u := detectionEv } :=
      a6oEventNew_eq_ok.mpr ⟨hstrings, rfl⟩
    refine ⟨_, bind_eq_ok.mpr ⟨_, hev, rfl⟩, ?_⟩
    intro entry hentry haccepts
    refine List.mem_map.mpr ⟨entry.cb, ?_, rfl⟩
    rw [EventNew.A6oEvent.type, htype, firedCallbacks]
    exact List.mem_map.mpr ⟨entry, List.mem_filter.mpr ⟨hentry, haccepts⟩, rfl⟩

theorem mustFireDetection_iff {status : A6oFileStatus} {report : A6oReport} :
    mustFireDetection status report = true ↔
      (status = .malware ∨ status = .suspicious) ∧ report.path.isSome := by
  simp [mustFireDetection]

/-- The report of a scan of a fresh report is that of the calls made; a
verdict that is an alarm is the status of the report. -/
theorem scanned_report {seekOk : Nat → Bool} {ctx : A6oScanContext} {path : Option CString}
    {run : ScanRun} {report : A6oReport}
    (hrun : a6oScanContextScan seekOk ctx (a6oReportInit path) = .ok run)
    (hreport : run.report = some report) :
    (run.status = report.status ∨ run.status = .ierror) ∧
      (report.status = .unknownType ∨
        report = (callsMade seekOk 0 (contextCalls ctx)).foldl adoptCall (a6oReportInit path)) := by
  rw [a6oScanContextScan] at hrun
  split at hrun
  · next modules mimeType hmodules hmime =>
    have hauth : ¬ A6oFileStatus.undecided.IsAuthoritative := by decide
    have hrun : scanApplyModulesFrom seekOk ctx.fd ctx.path mimeType 0
        (a6oReportInit path).status (some (a6oReportInit path)) modules = .ok run := hrun
    obtain ⟨hcalls, hfold, hstatus⟩ := scanApplyModulesFrom_calls modules hauth hrun
    rw [hreport] at hfold
    obtain rfl := Option.some.inj hfold
    refine ⟨hstatus, .inr ?_⟩
    simp only [contextCalls, hmodules, hmime, ← hcalls]
  · cases hrun
    cases hreport
    exact ⟨.inl rfl, .inl rfl⟩

/-- What the three strings of a detection are. -/
theorem adopted_strings (calls : List ModuleCall) (path : Option CString)
    {report : A6oReport} (hreport : report = calls.foldl adoptCall (a6oReportInit path))
    (hraised : report.status ≠ .undecided) :
    report.path = path ∧ report.moduleName ≠ none ∧
      (report.moduleReport ≠ none ↔ TextGiven calls) := by
  have hfold := foldl_adoptCall calls (a6oReportInit path)
  rw [← hreport] at hfold
  obtain ⟨hstatus, hname, htext⟩ :=
    foldl_adoptAnswer (raisers .undecided calls) (a6oReportInit path)
  have hpath := foldl_adoptAnswer_path (raisers .undecided calls) (a6oReportInit path)
  simp only [a6oReportInit, Option.or_none] at hfold hstatus hname htext hpath
  rw [← hfold] at hstatus hname htext hpath
  refine ⟨hpath, ?_, ?_⟩
  · rw [hname]
    intro hnone
    rw [Option.map_eq_none_iff] at hnone
    rw [hnone] at hstatus
    exact hraised hstatus
  · rw [htext, Ne, List.getLast?_eq_none_iff, List.filterMap_eq_nil_iff, TextGiven]
    push Not
    rfl

/-- Both detections copy the same three strings of the report. -/
theorem delivered_detection_iff (callbacks : List (CallbackEntry κ)) (now : Int64)
    {detectionEv : A6oEventUnion} {report : A6oReport} (htype : detectionEv.type = .detection)
    (hstrings : detectionEv.strings = [report.path, report.moduleName, report.moduleReport]) :
    Delivered callbacks now detectionEv ↔
      report.path ≠ none ∧ report.moduleName ≠ none ∧ report.moduleReport ≠ none := by
  rw [delivered_iff callbacks now htype, hstrings]
  simp [eq_comm]

/-- **A detection is reported if and only if some module that raised the
status gave a text.** For a file with a known path and whatever the modules
answer: when the verdict is malware or suspicious, the event of an
on-demand scan, and that of the on-access monitor, is built and delivered
to every callback registered for detections exactly when one of the answers
that raised the running status came with a text. -/
theorem detection_delivered_iff (seekOk : Nat → Bool) (ctx : A6oScanContext)
    (path : CString) {run : ScanRun} {report : A6oReport}
    (hrun : a6oScanContextScan seekOk ctx (a6oReportInit (some path)) = .ok run)
    (hreport : run.report = some report) (onDemand : A6oOnDemand) (unset now : Int64)
    (callbacks : List (CallbackEntry κ)) :
    ((report.status = .malware ∨ report.status = .suspicious) →
      ∃ ev, onDemandEvent onDemand (.detection report) = some ev ∧
        (Delivered callbacks now ev ↔
          TextGiven (callsMade seekOk 0 (contextCalls ctx)))) ∧
    ((run.status = .malware ∨ run.status = .suspicious) →
      ∃ ev, onAccessEvent unset run.status report = some ev ∧
        (Delivered callbacks now ev ↔
          TextGiven (callsMade seekOk 0 (contextCalls ctx)))) := by
  obtain ⟨hstatus, hfold⟩ := scanned_report hrun hreport
  have hstrings : (report.status = .malware ∨ report.status = .suspicious) →
      report.path = some path ∧ report.moduleName ≠ none ∧
        (report.moduleReport ≠ none ↔ TextGiven (callsMade seekOk 0 (contextCalls ctx))) := by
    intro hbad
    have hne : report.status ≠ .unknownType ∧ report.status ≠ .undecided := by
      rcases hbad with hbad | hbad <;> simp [hbad]
    exact adopted_strings _ _ (hfold.resolve_left hne.1) hne.2
  constructor
  · intro hbad
    obtain ⟨hpath, hname, htext⟩ := hstrings hbad
    refine ⟨fireDetectionEvent onDemand report, ?_, ?_⟩
    · rw [onDemandEvent, if_pos (mustFireDetection_iff.mpr ⟨hbad, by simp [hpath]⟩)]
    · rw [delivered_detection_iff callbacks now rfl rfl, ← htext]
      simp [hpath, hname]
  · intro hbad
    have hsame : run.status = report.status := by
      refine hstatus.resolve_right fun h => ?_
      rcases hbad with hbad | hbad <;> simp [hbad] at h
    obtain ⟨hpath, hname, htext⟩ := hstrings (hsame ▸ hbad)
    refine ⟨fireRealTimeDetectionEvent unset report, ?_, ?_⟩
    · rw [onAccessEvent, if_pos (mustFireDetection_iff.mpr ⟨hbad, by simp [hpath]⟩)]
    · rw [delivered_detection_iff callbacks now rfl rfl, ← htext]
      simp [hpath, hname]

/-- A malware whose module gives no text, with one callback registered: the
event cannot be built. -/
theorem detection_noText :
    ∃ run report, a6oScanContextScan (fun _ => true)
        (textContext [textModule "a" .malware none]) (a6oReportInit (some "/a".toList))
          = .ok run ∧
      run.report = some report ∧ run.status = .malware ∧
      fireDetection [⟨A6oEventType.detection.mask, ()⟩] 0
          (fireRealTimeDetectionEvent 0 report) = .error .nullDeref ∧
      fireDetection [⟨A6oEventType.detection.mask, ()⟩] 0
          (fireDetectionEvent ⟨"/".toList, 7, 0, 1, 0, 0, 0, 0, 0, 0, 0⟩ report)
        = .error .nullDeref :=
  ⟨_, _, rfl, rfl, rfl, rfl, rfl⟩

theorem detection_delivered_malware :
    ∃ run report, a6oScanContextScan (fun _ => true)
        (textContext [textModule "a" .malware (some "bad".toList)])
        (a6oReportInit (some "/a".toList)) = .ok run ∧
      run.report = some report ∧
      ∃ ev, onAccessEvent 0 run.status report = some ev ∧
        Delivered [⟨A6oEventType.detection.mask, ()⟩] 0 ev := by
  have hboth := @detection_delivered_iff Unit (fun _ => true)
    (textContext [textModule "a" .malware (some "bad".toList)]) "/a".toList _ _ rfl rfl
    ⟨"/".toList, 7, 0, 1, 0, 0, 0, 0, 0, 0, 0⟩ 0 0 [⟨A6oEventType.detection.mask, ()⟩]
  obtain ⟨ev, hev, hiff⟩ := hboth.2 (.inl rfl)
  refine ⟨_, _, rfl, rfl, ev, hev, hiff.mpr ?_⟩
  exact ⟨⟨textModule "a" .malware (some "bad".toList), .malware, some "bad".toList⟩,
    List.mem_singleton_self _, by simp⟩

end Armadito.Core.DetectionText
