import Armadito.Conf.Save
import Armadito.Core.EventNew
import Armadito.Lib.Delimiters

/-!
# Core.Journal

`journal.c`: the line that the daemon writes to the journal for a detection.
The line is parsed by its readers, but the path and the texts of the module
are written as they are.
-/

namespace Armadito.Core.Journal

open Armadito.Core.EventNew Armadito.Delimiters
open Armadito.Conf (printInt)

/-! ## The line -/

/-- `a6o_file_status_pretty_str`. -/
def a6oFileStatusPrettyStr : A6oFileStatus → CString
  | .undecided => "undecided".toList
  | .clean => "clean".toList
  | .unknownType => "ignored".toList
  | .einval => "invalid argument".toList
  | .ierror => "internal error".toList
  | .suspicious => "suspicious".toList
  | .whiteListed => "white listed".toList
  | .malware => "malware".toList

/-- `a6o_action_pretty_str`. -/
def a6oActionPrettyStr (action : A6oAction) : CString :=
  let shown := action &&& (a6oActionAlert ||| a6oActionQuarantine ||| a6oActionRemove)
  if shown = a6oActionAlert then "alert".toList
  else if shown = a6oActionAlert ||| a6oActionQuarantine then "alert+quarantine".toList
  else if shown = a6oActionAlert ||| a6oActionRemove then "alert+removed".toList
  else "none".toList

/-- `context == CONTEXT_REAL_TIME ? "real-time" : "on-demand"`. -/
def contextStr (context : A6oDetectionContext) : CString :=
  if context = .realTime then "real-time".toList else "on-demand".toList

/-- `%s`; what is printed for NULL is that of the C library. -/
def printString : Option CString → CString
  | some s => s
  | none => "(null)".toList

/-! The pieces of the format string, before each conversion and at the end. -/

def beforeContext : CString := "type=\"detection\", context=\"".toList
def beforeScanId : CString := "\", scan_id=".toList
def beforePath : CString := ", path=\"".toList
def beforeScanStatus : CString := "\", scan_status=\"".toList
def beforeScanAction : CString := "\", scan_action=\"".toList
def beforeModuleName : CString := "\", module_name=\"".toList
def beforeModuleReport : CString := "\", module_report=\"".toList
def afterModuleReport : CString := ['"']

/-- The message that `detection_event_journal` passes to `syslog`. -/
def detectionEventJournal (ev : A6oDetectionEvent) : CString :=
  beforeContext ++ contextStr ev.context ++ beforeScanId ++ printInt ev.scanId.toInt ++
    beforePath ++ printString ev.path ++
    beforeScanStatus ++ a6oFileStatusPrettyStr ev.scanStatus ++
    beforeScanAction ++ a6oActionPrettyStr ev.scanAction ++
    beforeModuleName ++ printString ev.moduleName ++
    beforeModuleReport ++ printString ev.moduleReport ++ afterModuleReport

/-! ## Delimiters -/

/-- What stands between the path and the module, for the texts of a status
and an action. -/
def betweenWord (status action : CString) : CString :=
  beforeScanStatus ++ status ++ beforeScanAction ++ action ++ beforeModuleName

/-- The status and the action as the line has them. -/
def statusWord (status : A6oFileStatus) (action : A6oAction) : CString :=
  betweenWord (a6oFileStatusPrettyStr status) (a6oActionPrettyStr action)

/-- A text that is one of them. -/
def StatusWord (t : CString) : Prop := ∃ status action, t = statusWord status action

/-- All delimiters. -/
def words : List CString :=
  beforeModuleReport :: [.undecided, .clean, .unknownType, .einval, .ierror, .suspicious,
    .whiteListed, .malware].flatMap fun status => [a6oActionNone, a6oActionAlert,
      a6oActionAlert ||| a6oActionQuarantine, a6oActionAlert ||| a6oActionRemove].map fun action =>
        statusWord status action

theorem a6oActionPrettyStr_mem (action : A6oAction) :
    ∃ shown ∈ [a6oActionNone, a6oActionAlert, a6oActionAlert ||| a6oActionQuarantine,
        a6oActionAlert ||| a6oActionRemove],
      a6oActionPrettyStr action = a6oActionPrettyStr shown := by
  rw [a6oActionPrettyStr]
  split
  · exact ⟨a6oActionAlert, by simp, rfl⟩
  · split
    · exact ⟨a6oActionAlert ||| a6oActionQuarantine, by simp, rfl⟩
    · split
      · exact ⟨a6oActionAlert ||| a6oActionRemove, by simp, rfl⟩
      · exact ⟨a6oActionNone, by simp, rfl⟩

theorem mem_words {t : CString} (h : StatusWord t ∨ t = beforeModuleReport) : t ∈ words := by
  rcases h with ⟨status, action, rfl⟩ | rfl
  · obtain ⟨shown, hshown, heq⟩ := a6oActionPrettyStr_mem action
    refine List.mem_cons_of_mem _ (List.mem_flatMap.mpr ⟨status, ?_,
      List.mem_map.mpr ⟨shown, hshown, ?_⟩⟩)
    · cases status <;> simp
    · exact congrArg (betweenWord _) heq.symm
  · exact List.mem_cons_self

/-- Every delimiter begins like one of two. -/
def heads : List CString := ["\", scan_s".toList, "\", module_r".toList]

/-- How a delimiter begins and ends, and that none begins inside of it. -/
theorem words_check : ∀ t ∈ words, (t.head? = some '"' ∧ t.tail.getLast? = some '"') ∧
    (∃ head ∈ heads, head <+: t) ∧ clearOf heads t.tail = true := by
  decide +kernel

/-- What comes before the first `c` of a text, and what comes after it. -/
theorem append_cons_inj {c : Char} {x z z' : CString} :
    ∀ {x' : CString}, c ∉ x → c ∉ x' → x ++ c :: z = x' ++ c :: z' → x = x' ∧ z = z' := by
  induction x with
  | nil =>
    intro x' _ hx' h
    cases x' with
    | nil => exact ⟨rfl, (List.cons.inj h).2⟩
    | cons a x' =>
      rw [(List.cons.inj h).1] at hx'
      exact absurd List.mem_cons_self hx'
  | cons a x ih =>
    intro x' hx hx' h
    cases x' with
    | nil =>
      rw [← (List.cons.inj h).1] at hx
      exact absurd List.mem_cons_self hx
    | cons a' x' =>
      obtain ⟨ha, htail⟩ := List.cons.inj h
      obtain ⟨hxx', hz⟩ := ih (fun hc => hx (List.mem_cons_of_mem _ hc))
        (fun hc => hx' (List.mem_cons_of_mem _ hc)) htail
      exact ⟨by rw [ha, hxx'], hz⟩

theorem quote_notMem_status (status : A6oFileStatus) :
    '"' ∉ a6oFileStatusPrettyStr status := by
  cases status <;> decide

theorem quote_notMem_action (action : A6oAction) : '"' ∉ a6oActionPrettyStr action := by
  obtain ⟨shown, hshown, heq⟩ := a6oActionPrettyStr_mem action
  rw [heq]
  clear heq
  revert shown
  decide

theorem beforeScanAction_quote : ∃ rest, beforeScanAction = '"' :: rest :=
  ⟨", scan_action=\"".toList, rfl⟩

theorem beforeModuleName_quote : ∃ rest, beforeModuleName = '"' :: rest :=
  ⟨", module_name=\"".toList, rfl⟩

/-- The texts between the quotes have no quotes, so they can be read off. -/
theorem statusWord_append_inj {status status' : A6oFileStatus} {action action' : A6oAction}
    {s s' : CString} (h : statusWord status action ++ s = statusWord status' action' ++ s') :
    a6oFileStatusPrettyStr status = a6oFileStatusPrettyStr status' ∧
      a6oActionPrettyStr action = a6oActionPrettyStr action' := by
  obtain ⟨second, hsecond⟩ := beforeScanAction_quote
  obtain ⟨third, hthird⟩ := beforeModuleName_quote
  simp only [statusWord, betweenWord, hsecond, hthird, List.append_assoc,
    List.append_cancel_left_eq, List.cons_append] at h
  obtain ⟨hstatus, h⟩ := append_cons_inj (quote_notMem_status _) (quote_notMem_status _) h
  obtain ⟨haction, -⟩ := append_cons_inj (quote_notMem_action _) (quote_notMem_action _)
    (List.append_cancel_left h)
  exact ⟨hstatus, haction⟩

theorem statusWord_inj {status status' : A6oFileStatus} {action action' : A6oAction} :
    statusWord status action = statusWord status' action' ↔
      a6oFileStatusPrettyStr status = a6oFileStatusPrettyStr status' ∧
        a6oActionPrettyStr action = a6oActionPrettyStr action' := by
  constructor
  · intro h
    have hwords : statusWord status action ++ [] = statusWord status' action' ++ [] := by
      rw [h]
    exact statusWord_append_inj hwords
  · rintro ⟨hstatus, haction⟩
    rw [statusWord, hstatus, haction]
    rfl

/-- The delimiters of the two kinds differ in their fourth letter. -/
theorem statusWord_append_ne (status : A6oFileStatus) (action : A6oAction) (s s' : CString) :
    statusWord status action ++ s ≠ beforeModuleReport ++ s' := by
  obtain ⟨t, ht⟩ : ∃ t, beforeScanStatus = ['"', ',', ' ', 's'] ++ t :=
    ⟨"can_status=\"".toList, rfl⟩
  obtain ⟨t', ht'⟩ : ∃ t, beforeModuleReport = ['"', ',', ' ', 'm'] ++ t :=
    ⟨"odule_report=\"".toList, rfl⟩
  simp only [statusWord, betweenWord, ht, ht', List.append_assoc]
  simp

theorem words_eq_of_prefix {t t' : CString} (ht : StatusWord t ∨ t = beforeModuleReport)
    (ht' : StatusWord t' ∨ t' = beforeModuleReport) (h : t <+: t') : t = t' := by
  obtain ⟨s, hs⟩ := h
  rcases ht with ⟨status, action, rfl⟩ | rfl
  · rcases ht' with ⟨status', action', rfl⟩ | rfl
    · have hwords : statusWord status action ++ s = statusWord status' action' ++ [] := by
        rw [hs, List.append_nil]
      exact statusWord_inj.mpr (statusWord_append_inj hwords)
    · exact (statusWord_append_ne status action s [] (by rw [hs, List.append_nil])).elim
  · rcases ht' with ⟨status', action', rfl⟩ | rfl
    · exact (statusWord_append_ne status' action' [] s (by rw [hs, List.append_nil])).elim
    · rfl

theorem delimiting : Delimiting '"' fun t => StatusWord t ∨ t = beforeModuleReport :=
  .of_heads heads (fun t ht => (words_check t (mem_words ht)).1)
    (fun t ht => (words_check t (mem_words ht)).2.1)
    (fun t ht => (words_check t (mem_words ht)).2.2) fun _ _ => words_eq_of_prefix

/-! ## The head of the line -/

theorem printInt_notMem {c : Char} (hc : c.isDigit = false) (hminus : c ≠ '-') (n : Int) :
    c ∉ printInt n := by
  have hdigits : ∀ m : Nat, c ∉ Nat.toDigits 10 m := by
    intro m hmem
    rw [Nat.isDigit_of_mem_toDigits (by decide) (by decide) hmem] at hc
    cases hc
  cases n with
  | ofNat m => exact hdigits m
  | negSucc m => simp [printInt, hminus, hdigits]

theorem printInt_inj {n n' : Int} (h : printInt n = printInt n') : n = n' := by
  have hdigits : ∀ {m m' : Nat}, Nat.toDigits 10 m = Nat.toDigits 10 m' → m = m' := by
    intro m m' hm
    rw [← Nat.ofDigitChars_ten_toDigits (n := m), hm, Nat.ofDigitChars_ten_toDigits]
  have hminus : ∀ {m m' : Nat}, Nat.toDigits 10 m ≠ '-' :: Nat.toDigits 10 m' := by
    intro m m' hm
    have hmem : '-' ∈ Nat.toDigits 10 m := hm ▸ List.mem_cons_self
    exact absurd (Nat.isDigit_of_mem_toDigits (by decide) (by decide) hmem) (by decide)
  cases n with
  | ofNat m =>
    cases n' with
    | ofNat m' => exact congrArg Int.ofNat (hdigits h)
    | negSucc m' => exact (hminus h).elim
  | negSucc m =>
    cases n' with
    | ofNat m' => exact (hminus h.symm).elim
    | negSucc m' =>
      have hm := hdigits (List.cons.inj h).2
      rw [Nat.succ.inj hm]

/-- The line up to the path. -/
def lineHead (context : A6oDetectionContext) (scanId : Int64) : CString :=
  beforeContext ++ contextStr context ++ beforeScanId ++ printInt scanId.toInt ++ beforePath

/-- The two contexts differ in their first letter. -/
theorem contextStr_append_ne (s s' : CString) :
    contextStr .realTime ++ s ≠ contextStr .onDemand ++ s' := by
  obtain ⟨t, ht⟩ : ∃ t, contextStr .realTime = 'r' :: t :=
    ⟨"eal-time".toList, rfl⟩
  obtain ⟨t', ht'⟩ : ∃ t, contextStr .onDemand = 'o' :: t :=
    ⟨"n-demand".toList, rfl⟩
  rw [ht, ht']
  exact fun h => absurd (List.cons.inj h).1 (by decide)

theorem contextStr_inj {c c' : A6oDetectionContext} {s s' : CString}
    (h : contextStr c ++ s = contextStr c' ++ s') : c = c' ∧ s = s' := by
  cases c with
  | realTime =>
    cases c' with
    | realTime => exact ⟨rfl, List.append_cancel_left h⟩
    | onDemand => exact (contextStr_append_ne s s' h).elim
  | onDemand =>
    cases c' with
    | realTime => exact (contextStr_append_ne s' s h.symm).elim
    | onDemand => exact ⟨rfl, List.append_cancel_left h⟩

theorem beforePath_comma : ∃ rest, beforePath = ',' :: rest :=
  ⟨" path=\"".toList, rfl⟩

theorem lineHead_inj {c c' : A6oDetectionContext} {i i' : Int64} {s s' : CString}
    (h : lineHead c i ++ s = lineHead c' i' ++ s') : c = c' ∧ i = i' ∧ s = s' := by
  obtain ⟨rest, hrest⟩ := beforePath_comma
  simp only [lineHead, hrest, List.append_assoc, List.append_cancel_left_eq,
    List.cons_append] at h
  obtain ⟨hcontext, hrest⟩ := contextStr_inj h
  have hcomma := fun n => printInt_notMem (c := ',') (by decide) (by decide) n
  obtain ⟨hid, htail⟩ := append_cons_inj (hcomma _) (hcomma _) (List.append_cancel_left hrest)
  exact ⟨hcontext, Int64.toInt_inj.mp (printInt_inj hid), List.append_cancel_left htail⟩

/-! ## The line identifies the event -/

/-- The free text of the line, from the path to the report. -/
def lineFields (ev : A6oDetectionEvent) : CString :=
  printString ev.path ++ statusWord ev.scanStatus ev.scanAction ++ printString ev.moduleName ++
    beforeModuleReport ++ printString ev.moduleReport

theorem detectionEventJournal_eq (ev : A6oDetectionEvent) :
    detectionEventJournal ev =
      lineHead ev.context ev.scanId ++ (lineFields ev ++ afterModuleReport) := by
  simp only [detectionEventJournal, lineHead, lineFields, statusWord, betweenWord,
    List.append_assoc]

theorem detectionEventJournal_inj {ev ev' : A6oDetectionEvent} :
    detectionEventJournal ev = detectionEventJournal ev' ↔
      ev.context = ev'.context ∧ ev.scanId = ev'.scanId ∧ lineFields ev = lineFields ev' := by
  rw [detectionEventJournal_eq, detectionEventJournal_eq]
  constructor
  · intro h
    obtain ⟨hcontext, hid, h⟩ := lineHead_inj h
    exact ⟨hcontext, hid, List.append_cancel_right h⟩
  · rintro ⟨hcontext, hid, hfields⟩
    rw [hcontext, hid, hfields]

/-- What a reader of the journal sees of two events is the same. -/
structure SameRecord (ev ev' : A6oDetectionEvent) : Prop where
  context : ev.context = ev'.context
  scanId : ev.scanId = ev'.scanId
  path : ev.path = ev'.path
  status : a6oFileStatusPrettyStr ev.scanStatus = a6oFileStatusPrettyStr ev'.scanStatus
  action : a6oActionPrettyStr ev.scanAction = a6oActionPrettyStr ev'.scanAction
  moduleName : ev.moduleName = ev'.moduleName
  moduleReport : ev.moduleReport = ev'.moduleReport

/-- `a6o_event_new` makes an event of it: no text is NULL. -/
def Made (ev : A6oDetectionEvent) : Prop :=
  ∃ now e, a6oEventNew now (.evDetection ev) = .ok e

/-- Only this event has its line. -/
def LineIdentifies (ev : A6oDetectionEvent) : Prop :=
  ∀ ev', Made ev' → detectionEventJournal ev' = detectionEventJournal ev → SameRecord ev' ev

/-- No delimiter of the line is in its free texts, a quote put back where a
text touches a delimiter. -/
def FreeTexts (ev : A6oDetectionEvent) : Prop :=
  Free '"' StatusWord beforeModuleReport (printString ev.path) (printString ev.moduleName)
    (printString ev.moduleReport)

theorem made_iff {ev : A6oDetectionEvent} :
    Made ev ↔ ∃ path name report, ev.path = some path ∧ ev.moduleName = some name ∧
      ev.moduleReport = some report := by
  have hstrings : Made ev ↔ none ∉ (A6oEventUnion.evDetection ev).strings := by
    constructor
    · rintro ⟨now, e, h⟩
      exact (a6oEventNew_eq_ok.mp h).1
    · intro h
      exact ⟨0, _, a6oEventNew_eq_ok.mpr ⟨h, rfl⟩⟩
  rw [hstrings]
  simp only [A6oEventUnion.strings, List.mem_cons, List.not_mem_nil, or_false, not_or]
  constructor
  · rintro ⟨hpath, hname, hreport⟩
    obtain ⟨path, hpath⟩ := Option.ne_none_iff_exists'.mp (Ne.symm hpath)
    obtain ⟨name, hname⟩ := Option.ne_none_iff_exists'.mp (Ne.symm hname)
    obtain ⟨report, hreport⟩ := Option.ne_none_iff_exists'.mp (Ne.symm hreport)
    exact ⟨path, name, report, hpath, hname, hreport⟩
  · rintro ⟨path, name, report, hpath, hname, hreport⟩
    simp [hpath, hname, hreport]

/-- **A line identifies its event exactly when its free texts are free of
delimiters.** -/
theorem lineIdentifies_iff {ev : A6oDetectionEvent} (h : Made ev) :
    LineIdentifies ev ↔ FreeTexts ev := by
  obtain ⟨path, name, report, hpath, hname, hreport⟩ := made_iff.mp h
  have hword : StatusWord (statusWord ev.scanStatus ev.scanAction) := ⟨_, _, rfl⟩
  rw [FreeTexts, ← oneReading_iff delimiting hword]
  constructor
  · intro hline p' d' m' r' hd' htext
    obtain ⟨status, action, rfl⟩ := hd'
    have hsame := hline { ev with
      path := some p'
      scanStatus := status
      scanAction := action
      moduleName := some m'
      moduleReport := some r' } (made_iff.mpr ⟨p', m', r', rfl, rfl, rfl⟩)
      (detectionEventJournal_inj.mpr ⟨rfl, rfl, htext⟩)
    refine ⟨?_, statusWord_inj.mpr ⟨hsame.status, hsame.action⟩, ?_, ?_⟩
    · exact congrArg printString hsame.path
    · exact congrArg printString hsame.moduleName
    · exact congrArg printString hsame.moduleReport
  · intro hone ev' hmade' hline
    obtain ⟨path', name', report', hpath', hname', hreport'⟩ := made_iff.mp hmade'
    obtain ⟨hcontext, hid, hfields⟩ := detectionEventJournal_inj.mp hline
    obtain ⟨hp, hd, hm, hr⟩ := hone _ _ _ _ ⟨_, _, rfl⟩ hfields
    obtain ⟨hstatus, haction⟩ := statusWord_inj.mp hd
    rw [hpath, hpath'] at hp
    rw [hname, hname'] at hm
    rw [hreport, hreport'] at hr
    constructor
    case context => exact hcontext
    case scanId => exact hid
    case path => rw [hpath, hpath', show path' = path from hp]
    case status => exact hstatus
    case action => exact haction
    case moduleName => rw [hname, hname', show name' = name from hm]
    case moduleReport => rw [hreport, hreport', show report' = report from hr]

/-- The detection of a file without quotes in its name. -/
def plainDetection : A6oDetectionEvent where
  context := .onDemand
  scanId := 5
  path := some ['/', 'e']
  scanStatus := .malware
  scanAction := a6oActionAlert
  moduleName := some ['c']
  moduleReport := some ['E']

theorem plainDetection_lineIdentifies : LineIdentifies plainDetection :=
  (lineIdentifies_iff (made_iff.mpr ⟨_, _, _, rfl, rfl, rfl⟩)).mpr
    (Free.of_not_mem delimiting (by decide) (by decide) (by decide))

/-- A malware whose path ends in the fields of a clean file. -/
def forgedDetection : A6oDetectionEvent :=
  { plainDetection with
    path := some (['/', 'e'] ++ statusWord .clean a6oActionNone ++ ['c']) }

/-- The first delimiter is the one in the path. -/
theorem append_reading (p d m d' m' e r : CString) :
    p ++ d ++ (m ++ d' ++ m') ++ e ++ r = (p ++ d ++ m) ++ d' ++ m' ++ e ++ r := by
  simp only [List.append_assoc]

/-- The event that a reader of its line takes it for. -/
def readDetection : A6oDetectionEvent :=
  { plainDetection with
    scanStatus := .clean
    scanAction := a6oActionNone
    moduleName := some (['c'] ++ statusWord .malware a6oActionAlert ++ ['c']) }

/-- The line of a malware says that the file is clean. -/
theorem forgedDetection_not_lineIdentifies :
    Made forgedDetection ∧ Made readDetection ∧
      detectionEventJournal readDetection = detectionEventJournal forgedDetection ∧
      a6oFileStatusPrettyStr readDetection.scanStatus ≠
        a6oFileStatusPrettyStr forgedDetection.scanStatus ∧
      ¬ LineIdentifies forgedDetection := by
  have hmade : Made readDetection := made_iff.mpr ⟨_, _, _, rfl, rfl, rfl⟩
  have hline : detectionEventJournal readDetection = detectionEventJournal forgedDetection :=
    detectionEventJournal_inj.mpr ⟨rfl, rfl, append_reading ['/', 'e']
      (statusWord .clean a6oActionNone) ['c'] (statusWord .malware a6oActionAlert) ['c']
      beforeModuleReport ['E']⟩
  have hstatus : a6oFileStatusPrettyStr readDetection.scanStatus ≠
      a6oFileStatusPrettyStr forgedDetection.scanStatus := by decide +kernel
  exact ⟨made_iff.mpr ⟨_, _, _, rfl, rfl, rfl⟩, hmade, hline, hstatus,
    fun h => hstatus (h readDetection hmade hline).status⟩

end Armadito.Core.Journal
