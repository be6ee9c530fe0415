import Mathlib.Data.List.Induction
import Armadito.Core.Greatest

/-!
# Core.Decider

Which module a scan report speaks about. The report is changed by every
answer that raises the running status, and a NULL text leaves the text of
an earlier one in place; a failing `lseek` ends the scan with another
status and no change at all.
-/

namespace Armadito.Core

/-! ## The calls of a scan -/

/-- The call of an active module, when it has a function. -/
def moduleCall (fd : Int) (path : Option CString) (mimeType : CString) (mod : A6oModule) :
    Option ModuleCall :=
  mod.scanFun.map fun scanFun =>
    ⟨mod, (scanFun fd path mimeType).1, (scanFun fd path mimeType).2⟩

/-- The calls a scan makes when every seek succeeds: one for each active
module, up to the first authoritative answer. -/
def askedCalls (fd : Int) (path : Option CString) (mimeType : CString)
    (modules : List A6oModule) : List ModuleCall :=
  cutAfter (fun call => endsScan call.status)
    ((modules.filter fun m => m.status = .ok).filterMap (moduleCall fd path mimeType))

/-- The calls before the first failing seek, the next of which is the
`n`-th. -/
def callsMade (seekOk : Nat → Bool) : Nat → List ModuleCall → List ModuleCall
  | _, [] => []
  | n, call :: calls => if seekOk n then call :: callsMade seekOk (n + 1) calls else []

/-- The second status replaces the first as running status. -/
def adopts (s1 s2 : A6oFileStatus) : Bool :=
  match a6oFileStatusCmp s1 s2 with
  | .ok order => order < 0
  | .error _ => false

/-- What one call does to the report. -/
def adoptCall (report : A6oReport) (call : ModuleCall) : A6oReport :=
  if adopts report.status call.status then
    a6oReportChange report call.status (some call.module.name) call.report
  else report

/-- The calls that raise the running status, from `s` on. -/
def raisers : A6oFileStatus → List ModuleCall → List ModuleCall
  | _, [] => []
  | s, call :: calls =>
    if adopts s call.status then call :: raisers call.status calls else raisers s calls

/-! ## One module -/

/-- An authoritative answer is believed, and no other makes the running
status authoritative. -/
theorem isAuthoritative_of_cmp {s t : A6oFileStatus} {order : Int}
    (h : a6oFileStatusCmp s t = .ok order) (hs : ¬ s.IsAuthoritative) :
    (if order < 0 then t else s).IsAuthoritative ↔ t.IsAuthoritative := by
  cases s <;> cases t <;> simp [a6oFileStatusCmp] at h <;> subst h <;>
    simp_all [A6oFileStatus.IsAuthoritative]

theorem adoptCall_status {report : A6oReport} {call : ModuleCall} {order : Int}
    (h : a6oFileStatusCmp report.status call.status = .ok order) :
    (adoptCall report call).status = if order < 0 then call.status else report.status := by
  rw [adoptCall, adopts, h]
  by_cases hlt : order < 0 <;> simp [hlt]

/-- The report after the call is the one the loop goes on with. -/
theorem adoptCall_report {report : A6oReport} {call : ModuleCall} {order : Int}
    (h : a6oFileStatusCmp report.status call.status = .ok order) :
    (if order < 0 then
      (some report).map fun r =>
        a6oReportChange r call.status (some call.module.name) call.report
      else some report) = some (adoptCall report call) := by
  rw [adoptCall, adopts, h]
  by_cases hlt : order < 0 <;> simp [hlt]

/-- What the loop does with one module: it passes an inactive one over,
ends on a failing seek, or calls the module and goes on unless the answer
is authoritative. -/
theorem scanApplyModulesFrom_cons_ok {seekOk : Nat → Bool} {fd : Int}
    {path : Option CString} {mimeType : CString} {n : Nat} {report : A6oReport}
    {mod : A6oModule} {mods : List A6oModule} {run : ScanRun}
    (hcur : ¬ report.status.IsAuthoritative)
    (h : scanApplyModulesFrom seekOk fd path mimeType n report.status (some report)
      (mod :: mods) = .ok run) :
    (mod.status ≠ .ok ∧
      scanApplyModulesFrom seekOk fd path mimeType n report.status (some report) mods
        = .ok run) ∨
    (mod.status = .ok ∧ seekOk n = false ∧ run = ⟨.ierror, some report, []⟩) ∨
    ∃ call, mod.status = .ok ∧ seekOk n = true ∧
      moduleCall fd path mimeType mod = some call ∧
      ((call.status.IsAuthoritative ∧
          run = ⟨(adoptCall report call).status, some (adoptCall report call), [call]⟩) ∨
        (¬ call.status.IsAuthoritative ∧ ¬ (adoptCall report call).status.IsAuthoritative ∧
          ∃ run', scanApplyModulesFrom seekOk fd path mimeType (n + 1)
              (adoptCall report call).status (some (adoptCall report call)) mods = .ok run' ∧
            run = run'.afterCall call)) := by
  rw [scanApplyModulesFrom] at h
  split at h
  · next hok => exact .inl ⟨hok, h⟩
  · next hok =>
    have hok : mod.status = .ok := not_not.mp hok
    split at h
    · next hseek =>
      cases h
      exact .inr (.inl ⟨hok, by simpa using hseek, rfl⟩)
    · next hseek =>
      split at h
      · cases h
      · next scanFun hfun =>
        obtain ⟨order, hcmp, h⟩ := bind_eq_ok.mp h
        let call : ModuleCall :=
          ⟨mod, (scanFun fd path mimeType).1, (scanFun fd path mimeType).2⟩
        have hcmp : a6oFileStatusCmp report.status call.status = .ok order := hcmp
        have hstatus := adoptCall_status hcmp
        have hauth := isAuthoritative_of_cmp hcmp hcur
        rw [← hstatus] at hauth
        have hreport := adoptCall_report hcmp
        refine .inr (.inr ⟨call, hok, by simpa using hseek, by simp [moduleCall, hfun, call], ?_⟩)
        dsimp only at h
        rw [hreport] at h
        change (if (if order < 0 then call.status else report.status) = .whiteListed ∨ _
          then _ else _) = _ at h
        rw [← hstatus] at h
        split at h
        · next hend =>
          cases h
          exact .inl ⟨hauth.mp hend, rfl⟩
        · next hend =>
          obtain ⟨run', hrun', h⟩ := bind_eq_ok.mp h
          cases h
          exact .inr ⟨fun hcall => hend (hauth.mpr hcall), hend, run', hrun', rfl⟩

/-! ## The run -/

section Run

variable {seekOk : Nat → Bool} {fd : Int} {path : Option CString} {mimeType : CString}

theorem askedCalls_inactive {mod : A6oModule} (h : mod.status ≠ .ok) (mods : List A6oModule) :
    askedCalls fd path mimeType (mod :: mods) = askedCalls fd path mimeType mods := by
  simp [askedCalls, h]

theorem askedCalls_active {mod : A6oModule} {call : ModuleCall} (hok : mod.status = .ok)
    (hcall : moduleCall fd path mimeType mod = some call) (mods : List A6oModule) :
    askedCalls fd path mimeType (mod :: mods)
      = if call.status.IsAuthoritative then [call]
        else call :: askedCalls fd path mimeType mods := by
  simp [askedCalls, hok, hcall, cutAfter, endsScan]

/-- The report is that of the calls made, and the status that of the report
unless a seek failed. -/
theorem scanApplyModulesFrom_calls (modules : List A6oModule) :
    ∀ {n : Nat} {report : A6oReport} {run : ScanRun}, ¬ report.status.IsAuthoritative →
      scanApplyModulesFrom seekOk fd path mimeType n report.status (some report) modules
        = .ok run →
      run.calls = callsMade seekOk n (askedCalls fd path mimeType modules) ∧
        run.report = some (run.calls.foldl adoptCall report) ∧
        (run.status = (run.calls.foldl adoptCall report).status ∨ run.status = .ierror) := by
  induction modules with
  | nil =>
    intro n report run _ h
    cases h
    exact ⟨rfl, rfl, .inl rfl⟩
  | cons mod mods ih =>
    intro n report run hcur h
    rcases scanApplyModulesFrom_cons_ok hcur h with
      ⟨hok, h⟩ | ⟨hok, hseek, rfl⟩ | ⟨call, hok, hseek, hcall, hrest⟩
    · rw [askedCalls_inactive hok]
      exact ih hcur h
    · refine ⟨?_, rfl, .inr rfl⟩
      cases askedCalls fd path mimeType (mod :: mods) with
      | nil => rfl
      | cons call calls => simp [callsMade, hseek]
    · rw [askedCalls_active hok hcall]
      rcases hrest with ⟨hauth, rfl⟩ | ⟨hauth, hnext, run', hrun', rfl⟩
      · rw [if_pos hauth]
        exact ⟨by simp [callsMade, hseek], rfl, .inl rfl⟩
      · obtain ⟨hcalls, hreport, hstatus⟩ := ih hnext hrun'
        rw [if_neg hauth, callsMade, if_pos hseek, ← hcalls]
        exact ⟨rfl, hreport, hstatus⟩

theorem callsMade_isPrefix (calls : List ModuleCall) :
    ∀ n, callsMade seekOk n calls <+: calls := by
  induction calls with
  | nil => intro n; exact List.prefix_rfl
  | cons call calls ih =>
    intro n
    rw [callsMade]
    split
    · exact List.cons_prefix_cons.mpr ⟨rfl, ih (n + 1)⟩
    · exact List.nil_prefix

/-- The status of the scan, when every active module can be called. -/
theorem scanApplyModulesFrom_status (modules : List A6oModule)
    (hfun : ∀ m ∈ modules, m.status = .ok → m.scanFun.isSome) :
    ∀ {n : Nat} {report : A6oReport} {run : ScanRun}, ¬ report.status.IsAuthoritative →
      scanApplyModulesFrom seekOk fd path mimeType n report.status (some report) modules
        = .ok run →
      ((∀ i < (askedCalls fd path mimeType modules).length, seekOk (n + i) = true) →
          run.status = (run.calls.foldl adoptCall report).status) ∧
        ((∃ i < (askedCalls fd path mimeType modules).length, seekOk (n + i) = false) →
          run.status = .ierror) := by
  induction modules with
  | nil =>
    intro n report run _ h
    cases h
    simp [askedCalls, cutAfter]
  | cons mod mods ih =>
    have ih := @ih fun m hm => hfun m (List.mem_cons_of_mem _ hm)
    intro n report run hcur h
    have hidx : ∀ i, n + 1 + i = n + (i + 1) := fun i => by omega
    rcases scanApplyModulesFrom_cons_ok hcur h with
      ⟨hok, h⟩ | ⟨hok, hseek, rfl⟩ | ⟨call, hok, hseek, hcall, hrest⟩
    · rw [askedCalls_inactive hok]
      exact ih hcur h
    · refine ⟨fun hall => ?_, fun _ => rfl⟩
      obtain ⟨scanFun, hsome⟩ := Option.isSome_iff_exists.mp (hfun mod (by simp) hok)
      have hpos : 0 < (askedCalls fd path mimeType (mod :: mods)).length := by
        rw [askedCalls_active hok (by rw [moduleCall, hsome]; rfl)]
        split <;> simp
      have := hall 0 hpos
      rw [Nat.add_zero, hseek] at this
      cases this
    · rw [askedCalls_active hok hcall]
      rcases hrest with ⟨hauth, rfl⟩ | ⟨hauth, hnext, run', hrun', rfl⟩
      · simp [hauth, hseek]
      · rw [if_neg hauth, List.length_cons, Nat.forall_lt_succ_left, Nat.exists_lt_succ_left]
        simpa [hseek, hidx, ScanRun.afterCall] using ih hnext hrun'

end Run

/-! ## The fields of the report -/

/-- The report after an answer that raises the status. -/
def adoptAnswer (report : A6oReport) (call : ModuleCall) : A6oReport :=
  a6oReportChange report call.status (some call.module.name) call.report

theorem foldl_adoptCall (calls : List ModuleCall) :
    ∀ report : A6oReport,
      calls.foldl adoptCall report = (raisers report.status calls).foldl adoptAnswer report := by
  induction calls with
  | nil => intro report; rfl
  | cons call calls ih =>
    intro report
    rw [List.foldl_cons, ih, adoptCall, raisers]
    split
    · rfl
    · rfl

theorem foldl_adoptAnswer_path (calls : List ModuleCall) (report : A6oReport) :
    (calls.foldl adoptAnswer report).path = report.path := by
  induction calls using List.reverseRecOn with
  | nil => rfl
  | append_singleton calls call ih => simpa [adoptAnswer] using ih

/-- Status and name are those of the last answer, the text is the last one
there is. -/
theorem foldl_adoptAnswer (calls : List ModuleCall) (report : A6oReport) :
    (calls.foldl adoptAnswer report).status
        = (calls.getLast?.map ModuleCall.status).getD report.status ∧
      (calls.foldl adoptAnswer report).moduleName
        = (calls.getLast?.map fun call => call.module.name).or report.moduleName ∧
      (calls.foldl adoptAnswer report).moduleReport
        = (calls.filterMap ModuleCall.report).getLast?.or report.moduleReport := by
  induction calls using List.reverseRecOn with
  | nil => simp
  | append_singleton calls call ih =>
    obtain ⟨-, -, htext⟩ := ih
    rw [List.foldl_concat]
    refine ⟨by simp [adoptAnswer], by simp [adoptAnswer, a6oReportChange], ?_⟩
    cases hreport : call.report with
    | none => simpa [adoptAnswer, a6oReportChange, hreport] using htext
    | some text => simp [adoptAnswer, a6oReportChange, hreport]

/-! ## Answers the comparison knows -/

theorem adopts_iff {s t : A6oFileStatus} (hs : ¬ s.IsGap) (ht : ¬ t.IsGap) :
    adopts s t = true ↔ s.value < t.value := by
  cases s <;> cases t <;>
    first | decide | exact absurd (by decide) hs | exact absurd (by decide) ht

/-- The answers are among the six statuses the comparison has a case for. -/
def KnownAnswers (calls : List ModuleCall) : Prop := ∀ call ∈ calls, ¬ call.status.IsGap

theorem KnownAnswers.tail {call : ModuleCall} {calls : List ModuleCall}
    (h : KnownAnswers (call :: calls)) : KnownAnswers calls :=
  fun c hc => h c (List.mem_cons_of_mem _ hc)

/-- A call raises the status when its answer is greater than the status at
the start and than all answers before it. -/
theorem mem_raisers_iff {call : ModuleCall} (calls : List ModuleCall)
    (hknown : KnownAnswers calls) :
    ∀ {s : A6oFileStatus}, ¬ s.IsGap →
      (call ∈ raisers s calls ↔ ∃ pre post, calls = pre ++ call :: post ∧
        ∀ t ∈ s :: pre.map ModuleCall.status, t.value < call.status.value) := by
  induction calls with
  | nil => intro s _; simp [raisers]
  | cons c calls ih =>
    have ih := @ih hknown.tail
    intro s hs
    have hc : ¬ c.status.IsGap := hknown c List.mem_cons_self
    rw [raisers]
    by_cases hlt : s.value < c.status.value
    · rw [if_pos ((adopts_iff hs hc).mpr hlt), List.mem_cons, ih hc]
      constructor
      · rintro (rfl | ⟨pre, post, rfl, hpre⟩)
        · exact ⟨[], calls, rfl, by simpa using hlt⟩
        · refine ⟨c :: pre, post, rfl, ?_⟩
          have := hpre c.status List.mem_cons_self
          simp only [List.map_cons, List.mem_cons, forall_eq_or_imp] at hpre ⊢
          exact ⟨Int.lt_trans hlt this, hpre⟩
      · rintro ⟨pre, post, heq, hpre⟩
        cases pre with
        | nil => exact .inl (List.cons.inj heq).1.symm
        | cons c' pre =>
          obtain ⟨rfl, rfl⟩ := List.cons.inj heq
          exact .inr ⟨pre, post, rfl, fun t ht => hpre t (List.mem_cons_of_mem _ ht)⟩
    · rw [if_neg (by rwa [adopts_iff hs hc]), ih hs]
      constructor
      · rintro ⟨pre, post, rfl, hpre⟩
        refine ⟨c :: pre, post, rfl, ?_⟩
        have := hpre s List.mem_cons_self
        simp only [List.map_cons, List.mem_cons, forall_eq_or_imp] at hpre ⊢
        exact ⟨this, Int.lt_of_le_of_lt (Int.not_lt.mp hlt) this, hpre.2⟩
      · rintro ⟨pre, post, heq, hpre⟩
        cases pre with
        | nil =>
          obtain ⟨rfl, -⟩ := List.cons.inj heq
          exact absurd (hpre s List.mem_cons_self) hlt
        | cons c' pre =>
          obtain ⟨rfl, rfl⟩ := List.cons.inj heq
          simp only [List.map_cons, List.mem_cons, forall_eq_or_imp] at hpre
          refine ⟨pre, post, rfl, ?_⟩
          simp only [List.mem_cons, forall_eq_or_imp]
          exact ⟨hpre.1, hpre.2.2⟩

/-- Each of them answers more than the one before. -/
theorem raisers_pairwise (calls : List ModuleCall) (hknown : KnownAnswers calls) :
    ∀ {s : A6oFileStatus}, ¬ s.IsGap →
      (raisers s calls).Pairwise fun a b => a.status.value < b.status.value := by
  induction calls with
  | nil => intro s _; exact .nil
  | cons c calls ih =>
    intro s hs
    have hc : ¬ c.status.IsGap := hknown c List.mem_cons_self
    rw [raisers]
    split
    · refine .cons ?_ (ih hknown.tail hc)
      intro call hcall
      obtain ⟨pre, post, -, hpre⟩ := (mem_raisers_iff calls hknown.tail hc).mp hcall
      exact hpre c.status List.mem_cons_self
    · exact ih hknown.tail hs

/-- The status the report ends with is the greatest there was. -/
theorem foldl_adoptCall_greatest (calls : List ModuleCall) (hknown : KnownAnswers calls) :
    ∀ {report : A6oReport}, ¬ report.status.IsGap →
      IsGreatestStatus (calls.foldl adoptCall report).status
        (report.status :: calls.map ModuleCall.status) := by
  induction calls with
  | nil => intro report _; exact isGreatestStatus_singleton report.status
  | cons c calls ih =>
    intro report hs
    have hc : ¬ c.status.IsGap := hknown c List.mem_cons_self
    rw [List.foldl_cons, List.map_cons]
    rw [adoptCall]
    split
    · next hadopts =>
      have hlt := (adopts_iff hs hc).mp hadopts
      have hgreater : IsGreatestStatus c.status [report.status, c.status] := by
        simp [IsGreatestStatus, Int.le_of_lt hlt]
      exact hgreater.cons (@ih hknown.tail (adoptAnswer report c) hc)
    · next hadopts =>
      rw [adopts_iff hs hc, Int.not_lt] at hadopts
      have hgreater : IsGreatestStatus report.status [report.status, c.status] := by
        simp [IsGreatestStatus, hadopts]
      exact hgreater.cons (ih hknown.tail hs)

/-! ## When the report describes the deciding module -/

/-- The call raised the running status: its answer is greater than
`A6O_FILE_UNDECIDED` and than every answer before it. -/
def Raised (calls : List ModuleCall) (call : ModuleCall) : Prop :=
  ∃ pre post, calls = pre ++ call :: post ∧
    ∀ t ∈ .undecided :: pre.map ModuleCall.status, t.value < call.status.value

/-- The report has the status that is returned, and the name and the text
of the module that raised the status to it. -/
structure DescribesDecider (run : ScanRun) (report : A6oReport) : Prop where
  status : report.status = run.status
  decider : ∀ call, Raised run.calls call → call.status = run.status →
    report.moduleName = some call.module.name ∧ report.moduleReport = call.report

/-- The last module to raise the status gives a text, or none of those that
raise it does. -/
def TextKept (calls : List ModuleCall) : Prop :=
  ∀ last, (raisers .undecided calls).getLast? = some last → last.report = none →
    ∀ call ∈ raisers .undecided calls, call.report = none

/-- No seek before an asked call fails, or the greatest answer before the
first one that does is the status a failing seek gives. -/
def SeeksHarmless (seekOk : Nat → Bool) (calls : List ModuleCall) : Prop :=
  (∀ i < calls.length, seekOk i = true) ∨
    IsGreatestStatus .ierror ((callsMade seekOk 0 calls).map ModuleCall.status)

/-- The calls the scan of a context asks for. -/
def contextCalls (ctx : A6oScanContext) : List ModuleCall :=
  match ctx.applicableModules, ctx.mimeType with
  | some modules, some mimeType => askedCalls ctx.fd ctx.path mimeType modules
  | _, _ => []

/-- The modules of the context answer in the statuses the comparison has a
case for. -/
def ContextAnswersKnown (ctx : A6oScanContext) : Prop :=
  ∀ modules mimeType, ctx.applicableModules = some modules → ctx.mimeType = some mimeType →
    AnswersKnown ctx.fd ctx.path mimeType modules

theorem raised_iff {calls : List ModuleCall} (hknown : KnownAnswers calls)
    {call : ModuleCall} : Raised calls call ↔ call ∈ raisers .undecided calls :=
  (mem_raisers_iff calls hknown (by decide)).symm

/-- Name and text fit the deciding module exactly when its text is kept. -/
theorem decider_iff_textKept {calls : List ModuleCall} (hknown : KnownAnswers calls)
    {path : Option CString} {report : A6oReport}
    (hreport : report = calls.foldl adoptCall (a6oReportInit path)) :
    (∀ call, Raised calls call → call.status = report.status →
      report.moduleName = some call.module.name ∧ report.moduleReport = call.report) ↔
      TextKept calls := by
  have hfields := foldl_adoptAnswer (raisers .undecided calls) (a6oReportInit path)
  have hfold := foldl_adoptCall calls (a6oReportInit path)
  rw [← hreport] at hfold
  simp only [a6oReportInit] at hfold hfields
  rw [← hfold] at hfields
  obtain ⟨hstatus, hname, htext⟩ := hfields
  simp only [raised_iff hknown, TextKept]
  have hpair := raisers_pairwise calls hknown (s := .undecided) (by decide)
  cases hlast : (raisers .undecided calls).getLast? with
  | none =>
    rw [List.getLast?_eq_none_iff] at hlast
    simp [hlast]
  | some last =>
    obtain ⟨init, hinit⟩ := List.getLast?_eq_some_iff.mp hlast
    rw [hinit] at hpair hstatus hname htext ⊢
    simp only [List.getLast?_concat, Option.map_some, Option.getD_some, Option.or_none]
      at hstatus hname htext
    -- the answers increase, so the last raising call is the only one of its status
    have honly : ∀ call ∈ init ++ [last], call.status = report.status → call = last := by
      intro call hcall heq
      rcases List.mem_append.mp hcall with hcall | hcall
      · have := (List.pairwise_append.mp hpair).2.2 call hcall last (by simp)
        rw [heq, hstatus] at this
        exact absurd this (Int.lt_irrefl _)
      · simpa using hcall
    constructor
    · intro h last' hlast' hnone call hcall
      obtain rfl : last = last' := Option.some.inj hlast'
      obtain ⟨-, hkept⟩ := h last (by simp) hstatus.symm
      rw [hkept, hnone, eq_comm, List.getLast?_eq_none_iff, List.filterMap_eq_nil_iff] at htext
      exact htext call hcall
    · intro h call hcall heq
      obtain rfl := honly call hcall heq
      refine ⟨hname, ?_⟩
      rw [htext]
      cases hnone : call.report with
      | none =>
        rw [List.getLast?_eq_none_iff, List.filterMap_eq_nil_iff]
        exact h call rfl hnone
      | some text => simp [hnone]

theorem askedCalls_known {fd : Int} {path : Option CString} {mimeType : CString}
    {modules : List A6oModule} (hans : AnswersKnown fd path mimeType modules) :
    KnownAnswers (askedCalls fd path mimeType modules) := by
  intro call hcall
  have hmem := (cutAfter_isPrefix _ _).subset hcall
  obtain ⟨mod, hmod, hcall⟩ := List.mem_filterMap.mp hmem
  obtain ⟨hmod, hok⟩ := List.mem_filter.mp hmod
  obtain ⟨answer, hanswer, hgap⟩ := hans mod hmod (of_decide_eq_true hok)
  obtain ⟨scanFun, hfun, rfl⟩ := Option.map_eq_some_iff.mp hcall
  rw [moduleAnswer, hfun] at hanswer
  cases hanswer
  exact hgap

theorem a6oFileStatusCmp_total {s : A6oFileStatus} (hs : ¬ s.IsGap) (t : A6oFileStatus) :
    ∃ order, a6oFileStatusCmp s t = .ok order := by
  cases s <;> first | exact absurd (by decide) hs | cases t <;> exact ⟨_, rfl⟩

/-- A scan with such answers comes to an end, whatever the seeks do. -/
theorem scanApplyModulesFrom_total {seekOk : Nat → Bool} {fd : Int}
    {path : Option CString} {mimeType : CString} (modules : List A6oModule)
    (hans : AnswersKnown fd path mimeType modules) :
    ∀ (n : Nat) {current : A6oFileStatus} (report : Option A6oReport), ¬ current.IsGap →
      ∃ run, scanApplyModulesFrom seekOk fd path mimeType n current report modules
        = .ok run := by
  induction modules with
  | nil => intro n current report _; exact ⟨_, rfl⟩
  | cons mod mods ih =>
    have ih := ih fun m hm => hans m (List.mem_cons_of_mem _ hm)
    intro n current report hcur
    rw [scanApplyModulesFrom]
    split
    · exact ih n report hcur
    · next hok =>
      split
      · exact ⟨_, rfl⟩
      · obtain ⟨answer, hanswer, hgap⟩ := hans mod List.mem_cons_self (not_not.mp hok)
        obtain ⟨scanFun, hfun, rfl⟩ := Option.map_eq_some_iff.mp hanswer
        obtain ⟨order, hcmp⟩ := a6oFileStatusCmp_total hcur (scanFun fd path mimeType).1
        have hnext : ¬ (if order < 0 then (scanFun fd path mimeType).1 else current).IsGap := by
          split
          · exact hgap
          · exact hcur
        simp only [hfun, hcmp, bind, Except.bind]
        generalize (if order < 0 then (scanFun fd path mimeType).1 else current) = next at hnext ⊢
        generalize (if order < 0 then report.map _ else report) = report'
        obtain ⟨run, hrun⟩ := ih (n + 1) report' hnext
        split
        · exact ⟨_, rfl⟩
        · rw [hrun]
          exact ⟨_, rfl⟩

theorem isGreatestStatus_cons_undecided {l : List A6oFileStatus} :
    IsGreatestStatus .ierror (.undecided :: l) ↔ IsGreatestStatus .ierror l := by
  simp [IsGreatestStatus, A6oFileStatus.value]

/-- The report has the returned status exactly when the seeks do no harm. -/
theorem status_iff_seeksHarmless {seekOk : Nat → Bool} {fd : Int} {path : Option CString}
    {mimeType : CString} {modules : List A6oModule} {report : A6oReport} {run : ScanRun}
    (hans : AnswersKnown fd path mimeType modules) (hcur : report.status = .undecided)
    (hrun : scanApplyModulesFrom seekOk fd path mimeType 0 report.status (some report) modules
      = .ok run) :
    (run.calls.foldl adoptCall report).status = run.status ↔
      SeeksHarmless seekOk (askedCalls fd path mimeType modules) := by
  have hauth : ¬ report.status.IsAuthoritative := by rw [hcur]; decide
  have hgap : ¬ report.status.IsGap := by rw [hcur]; decide
  obtain ⟨hcalls, -, -⟩ := scanApplyModulesFrom_calls modules hauth hrun
  obtain ⟨hfine, hfail⟩ := scanApplyModulesFrom_status modules hans.scanFun hauth hrun
  have hknown : KnownAnswers run.calls := by
    rw [hcalls]
    exact fun call hcall => askedCalls_known hans call ((callsMade_isPrefix _ 0).subset hcall)
  have hgreatest := foldl_adoptCall_greatest run.calls hknown hgap
  simp only [Nat.zero_add] at hfine hfail
  rw [SeeksHarmless, ← hcalls]
  by_cases hall : ∀ i < (askedCalls fd path mimeType modules).length, seekOk i = true
  · exact ⟨fun _ => .inl hall, fun _ => (hfine hall).symm⟩
  · have hsome : ∃ i < (askedCalls fd path mimeType modules).length, seekOk i = false := by
      push Not at hall
      simpa using hall
    rw [hfail hsome, or_iff_right hall, ← isGreatestStatus_cons_undecided, ← hcur]
    constructor
    · intro heq
      exact heq ▸ hgreatest
    · intro h
      exact hgreatest.unique h

/-- **The report describes the deciding module if and only if no seek
failure goes unreported and the deciding text is kept.** For modules that
answer in the six ordered statuses the scan comes to an end. Its report,
fresh before, has the returned status and the name and the text of the
module that raised it exactly when each seek succeeds (or the status of a
failing seek is the greatest answer anyway), and the last module to raise
the status gives a text unless none of those before it did. -/
theorem a6oScanContextScan_describes_iff (seekOk : Nat → Bool) (ctx : A6oScanContext)
    (path : Option CString) (hans : ContextAnswersKnown ctx) :
    ∃ run report, a6oScanContextScan seekOk ctx (a6oReportInit path) = .ok run ∧
      run.report = some report ∧
      (DescribesDecider run report ↔
        SeeksHarmless seekOk (contextCalls ctx) ∧
          TextKept (callsMade seekOk 0 (contextCalls ctx))) := by
  rw [a6oScanContextScan]
  split
  · next modules mimeType hmodules hmime =>
    have hans := hans modules mimeType hmodules hmime
    have hcalls : contextCalls ctx = askedCalls ctx.fd ctx.path mimeType modules := by
      simp [contextCalls, hmodules, hmime]
    rw [hcalls]
    have hauth : ¬ A6oFileStatus.undecided.IsAuthoritative := by decide
    have hgap : ¬ A6oFileStatus.undecided.IsGap := by decide
    obtain ⟨run, hrun⟩ : ∃ run, scanApplyModulesFrom seekOk ctx.fd ctx.path mimeType 0
        (a6oReportInit path).status (some (a6oReportInit path)) modules = .ok run :=
      scanApplyModulesFrom_total modules hans 0 _ hgap
    obtain ⟨hmade, hreport, -⟩ := scanApplyModulesFrom_calls modules hauth hrun
    have hknown : KnownAnswers run.calls := by
      rw [hmade]
      exact fun call hcall => askedCalls_known hans call ((callsMade_isPrefix _ 0).subset hcall)
    have hstatus := status_iff_seeksHarmless hans rfl hrun
    have htext := @decider_iff_textKept _ hknown path _ rfl
    refine ⟨run, _, hrun, hreport, ?_⟩
    rw [← hmade, ← hstatus, ← htext]
    constructor
    · rintro ⟨heq, hdecider⟩
      exact ⟨heq, fun call hcall h => hdecider call hcall (h.trans heq)⟩
    · rintro ⟨heq, hdecider⟩
      exact ⟨heq, fun call hcall h => hdecider call hcall (h.trans heq.symm)⟩
  · next hnone =>
    have hcalls : contextCalls ctx = [] := by
      rw [contextCalls]
      split
      · next modules mimeType hmodules hmime => exact absurd hmime (hnone modules mimeType hmodules)
      · rfl
    refine ⟨_, _, rfl, rfl, ?_⟩
    simp only [hcalls, callsMade]
    refine ⟨fun _ => ⟨.inl (by simp), by simp [TextKept, raisers]⟩, fun _ => ⟨rfl, ?_⟩⟩
    rintro call ⟨pre, post, h, -⟩
    simp at h

/-- A module that always gives one answer with one text. -/
def textModule (name : String) (answer : A6oFileStatus) (text : Option CString) : A6oModule :=
  { name := name.toList, status := .ok, supportedMimeTypes := some ["*".toList],
    scanFun := some fun _ _ _ => (answer, text) }

/-- The context of a plain text that the modules apply to. -/
def textContext (modules : List A6oModule) : A6oScanContext :=
  { contextInit 3 with
    path := some "/a".toList
    mimeType := some "text/plain".toList
    applicableModules := some modules }

/-- A malware without a text behind a suspicion with one: the report has
the name of the second module and the text of the first. A suspicion before
a failing seek: the report is that of the suspicion, the status is not. -/
theorem a6oScanContextScan_otherText :
    (∃ run report, a6oScanContextScan (fun _ => true)
        (textContext [textModule "a" .suspicious (some "odd".toList),
          textModule "b" .malware none]) (a6oReportInit (some "/a".toList)) = .ok run ∧
      run.report = some report ∧ report.moduleName = some "b".toList ∧
      report.moduleReport = some "odd".toList ∧ ¬ DescribesDecider run report) ∧
    ∃ run report, a6oScanContextScan (fun n => n == 0)
        (textContext [textModule "a" .suspicious (some "odd".toList),
          textModule "b" .malware none]) (a6oReportInit (some "/a".toList)) = .ok run ∧
      run.report = some report ∧ report.status = .suspicious ∧ run.status = .ierror ∧
      ¬ DescribesDecider run report := by
  refine ⟨⟨_, _, rfl, rfl, rfl, rfl, ?_⟩, _, _, rfl, rfl, rfl, rfl, ?_⟩
  · intro h
    have := h.decider ⟨textModule "b" .malware none, .malware, none⟩
      ⟨[⟨textModule "a" .suspicious (some "odd".toList), .suspicious, some "odd".toList⟩], [],
        rfl, by decide⟩ rfl
    cases this.2
  · intro h
    cases h.status

theorem a6oScanContextScan_describes_malware :
    ∃ run report, a6oScanContextScan (fun _ => true)
        (textContext [textModule "a" .suspicious (some "odd".toList),
          textModule "b" .malware (some "bad".toList)]) (a6oReportInit none) = .ok run ∧
      run.report = some report ∧ report.moduleReport = some "bad".toList ∧
      DescribesDecider run report := by
  obtain ⟨run, report, hrun, hreport, hiff⟩ := a6oScanContextScan_describes_iff (fun _ => true)
    (textContext [textModule "a" .suspicious (some "odd".toList),
      textModule "b" .malware (some "bad".toList)]) none (by
      intro modules mimeType hmodules hmime m hm _
      cases hmodules
      simp only [List.mem_cons, List.not_mem_nil, or_false] at hm
      rcases hm with rfl | rfl
      · exact ⟨.suspicious, rfl, by decide⟩
      · exact ⟨.malware, rfl, by decide⟩)
  have hdescribes : DescribesDecider run report := by
    refine hiff.mpr ⟨.inl fun _ _ => rfl, ?_⟩
    intro last hlast hnone
    cases hlast
    cases hnone
  cases hrun
  cases hreport
  exact ⟨_, _, rfl, rfl, rfl, hdescribes⟩

end Armadito.Core
