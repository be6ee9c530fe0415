import Armadito.Core.ScanCtx

/-!
# Core.Verdict

How `scan_apply_modules` combines the answers of its modules.

The running status is the first argument of the comparison, and the
comparison has no case for `A6O_FILE_UNKNOWN_TYPE` and `A6O_FILE_EINVAL`
there. A module that gives one of these two answers is believed over any
earlier answer but an authoritative one, and the next module that answers
anything else runs into the assertion.

`combine` is the loop on the bare answers; the scan is that loop with the
modules, the report and the seeks around it.
-/

namespace Armadito.Core

/-- The statuses the running status can be replaced from without harm:
neither a gap of the comparison nor the end of the scan. -/
def A6oFileStatus.IsRunning (s : A6oFileStatus) : Prop :=
  ¬ s.IsGap ∧ ¬ s.IsAuthoritative

/-- An alarm, or an answer that overrules it. -/
def A6oFileStatus.KeepsAlarm (s : A6oFileStatus) : Prop :=
  s = .suspicious ∨ s = .whiteListed ∨ s = .malware

/-- The answers of the modules that are called, in order. -/
def moduleAnswers (fd : Int) (path : Option CString) (mimeType : CString)
    (modules : List A6oModule) : List A6oFileStatus :=
  (modules.filter fun m => m.status = .ok).filterMap fun m =>
    m.scanFun.map fun scanFun => (scanFun fd path mimeType).1

/-- One step of the running status. -/
def adopt (current answer : A6oFileStatus) : Except Fault A6oFileStatus := do
  let order ← a6oFileStatusCmp current answer
  return if order < 0 then answer else current

/-- The final status and the answers that were asked for. -/
def combine : A6oFileStatus → List A6oFileStatus →
    Except Fault (A6oFileStatus × List A6oFileStatus)
  | current, [] => .ok (current, [])
  | current, answer :: answers => do
    let current ← adopt current answer
    if current.IsAuthoritative then
      return (current, [answer])
    else do
      let r ← combine current answers
      return (r.1, answer :: r.2)

/-- The scan is `combine` on the answers, when every seek succeeds and no
called module lacks its function. -/
theorem scanApplyModulesFrom_combine {seekOk : Nat → Bool} (hseek : ∀ n, seekOk n = true)
    (fd : Int) (path : Option CString) (mimeType : CString) (modules : List A6oModule)
    (hfun : ∀ m ∈ modules, m.status = .ok → m.scanFun.isSome) :
    ∀ (n : Nat) (current : A6oFileStatus) (report : Option A6oReport),
      (scanApplyModulesFrom seekOk fd path mimeType n current report modules).map
          (fun run => (run.status, run.calls.map ModuleCall.status))
        = combine current (moduleAnswers fd path mimeType modules) := by
  induction modules with
  | nil => intro n current report; rfl
  | cons mod mods ih =>
    intro n current report
    have ih := ih fun m hm => hfun m (List.mem_cons_of_mem _ hm)
    by_cases hok : mod.status = .ok
    · obtain ⟨scanFun, hscan⟩ := Option.isSome_iff_exists.mp (hfun mod (by simp) hok)
      have hans : moduleAnswers fd path mimeType (mod :: mods)
          = (scanFun fd path mimeType).1 :: moduleAnswers fd path mimeType mods := by
        simp [moduleAnswers, hok, hscan]
      rw [hans, scanApplyModulesFrom, combine, adopt]
      simp only [hok, hseek, hscan, ne_eq, not_true_eq_false, if_false, Bool.not_true,
        Bool.false_eq_true]
      cases hcmp : a6oFileStatusCmp current (scanFun fd path mimeType).1 with
      | error e => rfl
      | ok order =>
        simp only [bind, Except.bind, pure, Except.pure, A6oFileStatus.IsAuthoritative]
        generalize (if order < 0 then (scanFun fd path mimeType).1 else current) = next
        generalize (if order < 0 then report.map _ else report) = report'
        by_cases hend : next = .whiteListed ∨ next = .malware
        · simp [hend, Except.map]
        · simp only [hend, if_false]
          rw [← ih (n + 1) next report']
          cases scanApplyModulesFrom seekOk fd path mimeType (n + 1) next report' mods <;>
            rfl
    · have hans : moduleAnswers fd path mimeType (mod :: mods)
          = moduleAnswers fd path mimeType mods := by
        simp [moduleAnswers, hok]
      rw [hans, scanApplyModulesFrom, if_pos hok]
      exact ih n current report

/-! ## The running status -/

theorem adopt_gap {g : A6oFileStatus} (hg : g.IsGap) (answer : A6oFileStatus) :
    adopt g answer = if answer = g then .ok g else .error .assertFailed := by
  rcases hg with rfl | rfl <;> cases answer <;> rfl

/-- A running status is replaced by every answer of the gap and by every
authoritative one. -/
theorem adopt_of_not_running {current answer : A6oFileStatus} (hc : current.IsRunning)
    (ha : answer.IsGap ∨ answer.IsAuthoritative) : adopt current answer = .ok answer := by
  obtain ⟨hg, hn⟩ := hc
  cases current <;> cases answer <;>
    simp_all [A6oFileStatus.IsGap, A6oFileStatus.IsAuthoritative] <;> rfl

/-- Between running statuses the step keeps running, and keeps an alarm. -/
theorem adopt_of_running {current answer : A6oFileStatus} (hc : current.IsRunning)
    (ha : answer.IsRunning) :
    ∃ next, adopt current answer = .ok next ∧ next.IsRunning ∧
      (next = .suspicious ↔ current = .suspicious ∨ answer = .suspicious) := by
  obtain ⟨hg, hn⟩ := hc
  obtain ⟨hg', hn'⟩ := ha
  cases current <;> cases answer <;>
    simp_all [A6oFileStatus.IsGap, A6oFileStatus.IsAuthoritative,
      A6oFileStatus.IsRunning, adopt, a6oFileStatusCmp, bind, Except.bind, pure,
      Except.pure]

theorem combine_cons (current answer : A6oFileStatus) (answers : List A6oFileStatus) :
    combine current (answer :: answers) = (adopt current answer).bind fun next =>
      if next.IsAuthoritative then .ok (next, [answer])
      else (combine next answers).map fun p => (p.1, answer :: p.2) := by
  rw [combine]
  cases adopt current answer with
  | error e => rfl
  | ok next =>
    simp only [bind, Except.bind]
    by_cases hend : next.IsAuthoritative
    · simp [hend, pure, Except.pure]
    · simp only [hend, if_false]
      cases combine next answers <;> rfl

/-- From a gap status on, every further answer must be that status. -/
theorem combine_gap {g : A6oFileStatus} (hg : g.IsGap) (answers : List A6oFileStatus) :
    combine g answers =
      if ∀ t ∈ answers, t = g then .ok (g, answers) else .error .assertFailed := by
  have hna : ¬ g.IsAuthoritative := by
    rcases hg with rfl | rfl <;> decide
  induction answers with
  | nil => simp [combine]
  | cons t answers ih =>
    rw [combine_cons, adopt_gap hg]
    by_cases ht : t = g
    · subst ht
      rw [if_pos rfl]
      simp only [Except.bind, hna, if_false, ih]
      by_cases hall : ∀ u ∈ answers, u = t
      · rw [if_pos hall, if_pos (by simpa using hall)]
        rfl
      · rw [if_neg hall, if_neg (by simpa using hall)]
        rfl
    · simp [ht, Except.bind]

/-! ## When the combination works -/

/-- Answers `A6O_FILE_UNKNOWN_TYPE` and `A6O_FILE_EINVAL` do no harm: when
one is reached before an authoritative answer, no module before it raised
an alarm and every module after it answers the same. -/
def GapsHarmless (answers : List A6oFileStatus) : Prop :=
  ∀ pre s post, answers = pre ++ s :: post → s.IsGap →
    (∀ t ∈ pre, ¬ t.IsAuthoritative) →
    .suspicious ∉ pre ∧ ∀ t ∈ post, t = s

/-- The same for the answers that remain, when `alarm` tells whether one
was raised before. -/
def GapsHarmlessAfter (alarm : Prop) (answers : List A6oFileStatus) : Prop :=
  ∀ pre s post, answers = pre ++ s :: post → s.IsGap →
    (∀ t ∈ pre, ¬ t.IsAuthoritative) →
    ¬ (alarm ∨ .suspicious ∈ pre) ∧ ∀ t ∈ post, t = s

theorem gapsHarmless_iff_after (answers : List A6oFileStatus) :
    GapsHarmless answers ↔ GapsHarmlessAfter False answers := by
  simp [GapsHarmless, GapsHarmlessAfter]

theorem gapsHarmlessAfter_nil (alarm : Prop) : GapsHarmlessAfter alarm [] := by
  intro pre s post h
  simp at h

/-- An authoritative answer ends the scan; what follows does not matter. -/
theorem gapsHarmlessAfter_cons_authoritative (alarm : Prop) {s : A6oFileStatus}
    (hs : s.IsAuthoritative) (answers : List A6oFileStatus) :
    GapsHarmlessAfter alarm (s :: answers) := by
  intro pre t post h ht hpre
  cases pre with
  | nil =>
    obtain ⟨rfl, -⟩ := List.cons.inj h
    rcases hs with rfl | rfl <;> exact absurd ht (by decide)
  | cons x pre =>
    obtain ⟨rfl, -⟩ := List.cons.inj h
    exact absurd hs (hpre s (by simp))

theorem gapsHarmlessAfter_cons_gap (alarm : Prop) {g : A6oFileStatus} (hg : g.IsGap)
    (answers : List A6oFileStatus) :
    GapsHarmlessAfter alarm (g :: answers) ↔ ¬ alarm ∧ ∀ t ∈ answers, t = g := by
  constructor
  · intro h
    simpa using h [] g answers rfl hg (by simp)
  · rintro ⟨halarm, hall⟩ pre s post h hs hpre
    have hmem : ∀ t ∈ g :: answers, t = g := by simpa using hall
    rw [h] at hmem
    have hsg : s = g := hmem s (by simp)
    refine ⟨?_, fun t ht => by rw [hmem t (by simp [ht]), hsg]⟩
    rintro (ha | hsus)
    · exact halarm ha
    · have : A6oFileStatus.suspicious = g := hmem _ (by simp [hsus])
      rcases hg with rfl | rfl <;> cases this

theorem gapsHarmlessAfter_cons_running (alarm : Prop) {s : A6oFileStatus}
    (hs : s.IsRunning) (answers : List A6oFileStatus) :
    GapsHarmlessAfter alarm (s :: answers) ↔
      GapsHarmlessAfter (alarm ∨ s = .suspicious) answers := by
  constructor
  · intro h pre t post heq ht hpre
    have hpre' : ∀ u ∈ s :: pre, ¬ u.IsAuthoritative := by
      simpa [hs.2] using hpre
    have := h (s :: pre) t post (by rw [heq, List.cons_append]) ht hpre'
    simpa [eq_comm, or_assoc] using this
  · intro h pre t post heq ht hpre
    cases pre with
    | nil =>
      obtain ⟨rfl, -⟩ := List.cons.inj heq
      exact absurd ht hs.1
    | cons x pre =>
      obtain ⟨rfl, htail⟩ := List.cons.inj heq
      have := h pre t post htail ht fun u hu => hpre u (by simp [hu])
      simpa [eq_comm, or_assoc] using this

/-- The combination comes to an end without the assertion, and its status
keeps an alarm, whether raised before (`alarm`) or by a called module. -/
def CombinesWell (alarm : Prop) (r : Except Fault (A6oFileStatus × List A6oFileStatus)) :
    Prop :=
  ∃ final called, r = .ok (final, called) ∧
    (alarm ∨ .suspicious ∈ called → final.KeepsAlarm)

theorem combinesWell_error (alarm : Prop) (e : Fault) :
    ¬ CombinesWell alarm (.error e) := by
  rintro ⟨final, called, h, -⟩
  cases h

theorem combinesWell_ok (alarm : Prop) (final : A6oFileStatus)
    (called : List A6oFileStatus) :
    CombinesWell alarm (.ok (final, called)) ↔
      (alarm ∨ .suspicious ∈ called → final.KeepsAlarm) := by
  constructor
  · rintro ⟨final, called, h, hkeep⟩
    cases h
    exact hkeep
  · intro h
    exact ⟨final, called, rfl, h⟩

/-- An answer asked for before the rest only adds to the pending alarm. -/
theorem combinesWell_cons (alarm : Prop) (answer : A6oFileStatus)
    (r : Except Fault (A6oFileStatus × List A6oFileStatus)) :
    CombinesWell alarm (r.map fun p => (p.1, answer :: p.2)) ↔
      CombinesWell (alarm ∨ answer = .suspicious) r := by
  cases r with
  | error e => simp [Except.map, combinesWell_error]
  | ok p =>
    rw [Except.map, combinesWell_ok, combinesWell_ok, List.mem_cons, eq_comm (b := answer),
      or_assoc]

/-- The combination from a running status works exactly when the gaps are
harmless after it. The induction is on the answers; one case for each
kind of answer. -/
theorem combinesWell_iff (answers : List A6oFileStatus) :
    ∀ {current : A6oFileStatus}, current.IsRunning →
      (CombinesWell (current = .suspicious) (combine current answers) ↔
        GapsHarmlessAfter (current = .suspicious) answers) := by
  induction answers with
  | nil =>
    intro current _
    rw [combine, combinesWell_ok]
    simp +contextual [gapsHarmlessAfter_nil, A6oFileStatus.KeepsAlarm]
  | cons answer answers ih =>
    intro current hc
    rw [combine_cons]
    -- authoritative answers end the scan, gaps must stay, running ones go on
    by_cases hauth : answer.IsAuthoritative
    · rw [adopt_of_not_running hc (.inr hauth), Except.bind, if_pos hauth, combinesWell_ok]
      simp only [gapsHarmlessAfter_cons_authoritative _ hauth answers, iff_true]
      exact fun _ => .inr hauth
    · by_cases hgap : answer.IsGap
      · rw [adopt_of_not_running hc (.inl hgap), Except.bind, if_neg hauth,
          combinesWell_cons, combine_gap hgap, gapsHarmlessAfter_cons_gap _ hgap]
        have hns : ¬ answer.KeepsAlarm := by
          rcases hgap with rfl | rfl <;> simp [A6oFileStatus.KeepsAlarm]
        have hne : answer ≠ .suspicious := fun h => hns (.inl h)
        split
        · next hall =>
          rw [combinesWell_ok]
          have hmem : A6oFileStatus.suspicious ∉ answers := fun h => hne (hall _ h).symm
          simp only [hne, hmem, hns, or_false, imp_false]
          exact ⟨fun h => ⟨h, hall⟩, fun h => h.1⟩
        · next hall => simp [combinesWell_error, hall]
      · obtain ⟨next, hstep, hnext, hsus⟩ := adopt_of_running hc ⟨hgap, hauth⟩
        rw [hstep, Except.bind, if_neg hnext.2, combinesWell_cons, ← hsus, ih hnext, hsus,
          ← gapsHarmlessAfter_cons_running _ ⟨hgap, hauth⟩]

/-- **The verdict is total and keeps every alarm if and only if the gaps
are harmless.** With every seek succeeding, the modules are applied
without reaching the assertion, and a suspicious answer of a called module
is not lost, exactly when no `A6O_FILE_UNKNOWN_TYPE` or `A6O_FILE_EINVAL`
that is reached follows an alarm or comes before a different answer. -/
theorem scanApplyModules_total_iff (seekOk : Nat → Bool) (fd : Int)
    (path : Option CString) (mimeType : CString) (modules : List A6oModule)
    (report : Option A6oReport) (hseek : ∀ n, seekOk n = true)
    (hfun : ∀ m ∈ modules, m.status = .ok → m.scanFun.isSome) :
    (∃ run, scanApplyModules seekOk fd path mimeType modules report = .ok run ∧
        ((∃ call ∈ run.calls, call.status = .suspicious) →
          run.status = .suspicious ∨ run.status = .whiteListed ∨ run.status = .malware)) ↔
      GapsHarmless (moduleAnswers fd path mimeType modules) := by
  have hcombine := scanApplyModulesFrom_combine hseek fd path mimeType modules hfun 0
    .undecided report
  have hrun : A6oFileStatus.undecided.IsRunning := by
    simp [A6oFileStatus.IsRunning, A6oFileStatus.IsGap, A6oFileStatus.IsAuthoritative]
  have hiff := combinesWell_iff (moduleAnswers fd path mimeType modules) hrun
  rw [← hcombine] at hiff
  rw [gapsHarmless_iff_after]
  simp only [reduceCtorEq] at hiff
  rw [← hiff, scanApplyModules]
  cases scanApplyModulesFrom seekOk fd path mimeType 0 .undecided report modules with
  | error e => simp [Except.map, combinesWell_error]
  | ok run =>
    rw [Except.map, combinesWell_ok]
    simp [A6oFileStatus.KeepsAlarm]

/-! ## Where it fails -/

/-- A module that always gives one answer. -/
def constModule (name : String) (answer : A6oFileStatus) : A6oModule :=
  { name := name.toList, status := .ok, supportedMimeTypes := some ["*".toList],
    scanFun := some fun _ _ _ => (answer, none) }

/-- A module that finds the file's type unknown, before one that finds the
file clean: the assertion. After one that finds it suspicious: the alarm
is overwritten. -/
theorem scanApplyModules_gap :
    scanApplyModules (fun _ => true) 3 none "text/plain".toList
        [constModule "a" .unknownType, constModule "b" .clean] none
      = .error .assertFailed ∧
    ∃ run, scanApplyModules (fun _ => true) 3 none "text/plain".toList
        [constModule "a" .suspicious, constModule "b" .unknownType] none = .ok run ∧
      (∃ call ∈ run.calls, call.status = .suspicious) ∧ run.status = .unknownType := by
  refine ⟨rfl, _, rfl, ?_, rfl⟩
  exact ⟨_, List.mem_cons_self, rfl⟩

theorem scanApplyModules_total_clean_suspicious :
    ∃ run, scanApplyModules (fun _ => true) 3 none "text/plain".toList
        [constModule "a" .clean, constModule "b" .suspicious] none = .ok run ∧
      ((∃ call ∈ run.calls, call.status = .suspicious) →
        run.status = .suspicious ∨ run.status = .whiteListed ∨ run.status = .malware) := by
  refine (scanApplyModules_total_iff (fun _ => true) 3 none "text/plain".toList
    [constModule "a" .clean, constModule "b" .suspicious] none (fun _ => rfl) ?_).mpr ?_
  · intro m hm _
    simp only [List.mem_cons, List.not_mem_nil, or_false] at hm
    rcases hm with rfl | rfl <;> rfl
  · intro pre s post h hs
    have hmem : s ∈ [A6oFileStatus.clean, A6oFileStatus.suspicious] := by
      have : s ∈ pre ++ s :: post := by simp
      rwa [← h] at this
    simp only [List.mem_cons, List.not_mem_nil, or_false] at hmem
    rcases hmem with rfl | rfl <;> exact absurd hs (by decide)

end Armadito.Core
