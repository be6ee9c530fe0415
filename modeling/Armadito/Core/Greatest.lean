import Armadito.Core.Verdict

/-!
# Core.Greatest

The verdict as a maximum. On the six statuses the comparison of `status.c`
has a case for, it is the comparison of the enumerators, so the running
status of `scan_apply_modules` is the greatest answer so far. The exit
after an authoritative answer cuts the list of answers; only a white
listing can hide a greater one behind the cut.
-/

namespace Armadito.Core

/-- The list up to the first element with the property, that one
included. -/
def cutAfter {α : Type*} (p : α → Bool) : List α → List α
  | [] => []
  | a :: as => if p a then [a] else a :: cutAfter p as

/-- `s` is a greatest element of the list, in the order of the
enumerators. -/
def IsGreatestStatus (s : A6oFileStatus) (l : List A6oFileStatus) : Prop :=
  s ∈ l ∧ ∀ t ∈ l, t.value ≤ s.value

/-- What a module answers for a file; `none` when it cannot be called. -/
def moduleAnswer (fd : Int) (path : Option CString) (mimeType : CString)
    (m : A6oModule) : Option A6oFileStatus :=
  m.scanFun.map fun scanFun => (scanFun fd path mimeType).1

/-- The answer ends the scan. -/
def endsScan (answer : A6oFileStatus) : Bool :=
  decide answer.IsAuthoritative

/-- The modules whose own status is `A6O_MOD_OK`, cut after the first one
with an authoritative answer. -/
def calledModules (fd : Int) (path : Option CString) (mimeType : CString)
    (modules : List A6oModule) : List A6oModule :=
  cutAfter (fun m => (moduleAnswer fd path mimeType m).any endsScan)
    (modules.filter fun m => m.status = .ok)

/-! ## Cutting a list -/

theorem cutAfter_isPrefix {α : Type*} (p : α → Bool) (l : List α) : cutAfter p l <+: l := by
  induction l with
  | nil => exact List.prefix_rfl
  | cons a as ih =>
    rw [cutAfter]
    split
    · exact ⟨as, rfl⟩
    · exact List.cons_prefix_cons.mpr ⟨rfl, ih⟩

/-- Cutting commutes with reading the elements. -/
theorem cutAfter_filterMap {α β : Type*} (f : α → Option β) (p : β → Bool) (l : List α)
    (hf : ∀ a ∈ l, (f a).isSome) :
    cutAfter p (l.filterMap f) = (cutAfter (fun a => (f a).any p) l).filterMap f := by
  induction l with
  | nil => rfl
  | cons a as ih =>
    obtain ⟨b, hb⟩ := Option.isSome_iff_exists.mp (hf a List.mem_cons_self)
    have ih := ih fun x hx => hf x (List.mem_cons_of_mem _ hx)
    rw [List.filterMap_cons_some hb, cutAfter, cutAfter, hb, Option.any_some]
    split
    · rw [List.filterMap_cons_some hb, List.filterMap_nil]
    · rw [List.filterMap_cons_some hb, ih]

/-- Nothing is lost by a cut when every element that ends the list is one
of the rest at least. -/
theorem mem_cutAfter_or {α : Type*} (p : α → Bool) {l : List α} {a : α} (ha : a ∈ l) :
    a ∈ cutAfter p l ∨ ∃ b ∈ cutAfter p l, p b = true := by
  induction l with
  | nil => cases ha
  | cons x xs ih =>
    rw [cutAfter]
    split
    · next hx => exact .inr ⟨x, List.mem_cons_self, hx⟩
    · rcases List.mem_cons.mp ha with rfl | ha
      · exact .inl List.mem_cons_self
      · rcases ih ha with h | ⟨b, hb, hp⟩
        · exact .inl (List.mem_cons_of_mem _ h)
        · exact .inr ⟨b, List.mem_cons_of_mem _ hb, hp⟩

/-! ## Greatest statuses -/

theorem A6oFileStatus.value_injective : Function.Injective A6oFileStatus.value := by
  intro s t h
  cases s <;> cases t <;> first | rfl | exact absurd h (by decide)

theorem A6oFileStatus.value_le_malware (s : A6oFileStatus) :
    s.value ≤ A6oFileStatus.malware.value := by
  cases s <;> decide

theorem isGreatestStatus_singleton (s : A6oFileStatus) : IsGreatestStatus s [s] := by
  simp [IsGreatestStatus]

theorem IsGreatestStatus.unique {s t : A6oFileStatus} {l : List A6oFileStatus}
    (hs : IsGreatestStatus s l) (ht : IsGreatestStatus t l) : s = t :=
  A6oFileStatus.value_injective (Int.le_antisymm (ht.2 s hs.1) (hs.2 t ht.1))

theorem IsGreatestStatus.perm {s : A6oFileStatus} {l l' : List A6oFileStatus}
    (h : IsGreatestStatus s l) (hp : l.Perm l') : IsGreatestStatus s l' :=
  ⟨hp.mem_iff.mp h.1, fun t ht => h.2 t (hp.mem_iff.mpr ht)⟩

/-- The greater of two statuses, then the greatest of that one and the
rest. -/
theorem IsGreatestStatus.cons {s t u : A6oFileStatus} {l : List A6oFileStatus}
    (hu : IsGreatestStatus u [s, t]) {final : A6oFileStatus}
    (h : IsGreatestStatus final (u :: l)) : IsGreatestStatus final (s :: t :: l) := by
  obtain ⟨hmem, hle⟩ := h
  have hu' : u.value ≤ final.value := hle u List.mem_cons_self
  refine ⟨?_, ?_⟩
  · rcases List.mem_cons.mp hmem with rfl | hmem
    · have := hu.1
      simp only [List.mem_cons, List.not_mem_nil, or_false] at this
      rcases this with rfl | rfl <;> simp
    · simp [hmem]
  · intro v hv
    rcases List.mem_cons.mp hv with rfl | hv
    · exact Int.le_trans (hu.2 v List.mem_cons_self) hu'
    · rcases List.mem_cons.mp hv with rfl | hv
      · exact Int.le_trans (hu.2 v (by simp)) hu'
      · exact hle v (List.mem_cons_of_mem _ hv)

/-- Behind a cut that is not a white listing there is no greater status:
it is `A6O_FILE_MALWARE`, or there is no cut. -/
theorem isGreatestStatus_of_cut {s current : A6oFileStatus} {answers : List A6oFileStatus}
    (hwl : .whiteListed ∉ answers)
    (h : IsGreatestStatus s (current :: cutAfter endsScan answers)) :
    IsGreatestStatus s (current :: answers) := by
  obtain ⟨hmem, hle⟩ := h
  have hsub := (cutAfter_isPrefix endsScan answers).subset
  refine ⟨List.cons_subset_cons current hsub hmem, ?_⟩
  intro t ht
  rcases List.mem_cons.mp ht with rfl | ht
  · exact hle t List.mem_cons_self
  · rcases mem_cutAfter_or endsScan ht with hcut | ⟨b, hb, hend⟩
    · exact hle t (List.mem_cons_of_mem _ hcut)
    · have hb' : b = .malware := by
        rcases of_decide_eq_true hend with rfl | rfl
        · exact absurd (hsub hb) hwl
        · rfl
      subst hb'
      exact Int.le_trans t.value_le_malware (hle _ (List.mem_cons_of_mem _ hb))

/-! ## The loop on the answers -/

/-- On the statuses the comparison knows, one step takes the greater. -/
theorem adopt_greatest {current answer : A6oFileStatus} (hc : ¬ current.IsGap)
    (ha : ¬ answer.IsGap) :
    ∃ next, adopt current answer = .ok next ∧ IsGreatestStatus next [current, answer] := by
  have hadopt : adopt current answer
      = .ok (if current.value < answer.value then answer else current) := by
    cases current <;> cases answer <;>
      first | rfl | exact absurd (by decide) hc | exact absurd (by decide) ha
  refine ⟨_, hadopt, ?_⟩
  split
  · next hlt => simp [IsGreatestStatus, Int.le_of_lt hlt]
  · next hlt => simp [IsGreatestStatus, Int.not_lt.mp hlt]

/-- From a running status that is not authoritative the loop asks for the
answers up to the first authoritative one and ends with the greatest. -/
theorem combine_greatest (answers : List A6oFileStatus) (hgap : ∀ t ∈ answers, ¬ t.IsGap) :
    ∀ {current : A6oFileStatus}, current.IsRunning →
      ∃ final, combine current answers = .ok (final, cutAfter endsScan answers) ∧
        IsGreatestStatus final (current :: cutAfter endsScan answers) := by
  induction answers with
  | nil =>
    intro current _
    exact ⟨current, rfl, isGreatestStatus_singleton current⟩
  | cons answer answers ih =>
    intro current hc
    have hgap' : ∀ t ∈ answers, ¬ t.IsGap := fun t ht => hgap t (List.mem_cons_of_mem _ ht)
    obtain ⟨next, hstep, hnext⟩ := adopt_greatest hc.1 (hgap answer List.mem_cons_self)
    rw [combine_cons, hstep, Except.bind, cutAfter]
    by_cases hauth : answer.IsAuthoritative
    -- an authoritative answer replaces a running status and ends the loop
    · rw [adopt_of_not_running hc (.inr hauth)] at hstep
      cases hstep
      have hend : endsScan answer = true := decide_eq_true hauth
      rw [if_pos hauth, if_pos hend]
      exact ⟨answer, rfl, hnext⟩
    · have hrun := adopt_of_running hc ⟨hgap answer List.mem_cons_self, hauth⟩
      obtain ⟨next', hstep', hnext', -⟩ := hrun
      rw [hstep'] at hstep
      cases hstep
      obtain ⟨final, hfinal, hgreatest⟩ := ih hgap' hnext'
      rw [if_neg hnext'.2, if_neg (by simpa [endsScan] using hauth), hfinal]
      exact ⟨final, rfl, hnext.cons hgreatest⟩

/-! ## The calls -/

/-- The modules that were called are the first active ones. -/
theorem scanApplyModulesFrom_isPrefix {seekOk : Nat → Bool} {fd : Int}
    {path : Option CString} {mimeType : CString} (modules : List A6oModule) :
    ∀ {n : Nat} {current : A6oFileStatus} {report : Option A6oReport} {run : ScanRun},
      scanApplyModulesFrom seekOk fd path mimeType n current report modules = .ok run →
      run.calls.map ModuleCall.module <+: modules.filter fun m => m.status = .ok := by
  induction modules with
  | nil =>
    intro n current report run h
    cases h
    exact List.nil_prefix
  | cons mod mods ih =>
    intro n current report run h
    rw [scanApplyModulesFrom] at h
    by_cases hok : mod.status = .ok
    · rw [if_neg (by simp [hok])] at h
      rw [List.filter_cons_of_pos (by simp [hok])]
      split at h
      · cases h
        exact List.nil_prefix
      · split at h
        · cases h
        · obtain ⟨order, -, h⟩ := bind_eq_ok.mp h
          dsimp only at h
          generalize (if order < 0 then _ else current) = next at h
          generalize (if order < 0 then _ else report) = report' at h
          split at h
          · cases h
            exact List.cons_prefix_cons.mpr ⟨rfl, List.nil_prefix⟩
          · obtain ⟨run', hrun', h⟩ := bind_eq_ok.mp h
            cases h
            exact List.cons_prefix_cons.mpr ⟨rfl, ih hrun'⟩
    · rw [if_pos hok] at h
      rw [List.filter_cons_of_neg (by simp [hok])]
      exact ih h

theorem moduleAnswers_eq_filterMap (fd : Int) (path : Option CString) (mimeType : CString)
    (modules : List A6oModule) :
    moduleAnswers fd path mimeType modules
      = (modules.filter fun m => m.status = .ok).filterMap (moduleAnswer fd path mimeType) :=
  rfl

/-- Every active module can be called and answers in the statuses the
comparison has a case for. -/
def AnswersKnown (fd : Int) (path : Option CString) (mimeType : CString)
    (modules : List A6oModule) : Prop :=
  ∀ m ∈ modules, m.status = .ok →
    ∃ answer, moduleAnswer fd path mimeType m = some answer ∧ ¬ answer.IsGap

theorem AnswersKnown.perm {fd : Int} {path : Option CString} {mimeType : CString}
    {modules modules' : List A6oModule} (h : AnswersKnown fd path mimeType modules)
    (hp : modules.Perm modules') : AnswersKnown fd path mimeType modules' :=
  fun m hm => h m (hp.mem_iff.mpr hm)

theorem AnswersKnown.isSome {fd : Int} {path : Option CString} {mimeType : CString}
    {modules : List A6oModule} (h : AnswersKnown fd path mimeType modules) :
    ∀ m ∈ modules.filter fun m => m.status = .ok,
      (moduleAnswer fd path mimeType m).isSome := by
  intro m hm
  obtain ⟨hm, hok⟩ := List.mem_filter.mp hm
  obtain ⟨answer, hanswer, -⟩ := h m hm (of_decide_eq_true hok)
  rw [hanswer]
  rfl

theorem AnswersKnown.scanFun {fd : Int} {path : Option CString} {mimeType : CString}
    {modules : List A6oModule} (hans : AnswersKnown fd path mimeType modules) :
    ∀ m ∈ modules, m.status = .ok → m.scanFun.isSome := by
  intro m hm hok
  obtain ⟨answer, hanswer, -⟩ := hans m hm hok
  cases hfun : m.scanFun with
  | none => simp [moduleAnswer, hfun] at hanswer
  | some scanFun => rfl

theorem AnswersKnown.noGap {fd : Int} {path : Option CString} {mimeType : CString}
    {modules : List A6oModule} (hans : AnswersKnown fd path mimeType modules) :
    ∀ t ∈ moduleAnswers fd path mimeType modules, ¬ t.IsGap := by
  intro t ht
  rw [moduleAnswers_eq_filterMap, List.mem_filterMap] at ht
  obtain ⟨m, hm, ht⟩ := ht
  obtain ⟨hm, hok⟩ := List.mem_filter.mp hm
  obtain ⟨answer, hanswer, hgap⟩ := hans m hm (of_decide_eq_true hok)
  rw [ht] at hanswer
  cases hanswer
  exact hgap

/-- As many answers as called modules. -/
theorem length_cut_moduleAnswers {fd : Int} {path : Option CString} {mimeType : CString}
    {modules : List A6oModule} (h : AnswersKnown fd path mimeType modules) :
    (cutAfter endsScan (moduleAnswers fd path mimeType modules)).length
      = (calledModules fd path mimeType modules).length := by
  rw [moduleAnswers_eq_filterMap, cutAfter_filterMap _ _ _ h.isSome]
  exact List.filterMap_length_eq_length.mpr
    fun m hm => h.isSome m ((cutAfter_isPrefix _ _).subset hm)

/-- The scan of such modules, with every seek succeeding: who is called,
what they answered and the verdict. -/
theorem scanApplyModules_run {seekOk : Nat → Bool} (hseek : ∀ n, seekOk n = true)
    {fd : Int} {path : Option CString} {mimeType : CString} {modules : List A6oModule}
    (report : Option A6oReport) (hans : AnswersKnown fd path mimeType modules) :
    ∃ run, scanApplyModules seekOk fd path mimeType modules report = .ok run ∧
      run.calls.map ModuleCall.module = calledModules fd path mimeType modules ∧
      run.calls.map ModuleCall.status
        = cutAfter endsScan (moduleAnswers fd path mimeType modules) ∧
      IsGreatestStatus run.status
        (.undecided :: cutAfter endsScan (moduleAnswers fd path mimeType modules)) := by
  have hrunning : A6oFileStatus.undecided.IsRunning := by
    simp [A6oFileStatus.IsRunning, A6oFileStatus.IsGap, A6oFileStatus.IsAuthoritative]
  obtain ⟨final, hfinal, hgreatest⟩ :=
    combine_greatest (moduleAnswers fd path mimeType modules) hans.noGap hrunning
  have hcombine := scanApplyModulesFrom_combine hseek fd path mimeType modules hans.scanFun 0
    .undecided report
  rw [hfinal] at hcombine
  cases hrun : scanApplyModulesFrom seekOk fd path mimeType 0 .undecided report modules with
  | error e =>
    rw [hrun] at hcombine
    cases hcombine
  | ok run =>
    rw [hrun] at hcombine
    have hpair := Except.ok.inj hcombine
    have hstatus : run.status = final := congrArg Prod.fst hpair
    have hcalls : run.calls.map ModuleCall.status
        = cutAfter endsScan (moduleAnswers fd path mimeType modules) :=
      congrArg Prod.snd hpair
    refine ⟨run, hrun, ?_, hcalls, hstatus ▸ hgreatest⟩
    -- both are prefixes of the active modules, of the same length
    have hlen : (run.calls.map ModuleCall.module).length
        = (calledModules fd path mimeType modules).length := by
      rw [List.length_map, ← length_cut_moduleAnswers hans, ← hcalls, List.length_map]
    exact (List.prefix_of_prefix_length_le (scanApplyModulesFrom_isPrefix modules hrun)
      (cutAfter_isPrefix _ _) (Nat.le_of_eq hlen)).eq_of_length hlen

/-- **The verdict is the greatest answer up to the first authoritative
one.** With every seek succeeding and every active module answering one of
the six statuses the comparison knows, exactly the active modules up to
the first authoritative answer are called, in order and once each, and the
verdict is the greatest of `A6O_FILE_UNDECIDED` and their answers. When no
active module white-lists the file, every permutation of the modules gives
the same verdict. -/
theorem scanApplyModules_greatest (seekOk : Nat → Bool) (fd : Int)
    (path : Option CString) (mimeType : CString) (modules : List A6oModule)
    (report : Option A6oReport) (hseek : ∀ n, seekOk n = true)
    (hans : AnswersKnown fd path mimeType modules) :
    ∃ run, scanApplyModules seekOk fd path mimeType modules report = .ok run ∧
      run.calls.map ModuleCall.module = calledModules fd path mimeType modules ∧
      run.calls.map ModuleCall.status
        = cutAfter endsScan (moduleAnswers fd path mimeType modules) ∧
      IsGreatestStatus run.status
        (.undecided :: cutAfter endsScan (moduleAnswers fd path mimeType modules)) ∧
      (.whiteListed ∉ moduleAnswers fd path mimeType modules →
        ∀ modules' : List A6oModule, modules.Perm modules' →
          ∃ run', scanApplyModules seekOk fd path mimeType modules' report = .ok run' ∧
            run'.status = run.status) := by
  obtain ⟨run, hrun, hmods, hcalls, hgreatest⟩ := scanApplyModules_run hseek report hans
  refine ⟨run, hrun, hmods, hcalls, hgreatest, ?_⟩
  intro hwl modules' hp
  obtain ⟨run', hrun', -, -, hgreatest'⟩ :=
    scanApplyModules_run hseek report (hans.perm hp)
  refine ⟨run', hrun', ?_⟩
  have hp' : (moduleAnswers fd path mimeType modules').Perm
      (moduleAnswers fd path mimeType modules) :=
    ((hp.filter _).filterMap _).symm
  have hwl' : .whiteListed ∉ moduleAnswers fd path mimeType modules' :=
    fun h => hwl (hp'.mem_iff.mp h)
  have hall' := isGreatestStatus_of_cut hwl' hgreatest'
  exact (hall'.perm (hp'.cons _)).unique (isGreatestStatus_of_cut hwl hgreatest)

theorem scanApplyModules_greatest_skipped :
    ∃ run, scanApplyModules (fun _ => true) 3 none "text/plain".toList
        [{ constModule "a" .malware with status := .initError }, constModule "b" .suspicious,
          constModule "c" .clean] none = .ok run ∧
      run.calls.map ModuleCall.module
        = [constModule "b" .suspicious, constModule "c" .clean] ∧
      run.status = .suspicious := by
  have hans : AnswersKnown 3 none "text/plain".toList
      [{ constModule "a" .malware with status := .initError }, constModule "b" .suspicious,
        constModule "c" .clean] := by
    intro m hm hok
    simp only [List.mem_cons, List.not_mem_nil, or_false] at hm
    rcases hm with rfl | rfl | rfl
    · cases hok
    · exact ⟨.suspicious, rfl, by decide⟩
    · exact ⟨.clean, rfl, by decide⟩
  obtain ⟨run, hrun, hmods, -, hgreatest, -⟩ := scanApplyModules_greatest (fun _ => true) 3
    none "text/plain".toList _ none (fun _ => rfl) hans
  refine ⟨run, hrun, hmods, ?_⟩
  have hsus : IsGreatestStatus .suspicious [.undecided, .suspicious, .clean] := by
    simp [IsGreatestStatus, A6oFileStatus.value]
  exact hgreatest.unique hsus

end Armadito.Core
