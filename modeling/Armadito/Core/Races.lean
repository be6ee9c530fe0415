import Armadito.Core.FixedFiles

/-!
# Core.Races

A pair of files whose scans can meet in the cache of the MIME types does
meet there in some run: the files before the second are finished or left
with their threads, and nothing is inserted on the way.
-/

namespace Armadito.Core.Pool

open EventNew Producers

/-! ## Scans that go well -/

/-- A system that answers as the files are. -/
def World.env (w : World) (stack : A6oScanContext) (path : CString) : Env :=
  { sys :=
      { osOpen := fun _ => if w.openable path then 3 else -1
        osMimeTypeGuessFd := fun _ => w.mimeType path }
    seekOk := w.seekOk path
    stack
    now := 0
    time := 0 }

theorem World.env_answers (w : World) (stack : A6oScanContext) (path : CString) :
    w.Answers (w.env stack path) (some path) := by
  intro p hp
  obtain rfl := Option.some.inj hp
  refine ⟨fun hopen => ?_, fun hclosed => ?_, rfl⟩
  · simp [World.env, hopen]
  · simp [World.env, hclosed]

section

variable {w : World} {conf : A6oScanConf}

/-- A file that does not end the process can be scanned to the end. -/
theorem scan_returns_some {conf' : A6oScanConf} (hmodules : ModulesFileOnly conf)
    (hsame : SameAnswers conf conf') {path : CString} (hclean : ¬ Crashes w conf path) :
    ∃ env scan conf'', w.Answers env (some path) ∧
      ScanReturns env conf' (some path) scan conf'' ∧ a6oScanContextDestroy scan = .ok () ∧
      SameAnswers conf conf'' := by
  have hw := w.env_answers (contextInit (-1)) path
  rcases scanFile_cases hw hmodules hsame with
    ⟨f, -, hmay⟩ | ⟨scan, conf'', hscan, hpath, -, hok, hsame'⟩
  · exact absurd hmay hclean
  · refine ⟨_, scan, conf'', hw, ⟨hscan, fun o => fireDetected_ok _ o ?_⟩, ?_, hsame'⟩
    · intro hcopy
      exact hclean (.inr ⟨scan.report, hok path rfl, hcopy⟩)
    · simp [a6oScanContextDestroy, hpath]

/-! ## The first pair -/

/-- A pair with an earlier second file. -/
theorem RacePair.earlier {before mid : List CString} {a b c : CString}
    (h : RacePair w conf before a mid b) (hc : c ∈ before ++ mid) (hins : Inserts w conf c) :
    ∃ before' a' mid' b' after, before ++ a :: mid = before' ++ a' :: mid' ++ b' :: after ∧
      RacePair w conf before' a' mid' b' := by
  have hlooks : w.lookUp conf c ≠ none := by
    obtain ⟨mimeType, hlookUp, -⟩ := hins
    simp [hlookUp]
  have hthreads := h.threads
  rcases List.mem_append.mp hc with hc | hc
  · obtain ⟨l, l', rfl⟩ := List.append_of_mem hc
    refine ⟨l, c, l', a, mid, by simp, hlooks, h.first, .inl hins, ?_⟩
    simp only [List.countP_append, List.countP_cons] at hthreads ⊢
    omega
  · obtain ⟨l, l', rfl⟩ := List.append_of_mem hc
    refine ⟨before, a, l, c, l', by simp, h.first, hlooks, .inr hins, ?_⟩
    simp only [List.countP_append, List.countP_cons] at hthreads ⊢
    omega

/-- The first pair has no file before it that inserts. By induction on the
number of the files. -/
theorem MayRace.first {paths : List CString} (h : MayRace w conf paths) :
    ∃ before a mid b after, paths = before ++ a :: mid ++ b :: after ∧
      RacePair w conf before a mid b ∧ ∀ c ∈ before ++ mid, ¬ Inserts w conf c := by
  induction hn : paths.length using Nat.strong_induction_on generalizing paths with
  | _ n ih =>
    obtain ⟨before, a, mid, b, after, rfl, hpair⟩ := h
    by_cases hins : ∃ c ∈ before ++ mid, Inserts w conf c
    · obtain ⟨c, hc, hc'⟩ := hins
      obtain ⟨before', a', mid', b', after', hsplit, hpair'⟩ := hpair.earlier hc hc'
      have hlt : (before ++ a :: mid).length < n := by
        have hlen : (before ++ a :: mid ++ b :: after).length =
            (before ++ a :: mid).length + (after.length + 1) := List.length_append
        omega
      obtain ⟨l, x, l', y, l'', heq, hfirst⟩ :=
        ih _ hlt ⟨before', a', mid', b', after', hsplit, hpair'⟩ rfl
      exact ⟨l, x, l', y, l'' ++ b :: after, by rw [heq]; simp, hfirst⟩
    · exact ⟨before, a, mid, b, after, rfl, hpair, fun c hc hi => hins ⟨c, hc, hi⟩⟩

/-! ## The run to the race -/

/-- A threaded scan that has not changed the cache. -/
structure Waiting (conf : A6oScanConf) (s : State) : Prop extends s.Quiet where
  threaded : s.onDemand.threaded
  conf : s.conf = conf

theorem Waiting.of_flags {s s' : State} (hs : Waiting conf s) (hquiet : s'.Quiet)
    (hflags : s'.onDemand.flags = s.onDemand.flags) (hconf : s'.conf = conf) :
    Waiting conf s' := by
  refine ⟨hquiet, ?_, hconf⟩
  have hthreaded := hs.threaded
  simp only [A6oOnDemand.threaded, A6oOnDemand.hasFlag, hflags] at hthreaded ⊢
  exact hthreaded

/-- The file waits for its thread to go on. -/
theorem Waiting.push {s : State} (hs : Waiting conf s) (path : CString) :
    ∃ s', Transition.Reaches step (ScansWith w.Answers) s [.handOver (.poolPush path)] s' ∧
      Waiting conf s' ∧ s'.tasks = s.tasks ++ [.queued (some path)] := by
  refine ⟨_, .cons (scansWith_of_no_threads rfl)
    (step_handOver hs.toLive (h := .poolPush path) hs.threaded) (.refl _), ?_, rfl⟩
  refine hs.of_flags ⟨⟨hs.stopped, hs.completed⟩, ?_⟩ rfl hs.conf
  simpa [Task.isRunning] using hs.running

/-- A file that does not insert is scanned to its end. -/
theorem Waiting.scan {s : State} (hs : Waiting conf s) (hmodules : ModulesFileOnly conf)
    {path : CString} (hclean : ¬ Crashes w conf path) (hnot : ¬ Inserts w conf path) :
    ∃ labels s' scan, Transition.Reaches step (ScansWith w.Answers) s labels s' ∧
      handedOver labels = [.poolPush path] ∧ Waiting conf s' ∧
      s'.tasks = s.tasks ++ [.done scan] := by
  obtain ⟨env, scan, conf', hw, hscan, hdestroy, -⟩ :=
    scan_returns_some hmodules (hs.conf ▸ .refl conf : SameAnswers conf s.conf) hclean
  have hconf' : conf' = conf := by
    rcases scanFile_conf hscan.scanFile with hsame | ⟨mimeType, modules, hlookUp, hfound⟩
    · exact hsame.trans hs.conf
    · rw [hs.conf] at hlookUp hfound
      refine getApplicableModules_of_not_inserts hfound ?_
      by_contra hins
      exact hnot ⟨mimeType, hw.lookUpOf conf ▸ hlookUp, by simpa using hins⟩
  obtain ⟨labels, s', hreach, hhanded, hlive, htasks, hconf, hflags⟩ :=
    scan_one (h := .poolPush path) hs.toQuiet hs.threaded hscan hdestroy hw
  refine ⟨labels, s', scan, hreach, hhanded, hs.of_flags ⟨hlive, ?_⟩ hflags (hconf.trans hconf'),
    htasks⟩
  rw [htasks, List.countP_append, hs.running]
  rfl

/-- Files of which none inserts: those that end the process are left with
their threads, the others are scanned to their end. -/
theorem Waiting.pass (hmodules : ModulesFileOnly conf) :
    ∀ (paths : List CString) (s : State), Waiting conf s →
      (∀ path ∈ paths, ¬ Inserts w conf path) →
      ∃ labels s' passed, Transition.Reaches step (ScansWith w.Answers) s labels s' ∧
        handedOver labels = paths.map .poolPush ∧ Waiting conf s' ∧
        s'.tasks = s.tasks ++ passed ∧
        passed.countP (!·.isDone) = paths.countP (Crashes w conf ·) := by
  intro paths
  induction paths with
  | nil =>
    intro s hs _
    exact ⟨[], s, [], .refl s, rfl, hs, (List.append_nil _).symm, rfl⟩
  | cons path paths ih =>
    intro s hs hnot
    have hone : ∃ labels s₁ t, Transition.Reaches step (ScansWith w.Answers) s labels s₁ ∧
        handedOver labels = [.poolPush path] ∧ Waiting conf s₁ ∧ s₁.tasks = s.tasks ++ [t] ∧
        (!t.isDone) = decide (Crashes w conf path) := by
      by_cases hcrash : Crashes w conf path
      · obtain ⟨s₁, hreach, hs₁, htasks⟩ := hs.push path
        exact ⟨_, s₁, _, hreach, rfl, hs₁, htasks, by simp [hcrash, Task.isDone]⟩
      · obtain ⟨labels, s₁, scan, hreach, hhanded, hs₁, htasks⟩ :=
          hs.scan hmodules hcrash (hnot path List.mem_cons_self)
        exact ⟨labels, s₁, _, hreach, hhanded, hs₁, htasks, by simp [hcrash, Task.isDone]⟩
    obtain ⟨labels, s₁, t, hreach, hhanded, hs₁, htasks, ht⟩ := hone
    obtain ⟨labels', s', passed, hreach', hhanded', hs', htasks', hpassed⟩ :=
      ih s₁ hs₁ fun p hp => hnot p (List.mem_cons_of_mem _ hp)
    refine ⟨labels ++ labels', s', t :: passed, hreach.append hreach', ?_, hs', ?_, ?_⟩
    · rw [handedOver_append, hhanded, hhanded', List.map_cons, List.singleton_append]
    · rw [htasks', htasks, List.append_assoc, List.singleton_append]
    · rw [List.countP_cons, List.countP_cons, hpassed, ht]

/-- Both files wait at the look-up. -/
theorem mayRace_last {s : State} {conf : A6oScanConf} (hs : Waiting conf s)
    {before mid : List Task} {a b : CString}
    (htasks : s.tasks = before ++ .queued (some a) :: mid ++ [.queued (some b)])
    (hfirst : w.lookUp conf a ≠ none) (hsecond : w.lookUp conf b ≠ none)
    (hinserts : Inserts w conf a ∨ Inserts w conf b)
    (hthreads : (before ++ mid).countP (!·.isDone) + 2 ≤ getMaxThreads) :
    ∃ i j env env', s.mayRace i j env env' ∧
      ScansWith w.Answers s (.race i j env env') := by
  let n := before.length
  let m := (before ++ .queued (some a) :: mid).length
  have hn : s.tasks[n]? = some (.queued (some a)) := by simp [htasks, n]
  have hm : s.tasks[m]? = some (.queued (some b)) := by
    rw [htasks, List.getElem?_concat_length]
  have hlt : n < m := by simp [n, m]
  have hlen : s.tasks.length = m + 1 := by rw [htasks, List.length_append, List.length_singleton]
  have htaken : s.taken m ≤ getMaxThreads := by
    rw [State.taken, ← hlen, List.take_length, List.drop_length, htasks]
    simp only [List.countP_append, List.countP_cons, List.countP_nil, Task.isDone,
      Bool.not_false, if_true] at hthreads ⊢
    omega
  let env := w.env (contextInit (-1))
  have hlookUp : ∀ p, lookUpOf (env p) s.conf (some p) = w.lookUp conf p := by
    intro p
    rw [hs.conf]
    exact (w.env_answers (contextInit (-1)) p).lookUpOf conf
  have hscans : ∀ {k : Nat} {p : CString}, s.tasks[k]? = some (.queued (some p)) →
      ∀ path, s.tasks[k]? = some (.queued path) → w.Answers (env p) path := by
    intro k p hk path hq
    obtain rfl : path = some p := by simpa [hk] using hq.symm
    exact w.env_answers (contextInit (-1)) p
  have hbuild : ∀ {i j : Nat} {p q : CString}, s.tasks[i]? = some (.queued (some p)) →
      s.tasks[j]? = some (.queued (some q)) → i ≠ j → max i j = m → Inserts w conf p →
      w.lookUp conf q ≠ none → ∃ i j env env', s.mayRace i j env env' ∧
        ScansWith w.Answers s (.race i j env env') := by
    rintro i j p q hi hj hne hmax ⟨mimeType, hp, hins⟩ hq
    refine ⟨i, j, env p, env q, mayRace_iff.mpr ⟨some p, some q, hi, hj, hs.threaded, hne,
      hmax ▸ htaken, ⟨mimeType, by rw [hlookUp, hp], hs.conf ▸ hins⟩, by rw [hlookUp]; exact hq⟩,
      ?_⟩
    intro k e path hk hpath
    simp only [Label.threads, List.mem_cons, List.not_mem_nil, or_false, Prod.mk.injEq] at hk
    rcases hk with ⟨rfl, rfl⟩ | ⟨rfl, rfl⟩
    · exact hscans hi path hpath
    · exact hscans hj path hpath
  rcases hinserts with hins | hins
  · exact hbuild hn hm (by omega) (by omega) hins hsecond
  · exact hbuild hm hn (by omega) (by omega) hins hfirst

/-- **The race happens.** -/
theorem race_reached {s : State} (hs : Waiting conf s) (hempty : s.tasks = [])
    (hmodules : ModulesFileOnly conf) {paths : List CString} (h : MayRace w conf paths) :
    ∃ labels s', Transition.Reaches step (ScansWith w.Answers) s labels s' ∧
      (handedOver labels).IsPrefix (paths.map .poolPush) ∧ s'.stopped = some .raced ∧
      s'.completed = false := by
  obtain ⟨before, a, mid, b, after, rfl, hpair, hnot⟩ := h.first
  obtain ⟨l₁, s₁, passed, hreach₁, hhanded₁, hs₁, htasks₁, hpassed⟩ :=
    Waiting.pass hmodules before s hs fun p hp => hnot p (List.mem_append_left _ hp)
  obtain ⟨s₂, hreach₂, hs₂, htasks₂⟩ := hs₁.push (w := w) a
  obtain ⟨l₃, s₃, passed', hreach₃, hhanded₃, hs₃, htasks₃, hpassed'⟩ :=
    Waiting.pass hmodules mid s₂ hs₂ fun p hp => hnot p (List.mem_append_right _ hp)
  obtain ⟨s₄, hreach₄, hs₄, htasks₄⟩ := hs₃.push (w := w) b
  have htasks : s₄.tasks
      = passed ++ .queued (some a) :: passed' ++ [.queued (some b)] := by
    simp [htasks₄, htasks₃, htasks₂, htasks₁, hempty]
  have hthreads : (passed ++ passed').countP (!·.isDone) + 2 ≤ getMaxThreads := by
    rw [List.countP_append, hpassed, hpassed', ← List.countP_append]
    exact hpair.threads
  obtain ⟨i, j, env, env', hrace, hscans⟩ :=
    mayRace_last hs₄ htasks hpair.first hpair.second hpair.inserts hthreads
  have hreach := ((hreach₁.append hreach₂).append hreach₃).append (hreach₄.append
    (.cons hscans (step_eq_some_iff.mpr ⟨hs₄.stopped, hs₄.completed,
      .race i j env env' hrace⟩) (.refl _)))
  refine ⟨_, _, hreach, ⟨after.map .poolPush, ?_⟩, rfl, hs₄.completed⟩
  simp [hhanded₁, hhanded₃]

end

end Armadito.Core.Pool
