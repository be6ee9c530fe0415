import Armadito.Core.PoolRuns

/-!
# Core.FileReport

What the scan of a file reports, as a function of the file.

The files do not change during a run and the modules' answers depend on
the file alone. Then the number of the descriptor the file is opened on and
the state of the MIME type cache make no difference to the report.
-/

namespace Armadito.Core.Pool

/-! ## The cache of MIME types -/

/-- The modules a configuration finds for a MIME type. -/
def answers (c : A6oScanConf) (mimeType : CString) :
    Except Fault (Option (List A6oModule)) :=
  (a6oScanConfGetApplicableModules c mimeType).map Prod.fst

/-- The two configurations find the same modules and exempt the same
directories, and the second has kept what the first had cached. -/
structure SameAnswers (c c' : A6oScanConf) : Prop where
  modules : ∀ mimeType, answers c' mimeType = answers c mimeType
  whiteList : c'.directoriesWhiteList = c.directoriesWhiteList
  cached : ∀ mimeType, c'.mimeTypeCache.lookup mimeType = none →
    c.mimeTypeCache.lookup mimeType = none

theorem SameAnswers.refl (c : A6oScanConf) : SameAnswers c c :=
  ⟨fun _ => rfl, rfl, fun _ h => h⟩

theorem SameAnswers.trans {a b c : A6oScanConf} (h : SameAnswers a b)
    (h' : SameAnswers b c) : SameAnswers a c :=
  ⟨fun m => (h'.modules m).trans (h.modules m), h'.whiteList.trans h.whiteList,
    fun m hm => h.cached m (h'.cached m hm)⟩

theorem answers_of_lookup {c : A6oScanConf} {mimeType : CString}
    {modules : Option (List A6oModule)}
    (h : c.mimeTypeCache.lookup mimeType = some modules) :
    answers c mimeType = .ok modules := by
  rw [answers, a6oScanConfGetApplicableModules, h]
  rfl

theorem lookup_cacheInsert (c : A6oScanConf) {mimeType m : CString}
    (modules : Option (List A6oModule)) (hne : m ≠ mimeType) :
    (cacheInsert c mimeType modules).mimeTypeCache.lookup m = c.mimeTypeCache.lookup m := by
  have hne : (m == mimeType) = false := by simpa using hne
  simp only [cacheInsert, List.lookup_cons, hne]

/-- The cache only repeats what the configuration would have answered. -/
theorem sameAnswers_insert {c : A6oScanConf} {mimeType : CString}
    {modules : Option (List A6oModule)} (h : answers c mimeType = .ok modules) :
    SameAnswers c (cacheInsert c mimeType modules) := by
  refine ⟨?_, rfl, ?_⟩
  · intro m
    by_cases hm : m = mimeType
    · subst hm
      rw [h]
      exact answers_of_lookup (by simp [cacheInsert])
    · rw [answers, answers, a6oScanConfGetApplicableModules, a6oScanConfGetApplicableModules,
        lookup_cacheInsert c modules hm]
      split
      · rfl
      · show Except.map _ (if !mimeTypeContains c.mimeTypes m then _ else
          buildModuleArray c m >>= _) = _
        split
        · rfl
        · cases buildModuleArray c m <;> rfl
  · intro m hnone
    by_cases hm : m = mimeType
    · subst hm
      simp [cacheInsert] at hnone
    · rwa [lookup_cacheInsert c modules hm] at hnone

theorem getApplicableModules_sameAnswers {c c' : A6oScanConf} {mimeType : CString}
    {modules : Option (List A6oModule)}
    (h : a6oScanConfGetApplicableModules c mimeType = .ok (modules, c')) :
    SameAnswers c c' := by
  have hanswer : answers c mimeType = .ok modules := by
    rw [answers, h]
    rfl
  rw [a6oScanConfGetApplicableModules] at h
  split at h
  · cases h
    exact .refl c
  · split at h
    · cases h
      exact sameAnswers_insert hanswer
    · obtain ⟨modules', -, h⟩ := bind_eq_ok.mp h
      cases h
      exact sameAnswers_insert hanswer

/-- A look-up that succeeds and does not insert finds its type cached. -/
theorem getApplicableModules_of_not_inserts {c c' : A6oScanConf} {mimeType : CString}
    {modules : Option (List A6oModule)}
    (h : a6oScanConfGetApplicableModules c mimeType = .ok (modules, c'))
    (hnot : inserts c mimeType = false) : c' = c := by
  cases hlookup : c.mimeTypeCache.lookup mimeType with
  | none => simp [inserts, hlookup, h, Except.isOk, Except.toBool] at hnot
  | some cached =>
    rw [a6oScanConfGetApplicableModules, hlookup] at h
    cases h
    rfl

theorem inserts_of_sameAnswers {c c' : A6oScanConf} (h : SameAnswers c c') {mimeType : CString}
    (hinserts : inserts c' mimeType) : inserts c mimeType := by
  have hisOk : ∀ c, (a6oScanConfGetApplicableModules c mimeType).isOk
      = (answers c mimeType).isOk := by
    intro c
    rw [answers]
    cases a6oScanConfGetApplicableModules c mimeType <;> rfl
  simp only [inserts, Bool.and_eq_true, Option.isNone_iff_eq_none, hisOk] at hinserts ⊢
  exact ⟨h.cached _ hinserts.1, h.modules mimeType ▸ hinserts.2⟩

/-! ## Files and modules -/

/-- What the scans of a run find behind a path. -/
structure World where
  openable : CString → Bool
  mimeType : CString → Option CString
  seekOk : CString → Nat → Bool

/-- The system answers the scan of a path as the files are; the descriptor
may be any. -/
def World.Answers (w : World) (env : Env) (path : Option CString) : Prop :=
  ∀ p, path = some p →
    (w.openable p = true → 0 ≤ env.sys.osOpen p ∧
      env.sys.osMimeTypeGuessFd (env.sys.osOpen p) = w.mimeType p) ∧
    (w.openable p = false → env.sys.osOpen p < 0) ∧
    env.seekOk = w.seekOk p

/-- The MIME type that the scan of the path looks up, if it gets that far. -/
def World.lookUp (w : World) (c : A6oScanConf) (path : CString) : Option CString :=
  if a6oScanConfIsWhiteListed c path then none
  else if w.openable path then w.mimeType path
  else none

theorem World.Answers.lookUpOf {w : World} {env : Env} {path : CString}
    (hw : w.Answers env (some path)) (c : A6oScanConf) :
    lookUpOf env c (some path) = w.lookUp c path := by
  obtain ⟨hopen, hclosed, -⟩ := hw path rfl
  rw [Pool.lookUpOf, World.lookUp]
  split
  · rfl
  · cases hopenable : w.openable path with
    | true =>
      obtain ⟨hpos, hmime⟩ := hopen hopenable
      rw [if_neg (by omega), hmime, if_pos rfl]
    | false => rw [if_pos (hclosed hopenable), if_neg (by simp)]

theorem World.lookUp_congr {c c' : A6oScanConf} (h : SameAnswers c c') (w : World)
    (path : CString) : w.lookUp c' path = w.lookUp c path := by
  simp only [World.lookUp, a6oScanConfIsWhiteListed, h.whiteList]
  rfl

/-- The answer of the module does not depend on the descriptor's number. -/
def FileOnly (m : A6oModule) : Prop :=
  ∀ scanFun, m.scanFun = some scanFun → ∀ fd fd' path mimeType,
    scanFun fd path mimeType = scanFun fd' path mimeType

/-- So do those of all modules the configuration ever finds. -/
def ModulesFileOnly (c : A6oScanConf) : Prop :=
  ∀ mimeType modules, answers c mimeType = .ok (some modules) → ∀ m ∈ modules, FileOnly m

theorem scanApplyModulesFrom_fd {modules : List A6oModule}
    (hmodules : ∀ m ∈ modules, FileOnly m) (seekOk : Nat → Bool) (fd fd' : Int)
    (path : Option CString) (mimeType : CString) :
    ∀ (n : Nat) (status : A6oFileStatus) (report : Option A6oReport),
      scanApplyModulesFrom seekOk fd path mimeType n status report modules
        = scanApplyModulesFrom seekOk fd' path mimeType n status report modules := by
  induction modules with
  | nil => intro n status report; rfl
  | cons m ms ih =>
    intro n status report
    have ih := ih fun m hm => hmodules m (List.mem_cons_of_mem _ hm)
    rw [scanApplyModulesFrom, scanApplyModulesFrom]
    simp only [ih]
    cases hfun : m.scanFun with
    | none => rfl
    | some scanFun =>
      have := hmodules m List.mem_cons_self scanFun hfun fd fd' path mimeType
      simp only [this]

/-- The report on a file: what `scan_file` makes of it on a system that
shows the files as they are. -/
def fileReport (w : World) (c : A6oScanConf) (path : CString) : Except Fault A6oReport :=
  let init := a6oReportInit (some path)
  if a6oScanConfIsWhiteListed c path then
    .ok (a6oReportChange init .whiteListed none none)
  else if !w.openable path then
    .ok (a6oReportChange init .ierror none none)
  else
    match w.mimeType path with
    | none => .ok (a6oReportChange init .unknownType none none)
    | some mimeType => do
      match ← answers c mimeType with
      | none => return a6oReportChange init .unknownType none none
      | some modules =>
        let run ← scanApplyModules (w.seekOk path) 0 (some path) mimeType modules (some init)
        return run.report.getD init

theorem fileReport_congr {c c' : A6oScanConf} (h : SameAnswers c c') (w : World)
    (path : CString) : fileReport w c' path = fileReport w c path := by
  simp only [fileReport, a6oScanConfIsWhiteListed, h.whiteList, h.modules]
  rfl

/-- A file without a path is reported as an internal error. -/
theorem scanFile_none (env : Env) (conf : A6oScanConf) :
    scanFile env conf none
      = .ok (⟨none, { env.stack with status := .fileOpenError },
        a6oReportChange (a6oReportInit none) .ierror none none⟩, conf) := rfl

/-- A scan leaves the configuration, or looks a type up in it. -/
theorem scanFile_conf {env : Env} {conf conf' : A6oScanConf} {path : Option CString}
    {scan : Scan} (h : scanFile env conf path = .ok (scan, conf')) :
    conf' = conf ∨ ∃ mimeType modules, lookUpOf env conf path = some mimeType ∧
      a6oScanConfGetApplicableModules conf mimeType = .ok (modules, conf') := by
  obtain ⟨⟨ctx, conf₁, report⟩, hget, h⟩ := bind_eq_ok.mp h
  have hconf : conf' = conf₁ := by
    dsimp only at h
    split at h
    · obtain ⟨run, -, h⟩ := bind_eq_ok.mp h
      cases h
      rfl
    · cases h
      rfl
  subst hconf
  cases path with
  | none =>
    cases hget
    exact .inl rfl
  | some path =>
    rw [a6oScanContextGet, if_neg (by simp)] at hget
    split at hget
    · cases hget
      exact .inl rfl
    · next hlisted =>
      have hwhite : ¬ a6oScanConfIsWhiteListed conf path = true := hlisted
      split at hget
      · cases hget
        exact .inl rfl
      · next hfd =>
        have hopen : ¬ env.sys.osOpen path < 0 := hfd
        rw [contextFindModules] at hget
        split at hget
        · cases hget
          exact .inl rfl
        · next mimeType hmime =>
          obtain ⟨⟨modules, conf₂⟩, hfound, hget⟩ := bind_eq_ok.mp hget
          have hlookUp : lookUpOf env conf (some path) = some mimeType := by
            rw [lookUpOf, if_neg hwhite, if_neg hopen]
            exact hmime
          have hconf : conf' = conf₂ := by
            cases modules with
            | none =>
              cases hget
              rfl
            | some modules =>
              cases hget
              rfl
          exact .inr ⟨mimeType, modules, hlookUp, hconf ▸ hfound⟩

theorem scanFile_sameAnswers {env : Env} {conf conf' : A6oScanConf} {path : Option CString}
    {scan : Scan} (h : scanFile env conf path = .ok (scan, conf')) :
    SameAnswers conf conf' := by
  rcases scanFile_conf h with rfl | ⟨mimeType, modules, -, hfound⟩
  · exact .refl _
  · exact getApplicableModules_sameAnswers hfound

/-- **The scan of a file reports what the file is.** -/
theorem scanFile_report {w : World} {env : Env} {conf : A6oScanConf} {path : CString}
    (hw : w.Answers env (some path)) (hmodules : ModulesFileOnly conf) :
    (scanFile env conf (some path)).map (fun r => r.1.report) = fileReport w conf path := by
  obtain ⟨hopen, hclosed, hseek⟩ := hw path rfl
  rw [scanFile, fileReport, a6oScanContextGet]
  simp only [reduceCtorEq, and_false, if_false, pathIsWhiteListed, reportStatus,
    Option.map_some]
  by_cases hwl : a6oScanConfIsWhiteListed conf path = true
  · simp only [hwl, if_true]
    rfl
  · simp only [hwl, Bool.false_eq_true, if_false]
    have hfd : contextFd env.sys (-1) (some path) = env.sys.osOpen path := rfl
    cases hopenable : w.openable path with
    | false =>
      simp only [hfd, hclosed hopenable, if_true, Bool.not_false]
      rfl
    | true =>
      obtain ⟨hpos, hmime⟩ := hopen hopenable
      have hnot : ¬ env.sys.osOpen path < 0 := by omega
      simp only [hfd, hnot, if_false, Bool.not_true, Bool.false_eq_true]
      rw [contextFindModules]
      have hctx : (contextInit (env.sys.osOpen path)).fd = env.sys.osOpen path := rfl
      rw [hctx, hmime]
      cases hm : w.mimeType path with
      | none => rfl
      | some mimeType =>
        have hanswer : answers conf mimeType
            = (a6oScanConfGetApplicableModules conf mimeType).map Prod.fst := rfl
        cases hfound : a6oScanConfGetApplicableModules conf mimeType with
        | error f =>
          rw [hfound] at hanswer
          simp only [hfound, hanswer]
          rfl
        | ok found =>
          obtain ⟨modules, conf'⟩ := found
          rw [hfound] at hanswer
          simp only [hfound]
          cases modules with
          | none =>
            simp only [hanswer]
            rfl
          | some modules =>
            have hfd0 := scanApplyModulesFrom_fd (hmodules mimeType modules hanswer)
              (w.seekOk path) (env.sys.osOpen path) 0 (some path) mimeType 0 .undecided
              (some (a6oReportInit (some path)))
            simp only [hanswer]
            show Except.map _ ((scanApplyModules env.seekOk (env.sys.osOpen path) (some path)
              mimeType modules (some (a6oReportInit (some path)))) >>= _)
              = (scanApplyModules (w.seekOk path) 0 (some path) mimeType modules
              (some (a6oReportInit (some path))) >>= _)
            rw [hseek, scanApplyModules, hfd0, ← scanApplyModules]
            cases scanApplyModules (w.seekOk path) 0 (some path) mimeType modules
              (some (a6oReportInit (some path))) <;> rfl

end Armadito.Core.Pool
