import Armadito.Core.Pool
import Armadito.Core.Traversal

/-!
# Core.Counting

The counting thread of an on-demand scan walks the tree the scan walks. Its
callback answers 0 to everything, that of the scan answers 1 to an
unreadable directory, and the walk stops there: the count has files the
scan does not hand over.
-/

namespace Armadito.Os

section

variable (sys : PathCalls) (recurse : Bool)

mutual

/-- The plain files a walk comes to that nothing stops. -/
def Dir.counted (path : CString) : Dir → List CString
  | .openError _ => []
  | .opened entries => entries.counted path

/-- The files that the counting thread counts. -/
def DirStream.counted (path : CString) : DirStream → List CString
  | .endOfDir | .readError _ => []
  | .leaf name dType _ rest =>
    match sys.asprintf path name with
    | none => []
    | some entryPath => (if dType = .reg then [entryPath] else []) ++ rest.counted path
  | .subdir name dir rest =>
    if isDotOrDotDot name then rest.counted path
    else
      match sys.asprintf path name with
      | none => []
      | some entryPath =>
        (if recurse then dir.counted entryPath else []) ++ rest.counted path

end

mutual

/-- How many of them are listed behind a subdirectory that cannot be
opened, in the directory that has it or in one below its other entries. -/
def Dir.hidden (path : CString) : Dir → Nat
  | .openError _ => 0
  | .opened entries => entries.hidden path

/-- The number of files behind a subdirectory that cannot be opened, where the scan ends
and the count goes on. -/
def DirStream.hidden (path : CString) : DirStream → Nat
  | .endOfDir | .readError _ => 0
  | .leaf name _ _ rest =>
    match sys.asprintf path name with
    | none => 0
    | some _ => rest.hidden path
  | .subdir name (.openError _) rest =>
    if isDotOrDotDot name then rest.hidden path
    else
      match sys.asprintf path name with
      | none => 0
      | some _ => if recurse then (rest.counted sys recurse path).length else rest.hidden path
  | .subdir name (.opened entries) rest =>
    if isDotOrDotDot name then rest.hidden path
    else
      match sys.asprintf path name with
      | none => 0
      | some entryPath =>
        (if recurse then entries.hidden entryPath else 0) + rest.hidden path

end

end

end Armadito.Os

namespace Armadito.Core

open Armadito.Os

/-! ## The counting thread -/

/-- `count_entry`. -/
def countEntry : DirentCb Int32 :=
  fun _ flags _ count => if !flags.test .isPlainFile then (0, count) else (0, count + 1)

/-- The counter of the object is set at the end. -/
def countThreadFun (sys : PathCalls) (onDemand : A6oOnDemand) (root : Dir) :
    A6oOnDemand :=
  let recurse := onDemand.hasFlag a6oScanRecurse
  { onDemand with toScanCount := (osDirMap sys recurse countEntry onDemand.rootPath root 0).2 }

/-- What the scan hands over, with the flags of the same object. -/
def scanTraversal (sys : PathCalls) (onDemand : A6oOnDemand) (root : Dir) :
    List HandOver :=
  let recurse := onDemand.hasFlag a6oScanRecurse
  (osDirMap sys recurse (scanEntry onDemand) onDemand.rootPath root []).2

@[simp] theorem countEntry_error (path : Option CString) (errno : Int) (count : Int32) :
    countEntry path .isError errno count = (0, count) := by
  simp [countEntry]

theorem countEntry_leaf (path : Option CString) (dType : DType) (count : Int32) :
    (countEntry path (direntFlags dType) 0 count).2
      = if dType = .reg then count + 1 else count := by
  cases dType <;> simp [countEntry, direntFlags]

section

variable {sys : PathCalls} {recurse : Bool}

mutual

/-- The count is the number of plain files, as an `int` counts them. -/
theorem osDirMap_countEntry (path : CString) : ∀ (d : Dir) (count : Int32),
    osDirMap sys recurse countEntry path d count
      = (0, count + .ofNat (d.counted sys recurse path).length)
  | .openError errno, count => by
    simp [osDirMap, Dir.counted]
  | .opened entries, count => by
    rw [osDirMap, Dir.counted, readLoop_countEntry path entries count]

theorem readLoop_countEntry (path : CString) : ∀ (s : DirStream) (count : Int32),
    readLoop sys recurse countEntry path s count
      = count + .ofNat (s.counted sys recurse path).length
  | .endOfDir, count => by
    simp [readLoop, DirStream.counted]
  | .readError errno, count => by
    simp [readLoop, DirStream.counted]
  | .leaf name dType _ rest, count => by
    rw [readLoop, DirStream.counted]
    cases sys.asprintf path name with
    | none => simp
    | some entryPath =>
      dsimp only
      rw [countEntry_leaf, readLoop_countEntry path rest]
      by_cases hreg : dType = .reg
      · simp [hreg, Int32.ofNat_add, Int32.add_assoc, Int32.add_comm]
      · simp [hreg]
  | .subdir name dir rest, count => by
    rw [readLoop, DirStream.counted]
    by_cases hdot : isDotOrDotDot name
    · rw [if_pos hdot, if_pos hdot, readLoop_countEntry path rest]
    · rw [if_neg hdot, if_neg hdot]
      cases sys.asprintf path name with
      | none => simp
      | some entryPath =>
        dsimp only
        by_cases hrec : recurse = true
        · rw [if_pos hrec, if_pos hrec, osDirMap_countEntry entryPath dir]
          simp only [ne_eq, not_true_eq_false, if_false]
          rw [readLoop_countEntry path rest, List.length_append, Int32.ofNat_add,
            Int32.add_assoc]
        · rw [if_neg hrec, if_neg hrec, countEntry_leaf, readLoop_countEntry path rest]
          simp

end

/-! ## The scan -/

theorem handOver_length (onDemand : A6oOnDemand) {path : Option CString}
    (hpath : path.isSome) : (handOver onDemand path).length = 1 := by
  obtain ⟨path, rfl⟩ := Option.isSome_iff_exists.mp hpath
  simpa using congrArg List.length (handOver_path onDemand path)

mutual

/-- What is handed over and what is hidden make up the count. The loop
stops behind a subdirectory that cannot be opened, an opened one returns
0. -/
theorem readLoop_scanEntry_length (onDemand : A6oOnDemand) (path : CString) :
    ∀ (s : DirStream) (log : List HandOver),
      (∀ p ∈ s.counted sys recurse path, (sys.realpath p).isSome) →
      (readLoop sys recurse (scanEntry onDemand) path s log).length
          + s.hidden sys recurse path
        = log.length + (s.counted sys recurse path).length
  | .endOfDir, log, _ => by
    simp [readLoop, DirStream.counted, DirStream.hidden]
  | .readError errno, log, _ => by
    simp [readLoop, DirStream.counted, DirStream.hidden]
  | .leaf name dType _ rest, log, hreal => by
    rw [DirStream.counted] at hreal ⊢
    rw [readLoop, DirStream.hidden]
    cases hjoin : sys.asprintf path name with
    | none => simp
    | some entryPath =>
      simp only [hjoin] at hreal
      have hrest : ∀ p ∈ rest.counted sys recurse path, (sys.realpath p).isSome :=
        fun p hp => hreal p (List.mem_append_right _ hp)
      dsimp only
      rw [readLoop_scanEntry_length onDemand path rest _ hrest, scanEntry_leaf]
      by_cases hreg : dType = .reg
      · have hpath := hreal entryPath (by simp [hreg])
        simp only [hreg, if_true, List.length_append, handOver_length onDemand hpath,
          List.length_singleton]
        omega
      · simp [hreg]
  | .subdir name (.openError errno) rest, log, hreal => by
    rw [DirStream.counted] at hreal ⊢
    rw [readLoop, DirStream.hidden]
    by_cases hdot : isDotOrDotDot name
    · simp only [hdot, if_true] at hreal ⊢
      exact readLoop_scanEntry_length onDemand path rest log hreal
    · simp only [hdot, Bool.false_eq_true, if_false] at hreal ⊢
      cases hjoin : sys.asprintf path name with
      | none => simp
      | some entryPath =>
        simp only [hjoin] at hreal
        by_cases hrec : recurse = true
        · simp [if_pos hrec, osDirMap, Dir.counted]
        · simp only [if_neg hrec, List.nil_append] at hreal ⊢
          rw [readLoop_scanEntry_length onDemand path rest _ hreal, scanEntry_leaf]
          rfl
  | .subdir name (.opened entries) rest, log, hreal => by
    rw [DirStream.counted] at hreal ⊢
    rw [readLoop, DirStream.hidden]
    by_cases hdot : isDotOrDotDot name
    · simp only [hdot, if_true] at hreal ⊢
      exact readLoop_scanEntry_length onDemand path rest log hreal
    · simp only [hdot, Bool.false_eq_true, if_false] at hreal ⊢
      cases hjoin : sys.asprintf path name with
      | none => simp
      | some entryPath =>
        simp only [hjoin] at hreal
        have hrest : ∀ p ∈ rest.counted sys recurse path, (sys.realpath p).isSome :=
          fun p hp => hreal p (List.mem_append_right _ hp)
        by_cases hrec : recurse = true
        · simp only [if_pos hrec, Dir.counted] at hreal ⊢
          have hchild : ∀ p ∈ entries.counted sys recurse entryPath, (sys.realpath p).isSome :=
            fun p hp => hreal p (List.mem_append_left _ hp)
          have ih := readLoop_scanEntry_length onDemand entryPath entries log hchild
          have ihrest := readLoop_scanEntry_length onDemand path rest
            (readLoop sys recurse (scanEntry onDemand) entryPath entries log) hrest
          simp only [osDirMap, ne_eq, not_true_eq_false, if_false, List.length_append]
          omega
        · simp only [if_neg hrec, List.nil_append, Nat.zero_add]
          rw [readLoop_scanEntry_length onDemand path rest _ hrest, scanEntry_leaf]
          rfl

end

end

/-! ## Count and scan -/

theorem scanTraversal_length {sys : PathCalls} {onDemand : A6oOnDemand} {root : Dir}
    (hreal : ∀ p ∈ root.counted sys (onDemand.hasFlag a6oScanRecurse) onDemand.rootPath,
      (sys.realpath p).isSome) :
    (scanTraversal sys onDemand root).length
        + root.hidden sys (onDemand.hasFlag a6oScanRecurse) onDemand.rootPath
      = (root.counted sys (onDemand.hasFlag a6oScanRecurse) onDemand.rootPath).length := by
  cases root with
  | openError errno => simp [scanTraversal, osDirMap, Dir.hidden, Dir.counted]
  | opened entries =>
    simpa [scanTraversal, osDirMap, Dir.hidden, Dir.counted] using
      readLoop_scanEntry_length onDemand onDemand.rootPath entries [] hreal

theorem countThreadFun_toScanCount (sys : PathCalls) (onDemand : A6oOnDemand) (root : Dir) :
    (countThreadFun sys onDemand root).toScanCount
      = .ofNat (root.counted sys (onDemand.hasFlag a6oScanRecurse)
        onDemand.rootPath).length := by
  rw [countThreadFun, osDirMap_countEntry]
  exact Int32.zero_add _

/-- An `int` counter shows the smaller of two numbers exactly when it has
room for it and the rest makes full turns. -/
theorem toInt_ofNat_eq_iff (n hidden : Nat) :
    (Int32.ofNat (n + hidden)).toInt = n ↔ n < 2 ^ 31 ∧ 2 ^ 32 ∣ hidden := by
  rw [Int32.toInt_ofNat', Int.bmod_def, Nat.dvd_iff_mod_eq_zero]
  simp only [Int32.size]
  split <;> omega

/-- **The count is the number of files handed over if and only if none is
hidden.** For every tree and all flags, the counting thread stores the
number of files the scan hands over exactly when no plain file is listed
behind a subdirectory that cannot be opened, or as many as a full turn of
the counter, and the counter has room for the rest. -/
theorem countThreadFun_agrees_iff (sys : PathCalls) (onDemand : A6oOnDemand) (root : Dir)
    (hreal : ∀ p ∈ root.counted sys (onDemand.hasFlag a6oScanRecurse) onDemand.rootPath,
      (sys.realpath p).isSome) :
    (countThreadFun sys onDemand root).toScanCount.toInt
        = (scanTraversal sys onDemand root).length ↔
      (root.counted sys (onDemand.hasFlag a6oScanRecurse) onDemand.rootPath).length
          < 2 ^ 31 + root.hidden sys (onDemand.hasFlag a6oScanRecurse) onDemand.rootPath ∧
        2 ^ 32 ∣ root.hidden sys (onDemand.hasFlag a6oScanRecurse) onDemand.rootPath := by
  rw [countThreadFun_toScanCount, ← scanTraversal_length hreal, toInt_ofNat_eq_iff,
    Nat.add_lt_add_iff_right]

/-- A recursive scan that shows its progress. -/
def progressScan : A6oOnDemand :=
  { recursiveScan with progressPeriod := defaultProgressPeriod }

/-- One file is counted, none is handed over. -/
theorem countThreadFun_lockedBeforeFile :
    (∀ p ∈ lockedBeforeFile.counted plainPathCalls true "/r".toList,
      (plainPathCalls.realpath p).isSome) ∧
    (countThreadFun plainPathCalls progressScan lockedBeforeFile).toScanCount = 1 ∧
    scanTraversal plainPathCalls progressScan lockedBeforeFile = [] :=
  ⟨fun _ _ => rfl, rfl, rfl⟩

theorem countThreadFun_fileBeforeLocked :
    (countThreadFun plainPathCalls progressScan fileBeforeLocked).toScanCount.toInt
      = (scanTraversal plainPathCalls progressScan fileBeforeLocked).length :=
  (countThreadFun_agrees_iff plainPathCalls progressScan fileBeforeLocked
    (fun _ _ => rfl)).mpr ⟨by decide, 0, rfl⟩

/-! ## What is hidden -/

section

variable {sys : PathCalls}

mutual

theorem dir_counted_plainFiles
    (hjoin : ∀ path name, sys.asprintf path name = some (joinPath path name))
    (path : CString) : ∀ d : Dir, d.counted sys true path = d.plainFiles path
  | .openError _ => rfl
  | .opened entries => stream_counted_plainFiles hjoin path entries

theorem stream_counted_plainFiles
    (hjoin : ∀ path name, sys.asprintf path name = some (joinPath path name))
    (path : CString) : ∀ s : DirStream, s.counted sys true path = s.plainFiles path
  | .endOfDir | .readError _ => rfl
  | .leaf name dType _ rest => by
    rw [DirStream.counted, DirStream.plainFiles, hjoin, ← stream_counted_plainFiles hjoin path rest]
  | .subdir name dir rest => by
    rw [DirStream.counted, DirStream.plainFiles, hjoin, ← stream_counted_plainFiles hjoin path rest]
    by_cases hdot : isDotOrDotDot name
    · simp [hdot]
    · simp [hdot, dir_counted_plainFiles hjoin (joinPath path name) dir]

end

mutual

/-- A recursive scan has nothing hidden from it in the sense of its
traversal. -/
theorem dir_hidden_eq_zero_iff
    (hjoin : ∀ path name, sys.asprintf path name = some (joinPath path name))
    (path : CString) : ∀ d : Dir, d.hidden sys true path = 0 ↔ d.NothingHidden
  | .openError _ => by simp [Dir.hidden, Dir.NothingHidden]
  | .opened entries => by
    rw [Dir.hidden, Dir.NothingHidden]
    exact stream_hidden_eq_zero_iff hjoin path entries

theorem stream_hidden_eq_zero_iff
    (hjoin : ∀ path name, sys.asprintf path name = some (joinPath path name))
    (path : CString) : ∀ s : DirStream, s.hidden sys true path = 0 ↔ s.NothingHidden
  | .endOfDir | .readError _ => by simp [DirStream.hidden, DirStream.NothingHidden]
  | .leaf name dType _ rest => by
    rw [DirStream.hidden, DirStream.NothingHidden, hjoin]
    exact stream_hidden_eq_zero_iff hjoin path rest
  | .subdir name (.openError _) rest => by
    rw [DirStream.hidden, DirStream.NothingHidden, hjoin]
    by_cases hdot : isDotOrDotDot name
    · rw [if_pos hdot, if_pos hdot]
      exact stream_hidden_eq_zero_iff hjoin path rest
    · rw [if_neg hdot, if_neg hdot]
      simp only [if_true]
      rw [stream_counted_plainFiles hjoin path rest, List.length_eq_zero_iff,
        DirStream.plainFiles_eq_nil_iff]
  | .subdir name (.opened entries) rest => by
    rw [DirStream.hidden, DirStream.NothingHidden, hjoin]
    have ihd := stream_hidden_eq_zero_iff hjoin (joinPath path name) entries
    have ih := stream_hidden_eq_zero_iff hjoin path rest
    by_cases hdot : isDotOrDotDot name
    · simp [hdot, ih]
    · simp [hdot, ih, ihd]

end

mutual

/-- A scan that does not recurse opens no subdirectory. -/
theorem dir_hidden_flat (path : CString) : ∀ d : Dir, d.hidden sys false path = 0
  | .openError _ => rfl
  | .opened entries => stream_hidden_flat path entries

theorem stream_hidden_flat (path : CString) : ∀ s : DirStream, s.hidden sys false path = 0
  | .endOfDir | .readError _ => rfl
  | .leaf name dType _ rest => by
    rw [DirStream.hidden, stream_hidden_flat path rest]
    cases sys.asprintf path name <;> rfl
  | .subdir name (.openError _) rest => by
    rw [DirStream.hidden, stream_hidden_flat path rest]
    cases sys.asprintf path name <;> simp
  | .subdir name (.opened entries) rest => by
    rw [DirStream.hidden, stream_hidden_flat path rest]
    cases sys.asprintf path name <;> simp

end

end

end Armadito.Core
