import Armadito.Core.OnDemand

/-!
# Core.Traversal

Which files a recursive on-demand scan reaches.

`scan_entry` answers 1 on an unreadable directory. The walk of the parent
takes this as the child's return value and leaves its loop, so the
entries behind an unreadable subdirectory are lost. The parent itself
returns 0, so the loss stops there.

`visited` lists what the walk reaches, `plainFiles` what it should reach.
-/

namespace Armadito.Os

mutual

/-- The plain files the scan's walk reaches. -/
def Dir.visited (path : CString) : Dir → List CString
  | .openError _ => []
  | .opened entries => entries.visited path

/-- The plain files that the walk comes to. -/
def DirStream.visited (path : CString) : DirStream → List CString
  | .endOfDir | .readError _ => []
  | .leaf name dType _ rest =>
    (if dType = .reg then [joinPath path name] else []) ++ rest.visited path
  | .subdir name (.openError _) rest =>
    if isDotOrDotDot name then rest.visited path else []
  | .subdir name (.opened entries) rest =>
    (if isDotOrDotDot name then [] else entries.visited (joinPath path name))
      ++ rest.visited path

end

mutual

theorem Dir.visited_sublist (path : CString) :
    ∀ d : Dir, (d.visited path).Sublist (d.plainFiles path)
  | .openError _ => List.Sublist.refl _
  | .opened entries => DirStream.visited_sublist path entries

theorem DirStream.visited_sublist (path : CString) :
    ∀ s : DirStream, (s.visited path).Sublist (s.plainFiles path)
  | .endOfDir | .readError _ => List.Sublist.refl _
  | .leaf name dType _ rest =>
    (List.Sublist.refl _).append (DirStream.visited_sublist path rest)
  | .subdir name (.openError _) rest => by
    have ih := DirStream.visited_sublist path rest
    cases hdot : isDotOrDotDot name <;>
      simp [DirStream.visited, DirStream.plainFiles, Dir.plainFiles, hdot, ih]
  | .subdir name (.opened entries) rest => by
    have ihd := DirStream.visited_sublist (joinPath path name) entries
    have ih := DirStream.visited_sublist path rest
    rw [DirStream.visited, DirStream.plainFiles, Dir.plainFiles]
    refine List.Sublist.append ?_ ih
    split
    · exact List.Sublist.refl _
    · exact ihd

end

mutual

/-- The walk reaches every plain file exactly when nothing is hidden. -/
theorem Dir.visited_eq_iff (path : CString) :
    ∀ d : Dir, d.visited path = d.plainFiles path ↔ d.NothingHidden
  | .openError _ => by simp [Dir.visited, Dir.plainFiles, Dir.NothingHidden]
  | .opened entries => by
    rw [Dir.visited, Dir.plainFiles, Dir.NothingHidden]
    exact DirStream.visited_eq_iff path entries

theorem DirStream.visited_eq_iff (path : CString) :
    ∀ s : DirStream, s.visited path = s.plainFiles path ↔ s.NothingHidden
  | .endOfDir | .readError _ => by
    simp [DirStream.visited, DirStream.plainFiles, DirStream.NothingHidden]
  | .leaf name dType _ rest => by
    rw [DirStream.visited, DirStream.plainFiles, DirStream.NothingHidden,
      List.append_cancel_left_eq]
    exact DirStream.visited_eq_iff path rest
  | .subdir name (.openError _) rest => by
    have ih := DirStream.visited_eq_iff path rest
    cases hdot : isDotOrDotDot name
    · -- the loop stops here: what follows must hold no plain file
      simp only [DirStream.visited, DirStream.plainFiles, Dir.plainFiles,
        DirStream.NothingHidden, hdot, Bool.false_eq_true, if_false, List.nil_append]
      rw [eq_comm, DirStream.plainFiles_eq_nil_iff]
    · simpa [DirStream.visited, DirStream.plainFiles, DirStream.NothingHidden, hdot]
        using ih
  | .subdir name (.opened entries) rest => by
    have ihd := DirStream.visited_eq_iff (joinPath path name) entries
    have ih := DirStream.visited_eq_iff path rest
    rw [DirStream.visited, DirStream.plainFiles, DirStream.NothingHidden,
      Dir.plainFiles]
    cases hdot : isDotOrDotDot name
    · simp only [Bool.false_eq_true, if_false, true_imp_iff]
      rw [append_eq_append_iff_of_sublist (DirStream.visited_sublist _ entries)
        (DirStream.visited_sublist path rest), ihd, ih]
    · simpa using ih

end

end Armadito.Os

namespace Armadito.Core

open Armadito.Os

/-! ## The walk of a scan -/

/-- The walk of a recursive scan, from an empty log. -/
def scanWalk (sys : PathCalls) (onDemand : A6oOnDemand) (root : CString) (d : Dir) :
    List (Option CString) :=
  (osDirMap sys true (scanEntry onDemand) root d []).2.map HandOver.path

/-- The log of the loop over a directory's entries. The induction carries
the log along; an opened child leaves 0 behind, so the loop goes on. -/
theorem readLoop_scanEntry (sys : PathCalls) (onDemand : A6oOnDemand)
    (hjoin : ∀ path name, sys.asprintf path name = some (joinPath path name))
    (path : CString) :
    ∀ (s : DirStream) (log : List HandOver),
      (∀ p ∈ s.visited path, (sys.realpath p).isSome) →
      (readLoop sys true (scanEntry onDemand) path s log).map HandOver.path
        = log.map HandOver.path ++ (s.visited path).map sys.realpath
  | .endOfDir, log, _ => by simp [readLoop, DirStream.visited]
  | .readError _, log, _ => by simp [readLoop, DirStream.visited]
  | .leaf name dType _ rest, log, hreal => by
    rw [DirStream.visited] at hreal
    have hrest : ∀ p ∈ rest.visited path, (sys.realpath p).isSome :=
      fun p hp => hreal p (List.mem_append_right _ hp)
    rw [readLoop, hjoin]
    dsimp only
    rw [readLoop_scanEntry sys onDemand hjoin path rest _ hrest, scanEntry_leaf,
      DirStream.visited]
    by_cases hreg : dType = .reg
    · obtain ⟨real, hr⟩ := Option.isSome_iff_exists.mp
        (hreal (joinPath path name) (by simp [hreg]))
      simp [hreg, hr, handOver_path]
    · simp [hreg]
  | .subdir name (.openError _) rest, log, hreal => by
    rw [DirStream.visited] at hreal
    rw [readLoop, DirStream.visited]
    cases hdot : isDotOrDotDot name
    · simp [hjoin, osDirMap]
    · simp only [if_true]
      exact readLoop_scanEntry sys onDemand hjoin path rest log
        (by simpa [hdot] using hreal)
  | .subdir name (.opened entries) rest, log, hreal => by
    rw [DirStream.visited] at hreal
    have hrest : ∀ p ∈ rest.visited path, (sys.realpath p).isSome :=
      fun p hp => hreal p (List.mem_append_right _ hp)
    rw [readLoop, DirStream.visited]
    cases hdot : isDotOrDotDot name
    · have hchild : ∀ p ∈ entries.visited (joinPath path name),
          (sys.realpath p).isSome :=
        fun p hp => hreal p (List.mem_append_left _ (by simpa [hdot] using hp))
      simp only [hjoin, osDirMap, Bool.false_eq_true, if_false, if_true, ne_eq,
        not_true_eq_false]
      rw [readLoop_scanEntry sys onDemand hjoin path rest _ hrest,
        readLoop_scanEntry sys onDemand hjoin (joinPath path name) entries log hchild]
      simp
    · simpa using readLoop_scanEntry sys onDemand hjoin path rest log hrest

/-- The paths the scan hands over are the visited ones, resolved. -/
theorem scanWalk_eq (sys : PathCalls) (onDemand : A6oOnDemand) (root : CString) (d : Dir)
    (hjoin : ∀ path name, sys.asprintf path name = some (joinPath path name))
    (hreal : ∀ p ∈ d.plainFiles root, (sys.realpath p).isSome) :
    scanWalk sys onDemand root d = (d.visited root).map sys.realpath := by
  cases d with
  | openError errno => simp [scanWalk, osDirMap, Dir.visited]
  | opened entries =>
    have h := readLoop_scanEntry sys onDemand hjoin root entries []
      (fun p hp => hreal p ((entries.visited_sublist root).subset hp))
    simpa [scanWalk, osDirMap, Dir.visited] using h

/-- **A recursive scan hands over every plain file it can reach exactly
once if and only if nothing is hidden**: no directory lists an entry with
a plain file behind a subdirectory that cannot be opened. -/
theorem scanWalk_perm_iff (sys : PathCalls) (onDemand : A6oOnDemand) (root : CString)
    (d : Dir)
    (hjoin : ∀ path name, sys.asprintf path name = some (joinPath path name))
    (hreal : ∀ p ∈ d.plainFiles root, (sys.realpath p).isSome) :
    (scanWalk sys onDemand root d).Perm ((d.plainFiles root).map sys.realpath) ↔
      d.NothingHidden := by
  rw [scanWalk_eq sys onDemand root d hjoin hreal, ← d.visited_eq_iff root]
  constructor
  · intro h
    have hlen := h.length_eq
    simp only [List.length_map] at hlen
    exact (d.visited_sublist root).eq_of_length hlen
  · intro h
    rw [h]

/-- A scan of `/r` with all that is under it. -/
def recursiveScan : A6oOnDemand :=
  { rootPath := "/r".toList, scanId := 1, flags := a6oScanRecurse, toScanCount := 0,
    scannedCount := 0, malwareCount := 0, suspiciousCount := 0, wasCancelled := 0,
    progressPeriod := 0, lastProgressTime := 0,
    lastProgressValue := a6oOnDemandProgressUnknown }

/-- A directory without read permission, listed before a plain file. -/
def lockedBeforeFile : Dir :=
  .opened (.subdir "locked".toList (.openError 13)
    (.leaf "f".toList .reg (by decide) .endOfDir))

/-- The same two entries in the other order. -/
def fileBeforeLocked : Dir :=
  .opened (.leaf "f".toList .reg (by decide)
    (.subdir "locked".toList (.openError 13) .endOfDir))

/-- `/r/f` has only the root above it, and is not handed over. -/
theorem lockedBeforeFile_missed :
    (∀ path name, plainPathCalls.asprintf path name = some (joinPath path name)) ∧
    (∀ p ∈ lockedBeforeFile.plainFiles "/r".toList, (plainPathCalls.realpath p).isSome) ∧
    lockedBeforeFile.plainFiles "/r".toList = ["/r/f".toList] ∧
    ¬ (scanWalk plainPathCalls recursiveScan "/r".toList lockedBeforeFile).Perm
      ((lockedBeforeFile.plainFiles "/r".toList).map plainPathCalls.realpath) := by
  refine ⟨fun _ _ => rfl, fun _ _ => rfl, rfl, ?_⟩
  intro h
  exact absurd h.length_eq (by decide)

theorem fileBeforeLocked_reached :
    (scanWalk plainPathCalls recursiveScan "/r".toList fileBeforeLocked).Perm
      ((fileBeforeLocked.plainFiles "/r".toList).map plainPathCalls.realpath) :=
  (scanWalk_perm_iff plainPathCalls recursiveScan "/r".toList fileBeforeLocked
    (fun _ _ => rfl) (fun _ _ => rfl)).mpr
    (by simp [fileBeforeLocked, Dir.NothingHidden, DirStream.NothingHidden,
      DirStream.HasPlainFile])

end Armadito.Core
