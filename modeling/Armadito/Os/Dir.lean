import Armadito.Os.File

/-!
# Os.Dir

The Linux `os_dir_map`: the walk through a directory tree that applies a
callback to the entries.

The tree is what the calls of `opendir` and `readdir` present, in the
order in which they present it. The walk is generic in the state its
callback works on (`void *data`). The returned value follows the source
to the letter: the loop keeps a `ret`, but the function ends in
`return 0`, so `ret` decides only whether the loop goes on.
-/

namespace Armadito.Os

/-- `d_type` of a `struct dirent`. -/
inductive DType where
  | blk
  | chr
  | dir
  | fifo
  | lnk
  | reg
  | sock
  | unknown
  deriving DecidableEq, Repr

theorem DType.reg_ne_dir : DType.reg ≠ .dir := by decide

/-- `dirent_flags`. -/
def direntFlags : DType → OsFileFlag
  | .dir => .isDirectory
  | .blk | .chr => .isDevice
  | .sock | .fifo => .isIpc
  | .lnk => .isLink
  | .reg => .isPlainFile
  | .unknown => .isUnknown

mutual

/-- What `opendir` makes of a directory: an error, or a stream of entries. -/
inductive Dir where
  | openError (errno : Int)
  | opened (entries : DirStream)

/-- The answers of successive `readdir`s. The stream ends with the end of
the directory or with a read error. -/
inductive DirStream where
  | endOfDir
  | readError (errno : Int)
  | leaf (name : CString) (dType : DType) (notDir : dType ≠ .dir) (rest : DirStream)
  | subdir (name : CString) (dir : Dir) (rest : DirStream)

end

/-- The library calls the walk makes for an entry: `asprintf` of
`"%s/%s"`, which fails without memory, and `realpath`. -/
structure PathCalls where
  asprintf : CString → CString → Option CString
  realpath : CString → Option CString

/-- `dirent_cb_t`: path (NULL when `realpath` failed), flags and errno to
a return value, working on the caller's data. -/
abbrev DirentCb (σ : Type) := Option CString → OsFileFlag → Int → σ → Int × σ

/-- The names of the directory and its parent. -/
def isDotOrDotDot (name : CString) : Bool :=
  name = ".".toList || name = "..".toList

section

variable {σ : Type} (sys : PathCalls) (recurse : Bool) (cb : DirentCb σ)

mutual

/-- `os_dir_map`. -/
def osDirMap (path : CString) : Dir → σ → Int × σ
  | .openError errno, data => cb (some path) .isError errno data
  | .opened entries, data => (0, readLoop path entries data)

/-- The `while(1)` around `readdir`. -/
def readLoop (path : CString) : DirStream → σ → σ
  | .endOfDir, data => data
  | .readError errno, data => (cb (some path) .isError errno data).2
  | .leaf name dType _ rest, data =>
    match sys.asprintf path name with
    | none => data
    | some entryPath =>
      -- the value the callback returns is dropped here
      readLoop path rest (cb (sys.realpath entryPath) (direntFlags dType) 0 data).2
  | .subdir name dir rest, data =>
    if isDotOrDotDot name then readLoop path rest data
    else
      match sys.asprintf path name with
      | none => data
      | some entryPath =>
        if recurse then
          let r := osDirMap entryPath dir data
          if r.1 ≠ 0 then r.2 else readLoop path rest r.2
        else
          readLoop path rest (cb (sys.realpath entryPath) (direntFlags .dir) 0 data).2

end

end

/-! ## Two walks over one tree -/

section

variable {σ τ : Type} {sys sys' : PathCalls} {cb : DirentCb σ} {cb' : DirentCb τ}
variable {R : σ → τ → Prop}

mutual

/-- Walks whose callbacks keep their data related, and return alike on an
unreadable directory, keep in step. -/
theorem osDirMap_rel (recurse : Bool) (hjoin : sys'.asprintf = sys.asprintf)
    (herror : ∀ p errno a b, R a b →
      (cb (some p) .isError errno a).1 = (cb' (some p) .isError errno b).1 ∧
        R (cb (some p) .isError errno a).2 (cb' (some p) .isError errno b).2)
    (hentry : ∀ p t a b, R a b →
      R (cb (sys.realpath p) (direntFlags t) 0 a).2 (cb' (sys'.realpath p) (direntFlags t) 0 b).2)
    (path : CString) : ∀ (d : Dir) (a : σ) (b : τ), R a b →
      (osDirMap sys recurse cb path d a).1 = (osDirMap sys' recurse cb' path d b).1 ∧
        R (osDirMap sys recurse cb path d a).2 (osDirMap sys' recurse cb' path d b).2
  | .openError errno, a, b, hab => by
    rw [osDirMap, osDirMap]
    exact herror path errno a b hab
  | .opened entries, a, b, hab => by
    rw [osDirMap, osDirMap]
    exact ⟨rfl, readLoop_rel recurse hjoin herror hentry path entries a b hab⟩

theorem readLoop_rel (recurse : Bool) (hjoin : sys'.asprintf = sys.asprintf)
    (herror : ∀ p errno a b, R a b →
      (cb (some p) .isError errno a).1 = (cb' (some p) .isError errno b).1 ∧
        R (cb (some p) .isError errno a).2 (cb' (some p) .isError errno b).2)
    (hentry : ∀ p t a b, R a b →
      R (cb (sys.realpath p) (direntFlags t) 0 a).2 (cb' (sys'.realpath p) (direntFlags t) 0 b).2)
    (path : CString) : ∀ (s : DirStream) (a : σ) (b : τ), R a b →
      R (readLoop sys recurse cb path s a) (readLoop sys' recurse cb' path s b)
  | .endOfDir, a, b, hab => by
    rw [readLoop, readLoop]
    exact hab
  | .readError errno, a, b, hab => by
    rw [readLoop, readLoop]
    exact (herror path errno a b hab).2
  | .leaf name dType _ rest, a, b, hab => by
    rw [readLoop, readLoop, hjoin]
    cases sys.asprintf path name with
    | none => exact hab
    | some p =>
      exact readLoop_rel recurse hjoin herror hentry path rest _ _ (hentry p _ a b hab)
  | .subdir name dir rest, a, b, hab => by
    rw [readLoop, readLoop, hjoin]
    by_cases hdot : isDotOrDotDot name
    · simp only [hdot, if_true]
      exact readLoop_rel recurse hjoin herror hentry path rest a b hab
    · simp only [hdot, Bool.false_eq_true, if_false]
      cases sys.asprintf path name with
      | none => exact hab
      | some p =>
        cases recurse with
        | false =>
          exact readLoop_rel false hjoin herror hentry path rest _ _ (hentry p _ a b hab)
        | true =>
          obtain ⟨hret, hrel⟩ := osDirMap_rel true hjoin herror hentry p dir a b hab
          simp only [if_true, hret]
          split
          · exact hrel
          · exact readLoop_rel true hjoin herror hentry path rest _ _ hrel

end

end

/-- `"%s/%s"`. -/
def joinPath (path name : CString) : CString := path ++ '/' :: name

/-- Library calls that succeed, on paths that are their own real path. -/
def plainPathCalls : PathCalls :=
  { asprintf := fun path name => some (joinPath path name), realpath := some }

/-! ## The plain files of a tree -/

/-- Two sublists that make up the whole are each the whole. -/
theorem append_eq_append_iff_of_sublist {α : Type*} {xs xs' ys ys' : List α}
    (hx : xs.Sublist xs') (hy : ys.Sublist ys') :
    xs ++ ys = xs' ++ ys' ↔ xs = xs' ∧ ys = ys' := by
  constructor
  · intro h
    have hlen := congrArg List.length h
    simp only [List.length_append] at hlen
    have h1 := hx.length_le
    have h2 := hy.length_le
    exact ⟨hx.eq_of_length (by omega), hy.eq_of_length (by omega)⟩
  · rintro ⟨rfl, rfl⟩
    rfl

mutual

/-- The entry paths of the plain files below `path` all of whose ancestor
directories can be opened, in the order in which they are listed. -/
def Dir.plainFiles (path : CString) : Dir → List CString
  | .openError _ => []
  | .opened entries => entries.plainFiles path

/-- The plain files under a directory. -/
def DirStream.plainFiles (path : CString) : DirStream → List CString
  | .endOfDir | .readError _ => []
  | .leaf name dType _ rest =>
    (if dType = .reg then [joinPath path name] else []) ++ rest.plainFiles path
  | .subdir name dir rest =>
    (if isDotOrDotDot name then [] else dir.plainFiles (joinPath path name))
      ++ rest.plainFiles path

end

mutual

/-- Some plain file can be reached through directories that open. -/
def Dir.HasPlainFile : Dir → Prop
  | .openError _ => False
  | .opened entries => entries.HasPlainFile

/-- There is a plain file under the directory. -/
def DirStream.HasPlainFile : DirStream → Prop
  | .endOfDir | .readError _ => False
  | .leaf _ dType _ rest => dType = .reg ∨ rest.HasPlainFile
  | .subdir name dir rest =>
    (isDotOrDotDot name = false ∧ dir.HasPlainFile) ∨ rest.HasPlainFile

end

mutual

/-- In no directory that can be reached does an entry with a plain file in
it come after a subdirectory that cannot be opened. -/
def Dir.NothingHidden : Dir → Prop
  | .openError _ => True
  | .opened entries => entries.NothingHidden

/-- No plain file is behind a directory that cannot be opened. -/
def DirStream.NothingHidden : DirStream → Prop
  | .endOfDir | .readError _ => True
  | .leaf _ _ _ rest => rest.NothingHidden
  | .subdir name (.openError _) rest =>
    if isDotOrDotDot name then rest.NothingHidden else ¬ rest.HasPlainFile
  | .subdir name (.opened entries) rest =>
    (isDotOrDotDot name = false → entries.NothingHidden) ∧ rest.NothingHidden

end

mutual

theorem Dir.plainFiles_eq_nil_iff (path : CString) :
    ∀ d : Dir, d.plainFiles path = [] ↔ ¬ d.HasPlainFile
  | .openError _ => by simp [Dir.plainFiles, Dir.HasPlainFile]
  | .opened entries => by
    rw [Dir.plainFiles, Dir.HasPlainFile]
    exact DirStream.plainFiles_eq_nil_iff path entries

theorem DirStream.plainFiles_eq_nil_iff (path : CString) :
    ∀ s : DirStream, s.plainFiles path = [] ↔ ¬ s.HasPlainFile
  | .endOfDir | .readError _ => by simp [DirStream.plainFiles, DirStream.HasPlainFile]
  | .leaf name dType _ rest => by
    have ih := DirStream.plainFiles_eq_nil_iff path rest
    by_cases hreg : dType = .reg <;>
      simp [DirStream.plainFiles, DirStream.HasPlainFile, hreg, ih]
  | .subdir name dir rest => by
    have ihd := Dir.plainFiles_eq_nil_iff (joinPath path name) dir
    have ih := DirStream.plainFiles_eq_nil_iff path rest
    cases hdot : isDotOrDotDot name <;>
      simp [DirStream.plainFiles, DirStream.HasPlainFile, hdot, ih, ihd]

end

end Armadito.Os
