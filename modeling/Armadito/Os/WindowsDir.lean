import Armadito.Os.DirContract

/-!
# Os.WindowsDir

The Windows `os_dir_map`. `FindFirstFile` opens an enumeration and delivers
its first entry, `FindNextFile` delivers the others; the walk looks at the
others only.

The tree is what these calls present, in the order in which they present it.
The names `.` and `..` are entries of most directories, but not of the root
of a drive. An enumeration that cannot be opened has no entries.
-/

namespace Armadito.Os.Windows

/-! ## Attributes -/

def fileAttributeDirectory : UInt32 := 0x10
def fileAttributeArchive : UInt32 := 0x20
def fileAttributeDevice : UInt32 := 0x40
def fileAttributeNormal : UInt32 := 0x80
def fileAttributeNotContentIndexed : UInt32 := 0x2000

/-- What `GetFileAttributesA` answers when it fails: all bits are set. -/
def invalidFileAttributes : UInt32 := 0xFFFFFFFF

/-- The attribute of a directory is there. -/
def IsDirectory (attributes : UInt32) : Prop := attributes &&& fileAttributeDirectory ≠ 0

instance (attributes : UInt32) : Decidable (IsDirectory attributes) :=
  inferInstanceAs (Decidable (_ ≠ _))

/-- `dirent_flags`. -/
def direntFlags (attributes : UInt32) : OsFileFlag :=
  if IsDirectory attributes then .isDirectory
  else if attributes &&& fileAttributeDevice ≠ 0 then .isDevice
  else if attributes &&& fileAttributeNormal ≠ 0 ∨ attributes &&& fileAttributeArchive ≠ 0 ∨
      attributes &&& fileAttributeNotContentIndexed ≠ 0 then .isPlainFile
  else .isUnknown

/-! ## Trees -/

mutual

/-- An entry, with the attributes it is enumerated with. `hidden` says that
the attributes of a file cannot be queried by its path. -/
inductive Node where
  | file (attributes : UInt32) (notDir : ¬ IsDirectory attributes) (hidden : Bool)
  | directory (attributes : UInt32) (isDir : IsDirectory attributes) (entries : Listing)

/-- The entries in the order of their enumeration. -/
inductive Listing where
  | done
  | dot (name : CString) (isDot : isDotOrDotDot name = true) (rest : Listing)
  | entry (name : CString) (notDot : isDotOrDotDot name = false) (node : Node) (rest : Listing)

end

/-- The attributes of a file or directory. -/
def Node.attributes : Node → UInt32
  | .file attributes _ _ | .directory attributes _ _ => attributes

/-- What `GetFileAttributesA` answers for the path of the entry. -/
def Node.queried : Node → UInt32
  | .file attributes _ hidden => if hidden then invalidFileAttributes else attributes
  | .directory attributes _ _ => attributes

/-- `"%s\\%s"`. -/
def joinPath (path name : CString) : CString := path ++ '\\' :: name

/-! ## The walk -/

section

variable {σ : Type} (recurse : Int) (cb : DirentCb σ)

mutual

/-- With both parameters given. The entry that `FindFirstFile` delivers is
in `fdata`, which nothing reads; on a file it fails. -/
def osDirMap (path : CString) : Node → σ → Int × σ
  | .file attributes _ hidden, data =>
    if IsDirectory (if hidden then invalidFileAttributes else attributes) then (0, data)
    else (1, data)
  | .directory _ _ .done, data => (0, data)
  | .directory _ _ (.dot _ _ rest), data => (0, findNextLoop path rest data)
  | .directory _ _ (.entry _ _ _ rest), data => (0, findNextLoop path rest data)

/-- The `while` around `FindNextFile`. -/
def findNextLoop (path : CString) : Listing → σ → σ
  | .done, data => data
  | .dot _ _ rest, data => findNextLoop path rest data
  | .entry name _ node rest, data =>
    let entryPath := joinPath path name
    if IsDirectory node.queried ∧ recurse ≥ 1 then
      let r := osDirMap entryPath node data
      if r.1 ≠ 0 then r.2 else findNextLoop path rest r.2
    else
      -- the value the callback returns is dropped here
      findNextLoop path rest (cb (some entryPath) (direntFlags node.attributes) 0 data).2

end

end

/-! ## What there is to visit -/

mutual

/-- The entries that are not directories, once each. -/
def Node.visits (path : CString) : Node → List Visit
  | .file attributes _ _ => [⟨some path, direntFlags attributes, 0⟩]
  | .directory _ _ entries => entries.visits path

/-- The visits that the contract asks for. -/
def Listing.visits (path : CString) : Listing → List Visit
  | .done => []
  | .dot _ _ rest => rest.visits path
  | .entry name _ node rest => node.visits (joinPath path name) ++ rest.visits path

end

mutual

/-- Some entry is not a directory. -/
def Node.HasFile : Node → Prop
  | .file _ _ _ => True
  | .directory _ _ entries => entries.HasFile

/-- There is a file under the directory. -/
def Listing.HasFile : Listing → Prop
  | .done => False
  | .dot _ _ rest => rest.HasFile
  | .entry _ _ node rest => node.HasFile ∨ rest.HasFile

end

/-- The first entry is, or has in it, one that is not a directory. -/
def Listing.FirstHasFile : Listing → Prop
  | .done => False
  | .dot _ _ _ => False
  | .entry _ _ node _ => node.HasFile

mutual

/-- The enumerations of the directory and of all directories in it. -/
def Node.listings : Node → List Listing
  | .file _ _ _ => []
  | .directory _ _ entries => entries :: entries.listings

/-- The listings under a directory. -/
def Listing.listings : Listing → List Listing
  | .done => []
  | .dot _ _ rest => rest.listings
  | .entry _ _ node rest => node.listings ++ rest.listings

end

mutual

/-- The attributes of every file can be queried. -/
def Node.Queryable : Node → Prop
  | .file _ _ hidden => hidden = false
  | .directory _ _ entries => entries.Queryable

/-- The attributes of every file can be read. -/
def Listing.Queryable : Listing → Prop
  | .done => True
  | .dot _ _ rest => rest.Queryable
  | .entry _ _ node rest => node.Queryable ∧ rest.Queryable

end

/-! ## What the walk visits -/

mutual

/-- The visits of the walk. -/
def Node.walked (path : CString) : Node → List Visit
  | .file attributes _ hidden =>
    if hidden then [] else [⟨some path, direntFlags attributes, 0⟩]
  | .directory _ _ .done => []
  | .directory _ _ (.dot _ _ rest) => rest.walked path
  | .directory _ _ (.entry _ _ _ rest) => rest.walked path

/-- The visits of the walk, entry by entry. -/
def Listing.walked (path : CString) : Listing → List Visit
  | .done => []
  | .dot _ _ rest => rest.walked path
  | .entry name _ node rest => node.walked (joinPath path name) ++ rest.walked path

end

theorem isDirectory_invalid : IsDirectory invalidFileAttributes := by decide

theorem Node.walked_of_not_directory {node : Node} (h : ¬ IsDirectory node.queried)
    (path : CString) : node.walked path = [⟨some path, direntFlags node.attributes, 0⟩] := by
  cases node with
  | file attributes notDir hidden =>
    cases hidden with
    | false => rfl
    | true => exact absurd isDirectory_invalid h
  | directory attributes isDir entries => exact absurd isDir h

section

variable {σ : Type} {recurse : Int} {cb : DirentCb σ}

mutual

/-- The calls of a walk, in order. -/
theorem osDirMap_walked (hrecurse : recurse ≥ 1) (path : CString) :
    ∀ (node : Node) (data : σ) (log : List CallbackCall), IsDirectory node.queried →
      osDirMap recurse (traced cb) path node (data, log)
        = (0, (dataAfter cb (node.walked path) data, log ++ callsOn cb (node.walked path) data))
  | .file attributes notDir hidden, data, log, hdir => by
    cases hidden with
    | false => exact absurd hdir notDir
    | true => simp [osDirMap, Node.walked, isDirectory_invalid, dataAfter, callsOn]
  | .directory _ _ .done, data, log, _ => by
    simp [osDirMap, Node.walked, dataAfter, callsOn]
  | .directory _ _ (.dot _ _ rest), data, log, _ => by
    rw [osDirMap, Node.walked, findNextLoop_walked hrecurse path rest data log]
  | .directory _ _ (.entry _ _ _ rest), data, log, _ => by
    rw [osDirMap, Node.walked, findNextLoop_walked hrecurse path rest data log]

theorem findNextLoop_walked (hrecurse : recurse ≥ 1) (path : CString) :
    ∀ (entries : Listing) (data : σ) (log : List CallbackCall),
      findNextLoop recurse (traced cb) path entries (data, log)
        = (dataAfter cb (entries.walked path) data, log ++ callsOn cb (entries.walked path) data)
  | .done, data, log => by simp [findNextLoop, Listing.walked, dataAfter, callsOn]
  | .dot _ _ rest, data, log => by
    rw [findNextLoop, Listing.walked, findNextLoop_walked hrecurse path rest data log]
  | .entry name _ node rest, data, log => by
    rw [findNextLoop, Listing.walked, dataAfter_append, callsOn_append, ← List.append_assoc]
    by_cases hdir : IsDirectory node.queried
    · rw [if_pos ⟨hdir, hrecurse⟩, osDirMap_walked hrecurse (joinPath path name) node data log hdir]
      exact findNextLoop_walked hrecurse path rest _ _
    · rw [if_neg (fun h => hdir h.1), Node.walked_of_not_directory hdir]
      exact findNextLoop_walked hrecurse path rest _ _

end

end

/-! ## What the walk misses -/

mutual

theorem Node.walked_sublist (path : CString) :
    ∀ node : Node, (node.walked path).Sublist (node.visits path)
  | .file attributes _ hidden => by
    cases hidden with
    | false => exact List.Sublist.refl _
    | true => exact List.nil_sublist _
  | .directory _ _ .done => List.Sublist.refl []
  | .directory _ _ (.dot _ _ rest) => Listing.walked_sublist path rest
  | .directory _ _ (.entry name _ node rest) => by
    rw [Node.walked, Node.visits, Listing.visits]
    exact (Listing.walked_sublist path rest).trans (List.sublist_append_right _ _)

theorem Listing.walked_sublist (path : CString) :
    ∀ entries : Listing, (entries.walked path).Sublist (entries.visits path)
  | .done => List.Sublist.refl []
  | .dot _ _ rest => Listing.walked_sublist path rest
  | .entry name _ node rest => by
    rw [Listing.walked, Listing.visits]
    exact (Node.walked_sublist (joinPath path name) node).append
      (Listing.walked_sublist path rest)

end

mutual

theorem Node.visits_eq_nil_iff (path : CString) :
    ∀ node : Node, node.visits path = [] ↔ ¬ node.HasFile
  | .file _ _ _ => by simp [Node.visits, Node.HasFile]
  | .directory _ _ entries => by
    rw [Node.visits, Node.HasFile]
    exact Listing.visits_eq_nil_iff path entries

theorem Listing.visits_eq_nil_iff (path : CString) :
    ∀ entries : Listing, entries.visits path = [] ↔ ¬ entries.HasFile
  | .done => by simp [Listing.visits, Listing.HasFile]
  | .dot _ _ rest => by
    rw [Listing.visits, Listing.HasFile]
    exact Listing.visits_eq_nil_iff path rest
  | .entry name _ node rest => by
    rw [Listing.visits, Listing.HasFile, List.append_eq_nil_iff, not_or,
      Node.visits_eq_nil_iff (joinPath path name) node, Listing.visits_eq_nil_iff path rest]

end

/-- Nothing in the directory is missed: in no enumeration the first entry
is or has a file, and the attributes of every file can be queried. -/
def Node.AllSeen (node : Node) : Prop :=
  (∀ entries ∈ node.listings, ¬ entries.FirstHasFile) ∧ node.Queryable

/-- Nothing is lost by the first entry of a listing. -/
def Listing.AllSeen (entries : Listing) : Prop :=
  (∀ sub ∈ entries.listings, ¬ sub.FirstHasFile) ∧ entries.Queryable

theorem Listing.allSeen_entry {name : CString} {notDot : isDotOrDotDot name = false}
    {node : Node} {rest : Listing} :
    (Listing.entry name notDot node rest).AllSeen ↔ node.AllSeen ∧ rest.AllSeen := by
  simp only [Listing.AllSeen, Node.AllSeen, Listing.listings, Listing.Queryable,
    List.forall_mem_append]
  tauto

theorem Node.allSeen_directory {attributes : UInt32} {isDir : IsDirectory attributes}
    {entries : Listing} : (Node.directory attributes isDir entries).AllSeen ↔
      ¬ entries.FirstHasFile ∧ entries.AllSeen := by
  simp only [Node.AllSeen, Listing.AllSeen, Node.listings, Node.Queryable, List.forall_mem_cons]
  tauto

theorem Listing.FirstHasFile.hasFile {entries : Listing} (h : entries.FirstHasFile) :
    entries.HasFile := by
  cases entries with
  | done => exact h
  | dot name isDot rest => exact h.elim
  | entry name notDot node rest => exact .inl h

mutual

/-- Where there is no file, none is missed. -/
theorem Node.allSeen_of_not_hasFile : ∀ node : Node, ¬ node.HasFile → node.AllSeen
  | .file _ _ _, h => absurd trivial h
  | .directory _ _ entries, h =>
    Node.allSeen_directory.mpr
      ⟨fun hfirst => h hfirst.hasFile, Listing.allSeen_of_not_hasFile entries h⟩

theorem Listing.allSeen_of_not_hasFile : ∀ entries : Listing, ¬ entries.HasFile → entries.AllSeen
  | .done, _ => by simp [Listing.AllSeen, Listing.listings, Listing.Queryable]
  | .dot _ _ rest, h => Listing.allSeen_of_not_hasFile rest h
  | .entry _ _ node rest, h => by
    rw [Listing.HasFile, not_or] at h
    exact Listing.allSeen_entry.mpr ⟨Node.allSeen_of_not_hasFile node h.1,
      Listing.allSeen_of_not_hasFile rest h.2⟩

end

mutual

theorem Node.walked_eq_visits_iff (path : CString) :
    ∀ node : Node, node.walked path = node.visits path ↔ node.AllSeen
  | .file attributes _ hidden => by
    cases hidden <;> simp [Node.walked, Node.visits, Node.AllSeen, Node.listings, Node.Queryable]
  | .directory _ _ .done => by
    simp [Node.walked, Node.visits, Listing.visits, Node.AllSeen, Node.listings, Listing.listings,
      Listing.FirstHasFile, Node.Queryable, Listing.Queryable]
  | .directory _ _ (.dot _ _ rest) => by
    rw [Node.walked, Node.visits, Listing.visits, Node.allSeen_directory,
      Listing.walked_eq_visits_iff path rest]
    exact (and_iff_right not_false).symm
  | .directory _ _ (.entry name notDot node rest) => by
    rw [Node.walked, Node.visits, Listing.visits, Node.allSeen_directory, Listing.allSeen_entry,
      ← List.nil_append (rest.walked path),
      append_eq_append_iff_of_sublist (List.nil_sublist _) (Listing.walked_sublist path rest),
      eq_comm, Node.visits_eq_nil_iff, Listing.walked_eq_visits_iff path rest]
    constructor
    · rintro ⟨hnone, hrest⟩
      exact ⟨hnone, Node.allSeen_of_not_hasFile node hnone, hrest⟩
    · rintro ⟨hnone, -, hrest⟩
      exact ⟨hnone, hrest⟩

theorem Listing.walked_eq_visits_iff (path : CString) :
    ∀ entries : Listing, entries.walked path = entries.visits path ↔ entries.AllSeen
  | .done => by
    simp [Listing.walked, Listing.visits, Listing.AllSeen, Listing.listings, Listing.Queryable]
  | .dot _ _ rest => Listing.walked_eq_visits_iff path rest
  | .entry name _ node rest => by
    rw [Listing.walked, Listing.visits, Listing.allSeen_entry,
      append_eq_append_iff_of_sublist (Node.walked_sublist _ node)
        (Listing.walked_sublist path rest),
      Node.walked_eq_visits_iff (joinPath path name) node, Listing.walked_eq_visits_iff path rest]

end

section

variable {σ : Type}

/-- The calls a walk makes, in order. -/
def walkCalls (recurse : Int) (cb : DirentCb σ) (path : CString) (node : Node) (data : σ) :
    List CallbackCall :=
  (osDirMap recurse (traced cb) path node (data, [])).2.2

/-- The callback is called once for each entry that is not a directory, and
for no other. -/
def VisitsEverything (recurse : Int) (cb : DirentCb σ) (path : CString) (node : Node)
    (data : σ) : Prop :=
  ((walkCalls recurse cb path node data).map CallbackCall.visit).Perm (node.visits path)

/-- **The Windows walk visits everything if and only if nothing depends on
the first entry**: in no directory is the entry that `FindFirstFile`
delivers a file, or a directory with a file somewhere in it, and no file is
taken for a directory because its attributes cannot be queried. -/
theorem osDirMap_visitsEverything_iff {recurse : Int} (hrecurse : recurse ≥ 1)
    (cb : DirentCb σ) (path : CString) {attributes : UInt32} (isDir : IsDirectory attributes)
    (entries : Listing) (data : σ) :
    VisitsEverything recurse cb path (.directory attributes isDir entries) data ↔
      (∀ sub ∈ (Node.directory attributes isDir entries).listings, ¬ sub.FirstHasFile) ∧
        entries.Queryable := by
  have hwalk : osDirMap recurse (traced cb) path (.directory attributes isDir entries) (data, []) =
      _ := osDirMap_walked hrecurse path (.directory attributes isDir entries) data [] isDir
  rw [VisitsEverything, walkCalls, hwalk, List.nil_append, map_visit_callsOn]
  refine Iff.trans ?_ (Node.walked_eq_visits_iff path (.directory attributes isDir entries))
  constructor
  · exact fun hperm => (Node.walked_sublist path _).eq_of_length hperm.length_eq
  · exact List.Perm.of_eq

end

/-- The callback that counts its calls. -/
def countCalls : DirentCb Nat := fun _ _ _ n => (0, n + 1)

/-- An archive file with a name of one letter. -/
def fileEntry (c : Char) (h : isDotOrDotDot [c] = false) (rest : Listing) : Listing :=
  .entry [c] h (.file fileAttributeArchive (by decide) false) rest

/-- A directory that is not the root of a drive. -/
theorem osDirMap_visitsEverything_dots :
    VisitsEverything 1 countCalls ['C', ':', '\\', 'd'] (.directory fileAttributeDirectory
      (by decide) (.dot ['.'] (by decide) (.dot ['.', '.'] (by decide)
        (fileEntry 'a' (by decide) .done)))) 0 := by
  refine (osDirMap_visitsEverything_iff (by decide) _ _ _ _ _).mpr ⟨?_, ?_⟩
  · simp [Node.listings, Listing.listings, Listing.FirstHasFile, fileEntry]
  · simp [Listing.Queryable, Node.Queryable, fileEntry]

/-- The root of a drive with two files: the first one is not visited. -/
theorem first_entry_missed :
    (walkCalls 1 countCalls ['D', ':'] (.directory fileAttributeDirectory (by decide)
        (fileEntry 'a' (by decide) (fileEntry 'b' (by decide) .done))) 0).map CallbackCall.visit =
      [⟨some ['D', ':', '\\', 'b'], .isPlainFile, 0⟩] ∧
    ¬ VisitsEverything 1 countCalls ['D', ':'] (.directory fileAttributeDirectory (by decide)
        (fileEntry 'a' (by decide) (fileEntry 'b' (by decide) .done))) 0 := by
  constructor
  · rfl
  · intro h
    have hlen := h.length_eq
    cases hlen

end Armadito.Os.Windows
