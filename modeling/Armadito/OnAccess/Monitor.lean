import Armadito.Lib.DirTree
import Armadito.Lib.Run
import Armadito.Os.Dir

/-!
# OnAccess.Monitor

`monitor.c` and `imonitor.c`: the monitor thread marks the configured
directories recursively and follows the creation, deletion and renaming of
directories through inotify events.

The thread and the rest of the system take turns at each system call. The
thread's call stack is part of the state: a frame for each function that
is under way, at the system call it makes next.
-/

namespace Armadito.OnAccess.Monitor

open Armadito.Os

/-! ## The kernel -/

def inMovedFrom : Nat := 0x40
def inMovedTo : Nat := 0x80
def inCreate : Nat := 0x100
def inDelete : Nat := 0x200
def inIsdir : Nat := 0x40000000

/-- `struct inotify_event`; without a name, `len` is 0. -/
structure InotifyEvent where
  wd : Nat
  mask : Nat
  name : Option CString
  deriving DecidableEq, Repr

/-- The directories (number 0 is `/`), the marks and watches on them, and
the events that were not read yet. A watch descriptor is not given twice. -/
structure Kernel where
  tree : DirTree CString
  cwd : Nat
  fanMarks : Nat → Bool
  watches : Nat → Option Nat
  nextWd : Nat
  pending : List InotifyEvent

/-- The names of a path. -/
def components (path : CString) : List CString :=
  (path.splitOn '/').filter fun name => name ≠ []

/-- Where a path starts. -/
def Kernel.base (k : Kernel) (path : CString) : Nat :=
  if path.head? = some '/' then 0 else k.cwd

/-- The directory that a path names. `.` and `..` are entries. -/
def Kernel.resolve (k : Kernel) (path : CString) : Option Nat :=
  if path = [] then none else k.tree.walk (k.base path) (components path)

/-- An event for a directory, where it is watched. -/
def Kernel.notify (k : Kernel) (dir : Nat) (mask : Nat) (name : CString) : Kernel :=
  match k.watches dir with
  | some wd => { k with pending := k.pending ++ [⟨wd, mask, some name⟩] }
  | none => k

/-- A directory that is gone loses its mark and its watch. -/
def Kernel.forget (k : Kernel) (dir : Nat) : Kernel :=
  { k with
    fanMarks := Function.update k.fanMarks dir false
    watches := Function.update k.watches dir none }

/-- What can stand between two slashes. -/
def IsEntry (name : CString) : Prop := name ≠ [] ∧ '/' ∉ name

/-- A name that a directory can be made with. -/
def IsName (name : CString) : Prop := IsEntry name ∧ isDotOrDotDot name = false

instance (name : CString) : Decidable (IsEntry name) := inferInstanceAs (Decidable (_ ∧ _))

instance (name : CString) : Decidable (IsName name) := inferInstanceAs (Decidable (_ ∧ _))

/-- Nothing but `.` and `..`. -/
def IsEmpty (t : DirTree CString) (dir : Nat) : Prop :=
  ∀ name ∈ t.names dir, isDotOrDotDot name = true

instance (t : DirTree CString) (dir : Nat) : Decidable (IsEmpty t dir) :=
  inferInstanceAs (Decidable (∀ name ∈ t.names dir, isDotOrDotDot name = true))

/-- `mkdir(2)` in the directory that the names lead to from `/`. -/
def Kernel.mkdir (k : Kernel) (path : List CString) (name : CString) : Option Kernel := do
  let dir ← k.tree.walk 0 path
  if IsName name ∧ k.tree.lookup dir name = none then
    let own := [(".".toList, k.tree.next), ("..".toList, dir)]
    let k' := { k with tree := (k.tree.newDir own).link dir name k.tree.next }
    return k'.notify dir (inCreate ||| inIsdir) name
  else none

/-- `rmdir(2)`. -/
def Kernel.rmdir (k : Kernel) (path : List CString) (name : CString) : Option Kernel := do
  let dir ← k.tree.walk 0 path
  let sub ← k.tree.lookup dir name
  if IsName name ∧ IsEmpty k.tree sub then
    let k' := { k with tree := k.tree.unlink dir name }
    return (k'.forget sub).notify dir (inDelete ||| inIsdir) name
  else none

/-- The tree after a rename; an entry of the new name is replaced. -/
def renameTree (t : DirTree CString) (dir : Nat) (name : CString) (dir' : Nat)
    (name' : CString) (sub : Nat) : DirTree CString :=
  let moved := ((t.unlink dir name).unlink dir' name').link dir' name' sub
  (moved.unlink sub "..".toList).link sub "..".toList dir'

/-- `rename(2)` of a directory: not into itself, and in the place of an
empty directory at most. -/
def Kernel.rename (k : Kernel) (path : List CString) (name : CString) (path' : List CString)
    (name' : CString) : Option Kernel := do
  let dir ← k.tree.walk 0 path
  let sub ← k.tree.lookup dir name
  let dir' ← k.tree.walk 0 path'
  if IsName name ∧ IsName name' ∧ sub ∉ k.tree.trail 0 path' then
    let k' := { k with tree := renameTree k.tree dir name dir' name' sub }
    match k.tree.lookup dir' name' with
    | none =>
      return (k'.notify dir (inMovedFrom ||| inIsdir) name).notify dir'
        (inMovedTo ||| inIsdir) name'
    | some old =>
      if old ≠ sub ∧ IsEmpty k.tree old then
        return ((k'.forget old).notify dir (inMovedFrom ||| inIsdir) name).notify dir'
          (inMovedTo ||| inIsdir) name'
      else none
  else none

/-! ## The monitor -/

/-- What an entry of the configuration is. -/
inductive EntryFlag where
  | mount
  | dir
  deriving DecidableEq, Repr

/-- `struct monitor_entry`. -/
structure MonitorEntry where
  path : CString
  flag : EntryFlag
  deriving DecidableEq, Repr

/-- A function under way, before its next system call. -/
inductive Frame where
  /-- `mark_entries` -/
  | markEntries (entries : List MonitorEntry)
  /-- `access_monitor_recursive_mark_directory` -/
  | markFan (path : CString)
  | addWatch (path : CString)
  | openDir (path : CString)
  /-- with the names that `readdir` has yet to return at least: the directories
  that were there when the listing was opened -/
  | listing (path : CString) (dir : Nat) (due : List CString)
  /-- `access_monitor_unmark_directory` -/
  | unmarkFan (path : CString)
  | rmWatch (path : CString)
  deriving DecidableEq, Repr

/-- The monitor between two of its calls. -/
structure State where
  kernel : Kernel
  wd2path : Nat → Option CString
  path2wd : CString → Option Nat
  stack : List Frame

/-- The end of `inotify_monitor_mark_directory`. -/
def inotifyMonitorMarkDirectory (s : State) (wd : Nat) (path : CString) : State :=
  { s with
    wd2path := Function.update s.wd2path wd (some path)
    path2wd := Function.update s.path2wd path (some wd) }

/-- `inotify_rm_watch`, which fails without consequences. -/
def Kernel.inotifyRmWatch (k : Kernel) (wd : Nat) : Kernel :=
  { k with watches := fun dir => if k.watches dir = some wd then none else k.watches dir }

/-- `inotify_monitor_unmark_directory`. -/
def inotifyMonitorUnmarkDirectory (s : State) (path : CString) : State :=
  match s.path2wd path with
  | none => { s with path2wd := Function.update s.path2wd path none }
  | some wd =>
    -- `GINT_TO_POINTER(0)` is `NULL`
    if wd = 0 then { s with path2wd := Function.update s.path2wd path none }
    else { s with
      kernel := s.kernel.inotifyRmWatch wd
      wd2path := Function.update s.wd2path wd none
      path2wd := Function.update s.path2wd path none }

/-- `inotify_event_full_path`; `none` is NULL. -/
def inotifyEventFullPath (s : State) (event : InotifyEvent) : Option CString :=
  match s.wd2path event.wd with
  | none => none
  | some dir =>
    match event.name with
    | some name => some (joinPath dir name)
    | none => some dir

/-- The call that the event leads to. -/
def inotifyEventProcess (s : State) (event : InotifyEvent) : List Frame :=
  if event.mask &&& inIsdir = 0 then []
  else
    match inotifyEventFullPath s event with
    | none => []
    | some fullPath =>
      if event.mask &&& inCreate ≠ 0 ∨ event.mask &&& inMovedTo ≠ 0 then [.markFan fullPath]
      else if event.mask &&& inDelete ≠ 0 ∨ event.mask &&& inMovedFrom ≠ 0 then
        [.unmarkFan fullPath]
      else []

/-! ## Steps -/

/-- What the kernel, another process or the monitor does next. -/
inductive Label where
  | mkdir (path : List CString) (name : CString)
  | rmdir (path : List CString) (name : CString)
  | rename (path : List CString) (name : CString) (path' : List CString) (name' : CString)
  /-- an event that is not about a directory -/
  | fileEvent (event : InotifyEvent)
  | nextEntry
  | fanotifyMark (ok : Bool)
  | inotifyAddWatch (ok : Bool)
  | opendir (ok : Bool)
  /-- an entry of any name and type, between those that are due -/
  | readdir (name : CString) (dType : DType)
  /-- `readdir` is assumed to return every name that is due with `DT_DIR` before
  it comes to the end, so the listing is not closed earlier -/
  | closedir
  | fanotifyUnmark (ok : Bool)
  | inotifyRmWatch
  | inotifyEvent

/-- A step that changes only the kernel. -/
def State.withKernel (s : State) (k : Option Kernel) : Option State :=
  k.map fun kernel => { s with kernel }

/-- A system call on a path that names no directory fails; on one that does,
it may fail. -/
def step (s : State) : Label → Option State
  | .mkdir path name => s.withKernel (s.kernel.mkdir path name)
  | .rmdir path name => s.withKernel (s.kernel.rmdir path name)
  | .rename path name path' name' => s.withKernel (s.kernel.rename path name path' name')
  | .fileEvent event =>
    if event.mask &&& inIsdir = 0 then
      some { s with kernel := { s.kernel with pending := s.kernel.pending ++ [event] } }
    else none
  | .nextEntry =>
    match s.stack with
    | .markEntries [] :: stack => some { s with stack }
    | .markEntries (e :: entries) :: stack =>
      match e.flag with
      | .dir => some { s with stack := .markFan e.path :: .markEntries entries :: stack }
      -- a mark on a mount point is none on a directory
      | .mount => some { s with stack := .markEntries entries :: stack }
    | _ => none
  | .fanotifyMark ok =>
    match s.stack with
    | .markFan path :: stack =>
      match s.kernel.resolve path with
      | some dir =>
        if ok then
          some { s with
            kernel :=
              { s.kernel with fanMarks := Function.update s.kernel.fanMarks dir true }
            stack := .addWatch path :: stack }
        else some { s with stack := .openDir path :: stack }
      | none => some { s with stack := .openDir path :: stack }
    | _ => none
  | .inotifyAddWatch ok =>
    match s.stack with
    | .addWatch path :: stack =>
      match s.kernel.resolve path with
      | some dir =>
        if ok then
          match s.kernel.watches dir with
          | some wd =>
            some (inotifyMonitorMarkDirectory { s with stack := .openDir path :: stack } wd path)
          | none =>
            let wd := s.kernel.nextWd
            let kernel := { s.kernel with
              watches := Function.update s.kernel.watches dir (some wd)
              nextWd := wd + 1 }
            some (inotifyMonitorMarkDirectory { s with kernel, stack := .openDir path :: stack }
              wd path)
        else some { s with stack := .openDir path :: stack }
      | none => some { s with stack := .openDir path :: stack }
    | _ => none
  | .opendir ok =>
    match s.stack with
    | .openDir path :: stack =>
      match s.kernel.resolve path with
      | some dir =>
        if ok then
          some { s with stack := .listing path dir (s.kernel.tree.names dir) :: stack }
        else some { s with stack }
      | none => some { s with stack }
    | _ => none
  | .readdir name dType =>
    match s.stack with
    | .listing path dir due :: stack =>
      if IsEntry name then
        if dType ≠ .dir then some s
        else if isDotOrDotDot name then
          some { s with stack := .listing path dir (due.erase name) :: stack }
        else
          let rest := .listing path dir (due.erase name) :: stack
          some { s with stack := .markFan (joinPath path name) :: rest }
      else none
    | _ => none
  | .closedir =>
    match s.stack with
    | .listing _ _ [] :: stack => some { s with stack }
    | _ => none
  | .fanotifyUnmark ok =>
    match s.stack with
    | .unmarkFan path :: stack =>
      match s.kernel.resolve path with
      | some dir =>
        if ok ∧ s.kernel.fanMarks dir then
          some { s with
            kernel :=
              { s.kernel with fanMarks := Function.update s.kernel.fanMarks dir false }
            stack := .rmWatch path :: stack }
        else some { s with stack }
      | none => some { s with stack }
    | _ => none
  | .inotifyRmWatch =>
    match s.stack with
    | .rmWatch path :: stack => some (inotifyMonitorUnmarkDirectory { s with stack } path)
    | _ => none
  | .inotifyEvent =>
    match s.stack, s.kernel.pending with
    | [], event :: pending =>
      some { s with
        kernel := { s.kernel with pending }
        stack := inotifyEventProcess s event }
    | _, _ => none

/-- The monitor thread is about to mark its entries for the first time. -/
structure IsStart (entries : List MonitorEntry) (s : State) : Prop where
  tree : s.kernel.tree.WF
  root : 0 < s.kernel.tree.next
  cwd : s.kernel.cwd < s.kernel.tree.next
  fanMarks : ∀ dir, s.kernel.fanMarks dir = false
  watches : ∀ dir, s.kernel.watches dir = none
  nextWd : 0 < s.kernel.nextWd
  pending : s.kernel.pending = []
  wd2path : ∀ wd, s.wd2path wd = none
  path2wd : ∀ path, s.path2wd path = none
  stack : s.stack = [.markEntries entries]

end Armadito.OnAccess.Monitor
