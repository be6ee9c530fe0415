import Armadito.Lib.Overlay
import Armadito.OnAccess.Monitor

/-!
# OnAccess.Mounts

The mount points of the on-access monitor: those of the configuration, and
those that UDisks announces (`mount.c` and the part of `monitor.c` that is
about them). A mark is put on the mount that contains a path, which need not
be mounted there any more.

The signals of D-Bus are dispatched in the monitor thread, so that
`g_main_context_invoke_full` calls `mount_idle_cb` at once. Processes mount
and unmount file systems in between, and paths are taken to be absolute and
free of symbolic links.
-/

namespace Armadito.OnAccess.Mounts

open Monitor (components)

/-! ## Signals -/

/-- The value of a property, as far as its type matters. -/
inductive PropertyValue where
  | bytestringArray (strings : List CString)
  | other
  deriving DecidableEq, Repr

/-- A child of the parameters of a signal. -/
inductive Variant where
  | string (s : CString)
  | vardict (entries : List (CString × PropertyValue))
  | stringArray (strings : List CString)
  | other
  deriving DecidableEq, Repr

/-- `enum mount_event_type`. -/
inductive MountEventType where
  | mount
  | umount
  deriving DecidableEq, Repr

/-- What `get_mount_event` does with a signal; for a property of another type
it goes on with a number of mount points that was not set. -/
inductive SignalEvent where
  | ignored
  | notSet
  | event (evType : MountEventType) (mountPoint : Option CString)
  deriving DecidableEq, Repr

/-- The interface whose properties `get_mount_event` looks at. -/
def filesystemInterface : CString := "org.freedesktop.UDisks2.Filesystem".toList

/-- The property of the mount table. -/
def mountPointsKey : CString := "MountPoints".toList

/-- `get_mount_event` on the children of the parameters. -/
def getMountEvent : List Variant → SignalEvent
  | .string propName :: .vardict entries :: .stringArray _ :: _ =>
    if propName ≠ filesystemInterface then .ignored
    else
      match entries.lookup mountPointsKey with
      | none => .ignored
      | some .other => .notSet
      | some (.bytestringArray []) => .event .umount none
      | some (.bytestringArray (mountPoint :: _)) => .event .mount (some mountPoint)
  | _ => .ignored

/-- A signal of UDisks about the mount points of a file system, with other
properties that have changed. -/
structure Announcement where
  mountPoints : List CString
  changed : List (CString × PropertyValue)
  invalidated : List CString
  fresh : mountPointsKey ∉ changed.map Prod.fst

/-- The signal as D-Bus delivers it. -/
def Announcement.parameters (a : Announcement) : List Variant :=
  [.string filesystemInterface,
    .vardict (a.changed ++ [(mountPointsKey, .bytestringArray a.mountPoints)]),
    .stringArray a.invalidated]

/-! ## The system -/

/-- A mount on the tree of `/`, with the device of its file system. -/
structure Mount where
  id : Nat
  dev : UInt64
  point : CString
  deriving DecidableEq, Repr

/-- The names of its mount point. -/
def Mount.path (m : Mount) : List CString := components m.point

/-- The device of `/`, the devices that UDisks knows, and the fields of
`struct access_monitor` that do not change. -/
structure System where
  rootDev : UInt64
  udisks : UInt64 → Bool
  enableRemovableMedia : Bool
  autoscanRemovableMedia : Bool

/-- The mounts, the newest first, and the marks on them (0 is the mount of
`/`), the signals that were not dispatched yet, what is left for
`mark_entries`, and the scans that were started. -/
structure State where
  table : List Mount
  nextId : Nat
  marks : Nat → Bool
  signals : List (Option (List Variant))
  entries : List CString
  scans : List CString

/-- The mount that contains the path, if it is not that of `/`. -/
def State.mountOf (s : State) (path : CString) : Option Mount :=
  Overlay.top Mount.path s.table (components path)

/-- The identifier of a mount, or zero. -/
def mountId : Option Mount → Nat
  | none => 0
  | some m => m.id

/-- `stat(2)` on a path that exists. -/
def State.device (sys : System) (s : State) (path : CString) : UInt64 :=
  match s.mountOf path with
  | none => sys.rootDev
  | some m => m.dev

/-- The mount points of a file system. -/
def pointsOf (sys : System) (table : List Mount) (dev : UInt64) : List CString :=
  (table.filter fun m => m.dev = dev).map Mount.point ++
    if dev = sys.rootDev then ["/".toList] else []

/-- UDisks lists the mount points of a file system that it knows. -/
def Announced (sys : System) (table : List Mount) (dev : UInt64) :
    Option Announcement → Prop
  | none => sys.udisks dev = false
  | some a => sys.udisks dev = true ∧ (∀ p ∈ a.mountPoints, p ∈ pointsOf sys table dev) ∧
      ∀ p ∈ pointsOf sys table dev, p ∈ a.mountPoints

instance (sys : System) (table : List Mount) (dev : UInt64) :
    (announcement : Option Announcement) → Decidable (Announced sys table dev announcement)
  | none => inferInstanceAs (Decidable (_ = _))
  | some _ => inferInstanceAs (Decidable (_ ∧ _ ∧ _))

/-! ## The monitor -/

/-- `get_dev_id`. -/
def getDevId (stat : CString → Option UInt64) (path : CString) : UInt64 :=
  (stat path).getD (-1)

/-- `access_monitor_add_mount`. A `dev_t` is not less than 0, so that a path
without a device is not refused. -/
def accessMonitorAddMount (stat : CString → Option UInt64) (entries : List CString)
    (mountPoint : CString) : List CString :=
  let slashDevId := getDevId stat "/".toList
  let mountDevId := getDevId stat mountPoint
  if mountDevId = slashDevId then entries else entries ++ [mountPoint]

/-- `mark_mount_point`. The call of `fanotify_mark` may fail on any path; the
error is logged, and the path not tried again. -/
def markMountPoint (s : State) (path : CString) (ok : Bool) : State :=
  if ok then { s with marks := Function.update s.marks (mountId (s.mountOf path)) true } else s

/-- `scan_media`: a scan of what is mounted there is started. -/
def scanMedia (s : State) (path : CString) : State := { s with scans := s.scans ++ [path] }

/-- The `mount_idle_cb` of `monitor.c`. Nothing is done about an unmount. -/
def mountIdleCb (sys : System) (s : State) (evType : MountEventType) (path : Option CString)
    (ok : Bool) : State :=
  match evType, path with
  | .mount, some path =>
    let s := if sys.autoscanRemovableMedia then scanMedia s path else s
    if sys.enableRemovableMedia then markMountPoint s path ok else s
  | _, _ => s

/-- The `mount_cb` of `mount.c`, which calls that of `monitor.c`. -/
def mountCb (sys : System) (s : State) (parameters : Option (List Variant)) (ok : Bool) :
    Option State :=
  match parameters with
  | none => some s
  | some parameters =>
    match getMountEvent parameters with
    | .ignored => some s
    | .notSet => none
    | .event evType path => some (mountIdleCb sys s evType path ok)

/-! ## Steps -/

/-- What a process, UDisks or the monitor thread does next; `ok` is how the
call of `fanotify_mark` ends, where there is one. -/
inductive Label where
  | mount (dev : UInt64) (point : CString) (announcement : Option Announcement)
  | umount (i : Nat) (announcement : Option Announcement)
  /-- a signal that is not about mount points -/
  | signal (parameters : Option (List Variant))
  /-- one round of `mark_entries` -/
  | markEntry (ok : Bool)
  /-- a signal is dispatched -/
  | dispatch (ok : Bool)

/-- Nothing that `get_mount_event` takes notice of. -/
def isOther (parameters : Option (List Variant)) : Bool :=
  parameters.all fun parameters => getMountEvent parameters = .ignored

/-- The mount point that `get_mount_event` finds. -/
def announcedPath (parameters : Option (List Variant)) : Option CString :=
  match parameters.map getMountEvent with
  | some (.event .mount path) => path
  | _ => none

/-- The path that the thread is about to mark. -/
def State.nextTarget (sys : System) (s : State) : Label → Option CString
  | .markEntry _ => s.entries.head?
  | .dispatch _ =>
    if sys.enableRemovableMedia then s.signals.head?.bind announcedPath else none
  | _ => none

/-- A file system is unmounted where nothing hides it or is mounted below it.
The thread comes to the signals when it has marked the entries. -/
def step (sys : System) (s : State) : Label → Option State
  | .mount dev point announcement =>
    let table := ⟨s.nextId, dev, point⟩ :: s.table
    if Announced sys table dev announcement then
      some { s with
        table
        nextId := s.nextId + 1
        signals := s.signals ++ (announcement.map fun a => some a.parameters).toList }
    else none
  | .umount i announcement =>
    match s.table[i]? with
    | none => none
    | some m =>
      let table := s.table.eraseIdx i
      if (∀ newer ∈ s.table.take i, ¬ newer.path <+: m.path ∧ ¬ m.path <+: newer.path) ∧
          Announced sys table m.dev announcement then
        some { s with
          table
          marks := Function.update s.marks m.id false
          signals := s.signals ++ (announcement.map fun a => some a.parameters).toList }
      else none
  | .signal parameters =>
    if isOther parameters then
      some { s with signals := s.signals ++ [parameters] }
    else none
  | .markEntry ok =>
    match s.entries with
    | [] => none
    | path :: entries => some { markMountPoint s path ok with entries }
  | .dispatch ok =>
    match s.entries, s.signals with
    | [], parameters :: signals => mountCb sys { s with signals } parameters ok
    | _, _ => none

end Armadito.OnAccess.Mounts
