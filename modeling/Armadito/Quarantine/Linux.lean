import Armadito.Conf.Save
import Armadito.Lib.Ledger
import Armadito.Quarantine.Callback

/-!
# Quarantine.Linux

The quarantine module for Linux (`quarantine.c`): a malware file is renamed
to a new name in the quarantine directory, and an information file beside it
says what it was. The files of the system are a map from paths; what the
system calls return is an argument.
-/

namespace Armadito.Quarantine

open Armadito.Conf (printInt)
open Armadito.Core Ledger

/-! ## Files -/

/-- A file, with its `st_mode`, `st_uid` and `st_gid`. -/
structure FileData where
  content : CString
  mode : Nat
  uid : UInt32
  gid : UInt32
  deriving DecidableEq

/-- What is at each path. -/
abbrev Files := CString → Option FileData

/-- `chmod(2)` with mode 0: the type of the file stays. -/
def FileData.chmod0 (f : FileData) : FileData := { f with mode := f.mode / 0o10000 * 0o10000 }

/-- What `fprintf` prints about a file: `"path: %s\n"`, `"mode: 0%o\n"`,
`"uid: %d\n"` and `"gid: %d\n"`. -/
def infoText (path : CString) (f : FileData) : CString :=
  "path: ".toList ++ path ++ '\n' ::
    ("mode: 0".toList ++ Nat.toDigits 8 f.mode ++ '\n' ::
      ("uid: ".toList ++ printInt f.uid.toInt32.toInt ++ '\n' ::
        ("gid: ".toList ++ printInt f.gid.toInt32.toInt ++ ['\n'])))

/-- `strcat(newpath, ".info")`. -/
def infoPath (newpath : CString) : CString := newpath ++ ".info".toList

/-! ## The module -/

/-- `struct quarantine_data`. -/
structure QuarantineData where
  quarantineDir : Option CString
  enable : Int32

/-- What the system calls of `quarantine_do` return: `mkstemp` the six
characters and the file that it creates, `fopen` the file that it opens for
writing, the others whether they succeed. -/
structure Calls where
  mkstemp : Option (CString × FileData)
  stat : Bool
  rename : Bool
  chmod : Bool
  fopen : Option FileData

/-- `QUARANTINE_DIR/XXXXXX`. -/
def newPath (dir xxxxxx : CString) : CString := dir ++ '/' :: xxxxxx

/-- `stat(2)`. -/
def Calls.statFile (calls : Calls) (files : Files) (path : Option CString) :
    Option (CString × FileData) :=
  if calls.stat then path.bind fun p => (files p).map fun f => (p, f) else none

/-- From `rename` to the end. -/
def quarantineMove (calls : Calls) (files : Files) (path newpath : CString) (f : FileData) :
    Int × Files :=
  if calls.rename then
    let stored := if calls.chmod then f.chmod0 else f
    let ret := if calls.chmod then 0 else -2
    let files := move files path newpath stored
    match calls.fopen with
    | none => (-2, files)
    | some info =>
      (ret, put files (infoPath newpath) (some { info with content := infoText path f }))
  else (-1, files)

/-- `quarantine_do`. `strlen` of a directory that was not configured reads
NULL. -/
def quarantineDo (quData : QuarantineData) (calls : Calls) (files : Files)
    (path : Option CString) : Except Fault (Int × Files) :=
  match quData.quarantineDir with
  | none => .error .nullDeref
  | some dir =>
    match calls.mkstemp with
    | none => .ok (-1, files)
    | some (xxxxxx, temp) =>
      let newpath := newPath dir xxxxxx
      let files := put files newpath (some temp)
      match calls.statFile files path with
      | none => .ok (-2, files)
      | some (path, f) => .ok (quarantineMove calls files path newpath f)

/-- `quarantine_callback`. -/
def quarantineCallback (quData : QuarantineData) (calls : Calls) (files : Files)
    (report : A6oReport) : Except Fault (A6oReport × Files) :=
  if quData.enable = 0 then .ok (report, files)
  else if report.status = .malware then do
    let (ret, files) ← quarantineDo quData calls files report.path
    if ret ≠ -1 then
      return ({ report with action := report.action ||| a6oActionQuarantine }, files)
    else return (report, files)
  else .ok (report, files)

/-! ## What was quarantined -/

/-- A file that was moved: what it was and where it was, its new path, and
the files that are kept for it. -/
structure Entry where
  path : CString
  file : FileData
  newpath : CString
  stored : FileData
  info : Option FileData

/-- What `quarantine_do` moves, if it comes to that. -/
def moved (dir : CString) (calls : Calls) (files : Files) (path : Option CString) :
    Option Entry := do
  let (xxxxxx, temp) ← calls.mkstemp
  let newpath := newPath dir xxxxxx
  let (path, file) ← calls.statFile (put files newpath (some temp)) path
  if calls.rename then
    return {
      path, file, newpath
      stored := if calls.chmod then file.chmod0 else file
      info := calls.fopen.map fun info => { info with content := infoText path file } }
  else none

/-- What the callback moves. -/
def quarantined (quData : QuarantineData) (calls : Calls) (files : Files)
    (report : A6oReport) : Option Entry := do
  let dir ← quData.quarantineDir
  if quData.enable ≠ 0 ∧ report.status = .malware then moved dir calls files report.path else none

/-- The files that the quarantine keeps for an entry. -/
def Entry.kept (e : Entry) : List (CString × FileData) :=
  (e.newpath, e.stored) :: (e.info.map fun info => (infoPath e.newpath, info)).toList

/-! ## Runs -/

/-- The files, the records and the reports. -/
abbrev State := RunState FileData Entry

/-- A file is replaced, or a report comes. -/
abbrev Label := RunLabel FileData Calls

/-- `mkstemp` finds a name that is free: six letters and digits. -/
def Calls.Fresh (calls : Calls) (dir : CString) (files : Files) : Prop :=
  ∀ made, calls.mkstemp = some made →
    made.1.length = 6 ∧ made.1.all Char.isAlphanum = true ∧ files (newPath dir made.1) = none

instance (calls : Calls) (dir : CString) (files : Files) : Decidable (calls.Fresh dir files) :=
  inferInstanceAs (Decidable (∀ made, calls.mkstemp = some made → _))

/-- A report comes from a scan, which takes no action. A call that reads NULL
ends the process. -/
def step (quData : QuarantineData) (s : State) : Label → Option State
  | .callback report calls =>
    if report.action = a6oActionNone ∧
        ∀ dir, quData.quarantineDir = some dir → calls.Fresh dir s.files then
      match quarantineCallback quData calls s.files report with
      | .error _ => none
      | .ok (report', files) =>
        some (s.called report' files (quarantined quData calls s.files report))
    else none
  | .other path file => some { s with files := put s.files path file }

end Armadito.Quarantine
