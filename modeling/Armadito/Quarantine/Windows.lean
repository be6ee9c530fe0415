import Armadito.Conf.Value
import Armadito.Lib.LastCut
import Armadito.Lib.Ledger
import Armadito.Quarantine.Callback

/-!
# Quarantine.Windows

The quarantine module for Windows (`quarantine.c`): a malware file is moved
to the quarantine directory under its own name, followed by the second at
which it is moved, and an information file beside it is copied to the
directory of alerts. A call whose result does not fit in its buffer ends the
process: `none`. The file system folds the letters of a path: `X.EXE` and
`x.exe` are one file.
-/

namespace Armadito.Quarantine.Windows

open Armadito.Core LastCut Ledger

/-- `MAX_PATH`. -/
def maxPath : Nat := 260

/-- The table by which the file system folds the letters of a path. Digits
stay, and nothing else becomes a digit. -/
structure UpcaseTable where
  upcase : Char → Char
  upcase_digit : ∀ c, c.isDigit = true → upcase c = c
  isDigit_upcase : ∀ c, (upcase c).isDigit = true → c.isDigit = true

/-- What paths that name one file have in common. The paths are full ones,
with backslashes. -/
def UpcaseTable.key (table : UpcaseTable) (path : CString) : CString := path.map table.upcase

/-- The contents of the files, by their folded paths. -/
abbrev Files := CString → Option CString

/-! ## Bounded strings -/

/-- `strncat_s` with the size of the destination and a count. -/
def strncatS (dest : CString) (size : Nat) (source : CString) (count : Nat) : Option CString :=
  let result := dest ++ source.take count
  if result.length < size then some result else none

/-- `strnlen` and `strnlen_s` of a string with the limit `MAX_PATH`. -/
def strnlenMaxPath (s : CString) : Nat := min s.length maxPath

/-! ## Names -/

/-- `GetLocationCompletepath`, with the answer of `GetModuleFileNameA`. NULL
is `some none`. -/
def getLocationCompletepath (moduleFile : Option CString) (specialDir : CString) :
    Option (Option CString) :=
  match moduleFile.bind (cutLast '\\') with
  | none => some none
  | some (dirpath, _) => do
    let len := dirpath.length + strnlenMaxPath specialDir + 2
    let completePath ← strncatS [] len dirpath dirpath.length
    let completePath ← strncatS completePath len ['\\'] 1
    let completePath ← strncatS completePath len specialDir (strnlenMaxPath specialDir)
    return some completePath

/-- A `SYSTEMTIME` as `GetSystemTime` fills it. -/
@[ext] structure SystemTime where
  wYear : Nat
  wMonth : Nat
  wDay : Nat
  wHour : Nat
  wMinute : Nat
  wSecond : Nat
  year_le : wYear ≤ 30827
  month_le : wMonth ≤ 12
  day_le : wDay ≤ 31
  hour_le : wHour ≤ 23
  minute_le : wMinute ≤ 59
  second_le : wSecond ≤ 59
  deriving DecidableEq

/-- `%0<width>d`. -/
def zeroPadded (width n : Nat) : CString := (Nat.toDigits 10 n).leftpad width '0'

/-- What `sprintf_s` prints. -/
def SystemTime.text (st : SystemTime) : CString :=
  zeroPadded 4 st.wYear ++ (zeroPadded 2 st.wMonth ++ (zeroPadded 2 st.wDay ++
    (zeroPadded 2 st.wHour ++ (zeroPadded 2 st.wMinute ++ zeroPadded 2 st.wSecond))))

/-- `GetTimestampString`; `sprintf_s` has a buffer of 15 bytes. -/
def getTimestampString (st : SystemTime) : Option CString :=
  if st.text.length < 15 then some st.text else none

/-- `strrchr(path, '\\')`: the name with its backslash. -/
def getFilenameFromPath (path : CString) : Option CString :=
  (cutLast '\\' path).map fun cut => '\\' :: cut.2

/-- `BuildLocationFilePath`, at the time `st`. -/
def buildLocationFilePath (moduleFile : Option CString) (filepath specialDir : Option CString)
    (st : SystemTime) : Option (Option CString) :=
  match filepath, specialDir with
  | some filepath, some specialDir => do
    match ← getLocationCompletepath moduleFile specialDir, getFilenameFromPath filepath with
    | some locationDir, some filename =>
      let timestamp ← getTimestampString st
      let len := strnlenMaxPath locationDir + strnlenMaxPath filepath +
        strnlenMaxPath timestamp + 3
      let qPath ← strncatS [] len locationDir (strnlenMaxPath locationDir)
      let qPath ← strncatS qPath len filename (strnlenMaxPath filename)
      let qPath ← strncatS qPath len ['_'] 1
      let qPath ← strncatS qPath len timestamp (strnlenMaxPath timestamp)
      return some qPath
    | _, _ => return none
  | _, _ => some none

/-- The path with `.info` behind it. -/
def infoPath (path : CString) : Option CString := do
  let len := strnlenMaxPath path + strnlenMaxPath ".info".toList + 1
  let info ← strncatS [] len path (strnlenMaxPath path)
  strncatS info len ".info".toList (strnlenMaxPath ".info".toList)

/-! ## The module -/

/-- `struct quarantine_data`. -/
structure QuarantineData where
  quarantineDir : Option CString
  enable : Int32

/-- The process: its file name, the printer of the JSON library, for the
fields of an object in order, and the table of the file system. -/
structure Process where
  moduleFile : Option CString
  jsonString : List (String × CString) → Option CString
  table : UpcaseTable

/-- The clock as it is read for the path, the alert and the date, and whether
the calls of the system succeed. -/
structure Calls where
  time : SystemTime
  alertTime : SystemTime
  date : SystemTime
  pathFileExists : Bool
  createDirectory : Bool
  moveFileEx : Bool
  createFile : Bool
  writeFile : Bool
  copyFile : Bool

/-- The directory of the alerts. -/
def alertDir : CString := "Alerts".toList

/-- `CreateAvDirectory`. -/
def createAvDirectory (process : Process) (calls : Calls) (dir : Option CString) : Option Int :=
  match dir with
  | none => some (-1)
  | some dir => do
    match ← getLocationCompletepath process.moduleFile dir with
    | none => return -2
    | some _ =>
      return if calls.pathFileExists then 1 else if calls.createDirectory then 0 else -3

/-- The fields of the JSON object. `json_object_new_string` reads its
argument, which is not NULL. -/
def infoFields (date fname oldfilepath : CString) (report : A6oReport) :
    List (String × CString) :=
  [("date", date), ("fname", fname), ("path", oldfilepath),
    ("module", report.moduleName.getD "black_list".toList),
    ("desc", report.moduleReport.getD "uh_malware".toList)]

/-- `WriteQuarantineInfoFile`: what is written is cut after 2048 bytes. -/
def writeQuarantineInfoFile (process : Process) (calls : Calls) (files : Files)
    (oldfilepath quarantinePath : CString) (report : A6oReport) : Option (Int × Files) := do
  let info ← infoPath quarantinePath
  let alertTmp ← buildLocationFilePath process.moduleFile (some oldfilepath) (some alertDir)
    calls.alertTime
  -- `strnlen_s` of NULL is 0
  let alert ← infoPath (alertTmp.getD [])
  let date ← getTimestampString calls.date
  let fname ← getFilenameFromPath quarantinePath
  match process.jsonString (infoFields date fname oldfilepath report) with
  | none => return (-2, files)
  | some content =>
    if calls.createFile then
      if calls.writeFile then
        let files := put files (process.table.key info) (some (content.take 2048))
        -- `CopyFile` fails where a file exists
        if calls.copyFile ∧ files (process.table.key alert) = none then
          return (0, put files (process.table.key alert) (some (content.take 2048)))
        else return (0, files)
      else return (-3, put files (process.table.key info) (some []))
    else return (-3, files)

/-- What `MoveFileEx` moves. -/
def Calls.movedContent (calls : Calls) (table : UpcaseTable) (files : Files) (path : CString) :
    Option CString :=
  if calls.moveFileEx then files (table.key path) else none

/-- `MoveFileEx` and what follows. The last call is left out: `a6o_notify` of
`"File [%s] moved to quarantine!\n"` without the argument that it prints. -/
def moveAndRecord (process : Process) (calls : Calls) (files : Files)
    (path quarantinePath : CString) (report : A6oReport) : Option (Int × Files) :=
  match calls.movedContent process.table files path with
  | none => some (-4, files)
  | some content => do
    let files := move files (process.table.key path) (process.table.key quarantinePath) content
    let (ret, files) ← writeQuarantineInfoFile process calls files path quarantinePath report
    return (if ret ≠ 0 then -5 else 0, files)

/-- `quarantine_do`. -/
def quarantineDo (process : Process) (quData : QuarantineData) (calls : Calls) (files : Files)
    (path : Option CString) (report : A6oReport) : Option (Int × Files) :=
  match path with
  | none => some (-1, files)
  | some path => do
    match ← buildLocationFilePath process.moduleFile (some path) quData.quarantineDir
      calls.time with
    | none => return (-2, files)
    | some quarantinePath =>
      let created ← createAvDirectory process calls quData.quarantineDir
      if created < 0 then return (-3, files)
      else moveAndRecord process calls files path quarantinePath report

/-- `quarantine_callback`. -/
def quarantineCallback (process : Process) (quData : QuarantineData) (calls : Calls)
    (files : Files) (report : A6oReport) : Option (A6oReport × Files) :=
  if quData.enable = 0 then some (report, files)
  else if report.status = .malware then do
    let (ret, files) ← quarantineDo process quData calls files report.path report
    if ret = 0 then
      return ({ report with action := report.action ||| a6oActionQuarantine }, files)
    else return (report, files)
  else some (report, files)

/-! ## What was quarantined -/

/-- A file that was moved: its path, when and where it was moved, and what it
contained. -/
structure Entry where
  path : CString
  time : SystemTime
  newpath : CString
  content : CString

/-- What `quarantine_do` moves, if it comes to that. -/
def moved (process : Process) (quData : QuarantineData) (calls : Calls) (files : Files)
    (report : A6oReport) : Option Entry := do
  let path ← report.path
  let newpath ← (buildLocationFilePath process.moduleFile (some path) quData.quarantineDir
    calls.time).join
  let content ← calls.movedContent process.table files path
  if calls.pathFileExists ∨ calls.createDirectory then
    return { path, time := calls.time, newpath, content }
  else none

/-- What the callback moves. -/
def quarantined (process : Process) (quData : QuarantineData) (calls : Calls) (files : Files)
    (report : A6oReport) : Option Entry :=
  if quData.enable ≠ 0 ∧ report.status = .malware then moved process quData calls files report
  else none

/-! ## Runs -/

/-- The files, the records and the reports. -/
abbrev State := RunState CString Entry

/-- A file is replaced, or a report comes. -/
abbrev Label := RunLabel CString Calls

/-- A report comes from a scan, which takes no action. -/
def step (process : Process) (quData : QuarantineData) (s : State) : Label → Option State
  | .callback report calls =>
    if report.action = a6oActionNone then do
      let (report', files) ← quarantineCallback process quData calls s.files report
      return s.called report' files (quarantined process quData calls s.files report)
    else none
  | .other path content =>
    some { s with files := put s.files (process.table.key path) content }

end Armadito.Quarantine.Windows
