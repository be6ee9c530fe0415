import Armadito.Base

/-!
# Os.File

`core/file.h` and the Linux `os/file.c`: the flags of a directory entry
and the list of directories that are never scanned.
-/

namespace Armadito.Os

/-- `enum os_file_flag`. -/
inductive OsFileFlag where
  | isError
  | isDirectory
  | isPlainFile
  | isLink
  | isDevice
  | isIpc
  | isUnknown
  deriving DecidableEq, Repr

/-- The value of the enumerator, one bit each. -/
def OsFileFlag.bits : OsFileFlag → Nat
  | .isError => 1 <<< 0
  | .isDirectory => 1 <<< 1
  | .isPlainFile => 1 <<< 2
  | .isLink => 1 <<< 3
  | .isDevice => 1 <<< 4
  | .isIpc => 1 <<< 5
  | .isUnknown => 1 <<< 6

/-- `flags & mask`, as a condition. -/
def OsFileFlag.test (flags mask : OsFileFlag) : Bool :=
  flags.bits &&& mask.bits != 0

/-- The flags are single bits, so a mask test is an equality. -/
@[simp] theorem OsFileFlag.test_eq (flags mask : OsFileFlag) :
    flags.test mask = decide (flags = mask) := by
  cases flags <;> cases mask <;> rfl

/-! ## Directories that are never scanned -/

/-- The directories that are never scanned. -/
def doNotScanPaths : List CString :=
  ["/proc".toList, "/run".toList, "/sys".toList]

/-- `strprefix` of `file.c`: only `/` may follow the prefix. -/
def strprefix (s pre : CString) : Bool := strprefixWith ['/'] s pre

/-- `return 1` where `realpath` gives NULL: such a path is not scanned
either. -/
def osFileDoNotScan (realpath : CString → Option CString) (path : CString) : Bool :=
  match realpath path with
  | none => true
  | some realPath => doNotScanPaths.any fun p => strprefix realPath p

end Armadito.Os
