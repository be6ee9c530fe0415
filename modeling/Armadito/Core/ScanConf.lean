import Armadito.Core.Status

/-!
# Core.ScanConf

`scanconf.c`: which directories are exempt from scanning and which
modules apply to a MIME type. The look-ups by MIME type go through a
cache, so they return the configuration as well as the answer.
-/

namespace Armadito.Core

/-- `enum a6o_mod_status`. -/
inductive A6oModStatus where
  | ok
  | initError
  | confError
  | closeError
  deriving DecidableEq, Repr

/-- The part of `struct a6o_module` that scanning uses. `scanFun` takes the
descriptor, the path and the MIME type and returns the status and the
module's report text. Both pointers may be NULL. -/
structure A6oModule where
  name : CString
  status : A6oModStatus
  supportedMimeTypes : Option (List CString)
  scanFun : Option (Int → Option CString → CString → A6oFileStatus × Option CString)

/-- `struct a6o_scan_conf`. -/
structure A6oScanConf where
  mimeTypes : List CString
  modules : List A6oModule
  mimeTypeCache : List (CString × Option (List A6oModule))
  directoriesWhiteList : List CString

/-! ## The white list -/

/-- `strprefix` of `scanconf.c`: `/` or `\` may follow the prefix. -/
def strprefix (s pre : CString) : Bool := strprefixWith ['/', '\\'] s pre

/-- `a6o_scan_conf_is_white_listed`. -/
def a6oScanConfIsWhiteListed (c : A6oScanConf) (path : CString) : Bool :=
  c.directoriesWhiteList.any fun p => strprefix path p

/-! ## Modules for a MIME type -/

/-- `mime_type_contains`. -/
def mimeTypeContains (mimeTypes : List CString) (mimeType : CString) : Bool :=
  mimeTypes.any fun p => p = mimeType || p = "*".toList

/-- The loop of `build_module_array` over the configured modules. -/
def buildModuleArrayLoop (mimeType : CString) :
    List A6oModule → Except Fault (List A6oModule)
  | [] => .ok []
  | mod :: mods =>
    match mod.supportedMimeTypes with
    | none => .error .nullDeref
    | some table => do
      let rest ← buildModuleArrayLoop mimeType mods
      return if mimeTypeContains table mimeType then mod :: rest else rest

/-- `build_module_array`; `none` is NULL. -/
def buildModuleArray (c : A6oScanConf) (mimeType : CString) :
    Except Fault (Option (List A6oModule)) := do
  let modules ← buildModuleArrayLoop mimeType c.modules
  return if modules.isEmpty then none else some modules

/-- `g_hash_table_insert` for a type that is not in the cache. -/
def cacheInsert (c : A6oScanConf) (mimeType : CString)
    (modules : Option (List A6oModule)) : A6oScanConf :=
  { c with mimeTypeCache := (mimeType, modules) :: c.mimeTypeCache }

/-- `get_applicable_modules`, which `a6o_scan_conf_get_applicable_modules`
wraps with a log message. -/
def a6oScanConfGetApplicableModules (c : A6oScanConf) (mimeType : CString) :
    Except Fault (Option (List A6oModule) × A6oScanConf) :=
  match c.mimeTypeCache.lookup mimeType with
  | some modules => .ok (modules, c)
  | none =>
    if !mimeTypeContains c.mimeTypes mimeType then
      .ok (none, cacheInsert c mimeType none)
    else do
      let modules ← buildModuleArray c mimeType
      return (modules, cacheInsert c mimeType modules)

end Armadito.Core
