import Armadito.Conf.Order
import Armadito.Conf.Registry
import Armadito.Conf.Save
import Armadito.Lib.NamedArray
import Armadito.Lib.Run

/-!
# Conf.RegistryTree

`save_conf_in_registry` and `restore_conf_from_registry` of the Windows
`config.c`, for a whole configuration. A section is written to the key of its
name below the key of the application. The registry finds names whatever
their case, and lists keys and values in an order of its own.
-/

namespace Armadito.Conf.Windows

open NamedArray Transition

/-! ## The registry -/

/-- A key: its values and the keys below it. -/
inductive RegKey where
  | node (values : List (CString × RegData)) (subkeys : List (CString × RegKey))

/-- The values of a key. -/
def RegKey.values : RegKey → List (CString × RegData)
  | .node values _ => values

/-- The keys under a key. -/
def RegKey.subkeys : RegKey → List (CString × RegKey)
  | .node _ subkeys => subkeys

/-- The longest names of keys and values. -/
def maxKeyName : Nat := 255

/-- The longest name of a value, in characters. -/
def maxValueName : Nat := 16383

/-- The name of one key. -/
structure IsKeyName (name : CString) : Prop where
  ne_nil : name ≠ []
  noBackslash : '\\' ∉ name
  length_le : name.length ≤ maxKeyName

/-- How the registry reads names: they are the same if they are in upper case,
and a backslash separates the names of a path. -/
structure RegNames where
  upcase : CString → CString
  path : CString → Option (List CString)
  path_name : ∀ name, IsKeyName name → path name = some [name]
  path_names : ∀ name names, path name = some names → ∀ n ∈ names, IsKeyName n

variable (names : RegNames)

/-- A change of the key at a path, whose keys are made where they are missing. -/
def RegKey.at (f : RegKey → RegKey) : List CString → RegKey → RegKey
  | [], key => f key
  | name :: path, .node values subkeys =>
    .node values (upsert (fun e => names.upcase e.1) (name, .node [] [])
      (fun e => (e.1, RegKey.at f path e.2)) subkeys)

/-- `RegSetKeyValueA`. -/
def regSetKeyValue (name : CString) (data : RegData) : RegKey → RegKey
  | .node values subkeys =>
    if name.length ≤ maxValueName then
      .node (upsert (fun e => names.upcase e.1) (name, data) (fun e => (e.1, data)) values) subkeys
    else .node values subkeys

/-! ## The writer -/

/-- `struct conf_reg_data`, with the registry below the key of the
application. -/
structure ConfRegData where
  hRootKey : RegKey
  hSectionKey : List CString
  prevSection : Option CString

/-- The key of a new section; `none` where it cannot be made. -/
def openSection (sect : CString) (data : ConfRegData) : Option ConfRegData :=
  if data.prevSection = some sect then some data
  else (names.path sect).map fun path =>
    { hRootKey := data.hRootKey.at names id path
      hSectionKey := path
      prevSection := some sect }

/-- `write_entry_in_registry`. -/
def writeEntry (data : ConfRegData) (e : CString × CString × A6oConfValue) : Option ConfRegData :=
  match openSection names e.1 data with
  | none => some data
  | some data =>
    (writeEntryInRegistry e.2.2).map fun written =>
      match written with
      | none => data
      | some v =>
        { data with hRootKey :=
            data.hRootKey.at names (regSetKeyValue names e.2.1 v) data.hSectionKey }

/-- `save_conf_in_registry`. -/
def saveConfInRegistry (conf : A6oConf) (root : RegKey) : Option RegKey :=
  (a6oConfApply conf.sections
    (fun sect key value data => data.bind fun data => writeEntry names data (sect, key, value))
    (some ⟨root, [], none⟩)).map ConfRegData.hRootKey

/-! ## The reader -/

mutual

/-- `registry_walker`. -/
def registryWalker (conf : A6oConf) (sect : Option CString) : RegKey → Option A6oConf
  | .node values subkeys => do
    let conf ← run (fun conf v => registryWalkerValue conf sect v.1 v.2) conf values
    registryWalkerSubkeys conf subkeys

/-- The loop of the walk over the keys under one. -/
def registryWalkerSubkeys (conf : A6oConf) : List (CString × RegKey) → Option A6oConf
  | [] => some conf
  | (name, key) :: subkeys => do
    let conf ← registryWalker conf (some name) key
    registryWalkerSubkeys conf subkeys

end

/-- `restore_conf_from_registry`. -/
def restoreConfFromRegistry (conf : A6oConf) (root : RegKey) : Option A6oConf :=
  registryWalker conf none root

mutual

/-- The values below a key, each with the name of the key that it is in. -/
def RegKey.listed (sect : Option CString) : RegKey → List (Option CString × CString × RegData)
  | .node values subkeys => values.map (fun v => (sect, v.1, v.2)) ++ listedSubkeys subkeys

/-- `RegKey.listed` for the keys of a list. -/
def listedSubkeys : List (CString × RegKey) → List (Option CString × CString × RegData)
  | [] => []
  | (name, key) :: subkeys => key.listed (some name) ++ listedSubkeys subkeys

end

/-- The same keys and values, in any order. -/
def SameListed (root root' : RegKey) : Prop := (root.listed none).Perm (root'.listed none)

end Armadito.Conf.Windows
