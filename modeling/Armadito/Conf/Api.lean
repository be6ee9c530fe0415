import Armadito.Conf.Entries
import Armadito.Conf.Value

/-!
# Conf.Api

The configuration through its interface, `conf.c` and `confval.c`: the
functions that add and change values, and those that read them.

The loader only ever adds values without NULL (`Conf.Store`). Here a string
may be NULL, which `a6o_strdup` copies as NULL, and an integer has its
machine type. The arguments are strings of the caller: `a6o_conf_set_string`
frees the old value before it copies the new one.
-/

namespace Armadito.ConfApi

open Conf

instance (s : CString) : Decidable (NoNul s) :=
  inferInstanceAs (Decidable (Char.ofNat 0 ∉ s))

/-- A C string as a name or a value: no NUL inside. -/
abbrev Str := { s : CString // NoNul s }

/-! ## Values -/

/-- `struct a6o_conf_value`. The elements of a list are not NULL. -/
inductive A6oConfValue where
  | void
  | int (intV : Int32)
  | string (strV : Option Str)
  | list (values : List Str)
  deriving DecidableEq

/-- `enum a6o_conf_value_type`. -/
inductive A6oConfValueType where
  | void
  | int
  | string
  | list
  deriving DecidableEq

/-- `a6o_conf_value_get_type`. -/
def a6oConfValueGetType : A6oConfValue → A6oConfValueType
  | .void => .void
  | .int _ => .int
  | .string _ => .string
  | .list _ => .list

/-- `a6o_conf_value_set_int`: the field is an `int`. -/
def a6oConfValueSetInt (val : UInt32) : A6oConfValue := .int val.toInt32

/-- `a6o_conf_value_set_string`; `none` is NULL. -/
def a6oConfValueSetString (val : Option Str) : A6oConfValue := .string val

/-- `a6o_conf_value_set_list`. -/
def a6oConfValueSetList (val : List Str) : A6oConfValue := .list val

/-- A copy. The integer goes through an `unsigned int`. -/
def a6oConfValueSet (src : A6oConfValue) : A6oConfValue :=
  match src with
  | .void => .void
  | .int v => a6oConfValueSetInt v.toUInt32
  | .string v => a6oConfValueSetString v
  | .list values => a6oConfValueSetList values

theorem a6oConfValueSet_eq (src : A6oConfValue) : a6oConfValueSet src = src := by
  cases src with
  | int v =>
    rw [a6oConfValueSet, a6oConfValueSetInt, Int32.toInt32_toUInt32]
  | _ => rfl

/-! ## The interface -/

/-- An entry with a value of the interface. -/
abbrev KeyEntry := KeyEntryOf Str A6oConfValue

/-- A section of such entries. -/
abbrev SectionEntry := SectionEntryOf Str A6oConfValue

/-- The store as its callers see it. -/
abbrev A6oConf := A6oConfOf Str A6oConfValue

/-- `a6o_conf_get_type`: a key that is not there is void. -/
def a6oConfGetType (conf : A6oConf) (sect key : Str) : A6oConfValueType :=
  match keyEntryGet conf.sections sect key with
  | none => .void
  | some k => a6oConfValueGetType k.value

/-- The status, and the caller's value afterwards. -/
def a6oConfGetValue (conf : A6oConf) (sect key : Str) (value : A6oConfValue) :
    Int × A6oConfValue :=
  match keyEntryGet conf.sections sect key with
  | none => (0, value)
  | some k => (1, a6oConfValueSet k.value)

/-- `none` is NULL: no such key, a value of another type, or a NULL string. -/
def a6oConfGetString (conf : A6oConf) (sect key : Str) : Option Str :=
  match keyEntryGet conf.sections sect key with
  | some ⟨_, .string v⟩ => v
  | _ => none

/-- The list, and `*p_len` afterwards where `p_len` is not NULL. -/
def a6oConfGetList (conf : A6oConf) (sect key : Str) (pLen : Option Nat) :
    Option (List Str) × Option Nat :=
  match keyEntryGet conf.sections sect key with
  | some ⟨_, .list values⟩ => (some values, pLen.map fun _ => values.length)
  | _ => (none, pLen)

/-- What the four `a6o_conf_set_` functions do: the key must be there, with
a value of the type. -/
def setEntry (conf : A6oConf) (sect key : Str) (type : A6oConfValueType)
    (value : A6oConfValue) : Int × A6oConf :=
  match keyEntryGet conf.sections sect key with
  | none => (1, conf)
  | some k =>
    if a6oConfValueGetType k.value ≠ type then (1, conf)
    else (0, ⟨keyEntrySet conf.sections sect key value,
      keyEntrySet_distinct conf.distinct sect key value⟩)

/-- `a6o_conf_add_value`. -/
def a6oConfAddValue (conf : A6oConf) (sect key : Str) (value : A6oConfValue) : Int × A6oConf :=
  addEntry conf sect ⟨key, a6oConfValueSet value⟩

/-- `a6o_conf_add_uint`. -/
def a6oConfAddUint (conf : A6oConf) (sect key : Str) (val : UInt32) : Int × A6oConf :=
  addEntry conf sect ⟨key, a6oConfValueSetInt val⟩

/-- `a6o_conf_add_string`. -/
def a6oConfAddString (conf : A6oConf) (sect key : Str) (val : Option Str) : Int × A6oConf :=
  addEntry conf sect ⟨key, a6oConfValueSetString val⟩

/-- `a6o_conf_add_list`. -/
def a6oConfAddList (conf : A6oConf) (sect key : Str) (val : List Str) : Int × A6oConf :=
  addEntry conf sect ⟨key, a6oConfValueSetList val⟩

/-- `a6o_conf_set_value`. -/
def a6oConfSetValue (conf : A6oConf) (sect key : Str) (value : A6oConfValue) : Int × A6oConf :=
  setEntry conf sect key (a6oConfValueGetType value) (a6oConfValueSet value)

/-- `a6o_conf_set_uint`. -/
def a6oConfSetUint (conf : A6oConf) (sect key : Str) (val : UInt32) : Int × A6oConf :=
  setEntry conf sect key .int (a6oConfValueSetInt val)

/-- `a6o_conf_set_string`. -/
def a6oConfSetString (conf : A6oConf) (sect key : Str) (val : Option Str) : Int × A6oConf :=
  setEntry conf sect key .string (a6oConfValueSetString val)

/-- `a6o_conf_set_list`. -/
def a6oConfSetList (conf : A6oConf) (sect key : Str) (val : List Str) : Int × A6oConf :=
  setEntry conf sect key .list (a6oConfValueSetList val)

end Armadito.ConfApi
