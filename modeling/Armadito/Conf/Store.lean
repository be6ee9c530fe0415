import Armadito.Conf.Entries
import Armadito.Conf.Value

/-!
# Conf.Store

`conf.c`: the configuration in memory as the loader makes it, which only
ever adds values. `Conf.Api` has the same store with all its operations.
-/

namespace Armadito.Conf

/-- An entry with a value of a file. -/
abbrev KeyEntry := KeyEntryOf CString A6oConfValue

/-- A section of such entries. -/
abbrev SectionEntry := SectionEntryOf CString A6oConfValue

/-- The store that a file is loaded into. -/
abbrev A6oConf := A6oConfOf CString A6oConfValue

/-- `a6o_conf_add_value`. -/
def a6oConfAddValue (conf : A6oConf) (sect key : CString) (value : A6oConfValue) :
    Int × A6oConf :=
  addEntry conf sect ⟨key, a6oConfValueSet value⟩

/-- `a6o_conf_add_uint`. -/
def a6oConfAddUint (conf : A6oConf) (sect key : CString) (val : Int) : Int × A6oConf :=
  addEntry conf sect ⟨key, a6oConfValueSetInt (toUInt32 val)⟩

/-- `a6o_conf_add_string`. -/
def a6oConfAddString (conf : A6oConf) (sect key val : CString) : Int × A6oConf :=
  addEntry conf sect ⟨key, .string (osStrdup val)⟩

/-- `a6o_conf_add_list`. -/
def a6oConfAddList (conf : A6oConf) (sect key : CString) (val : List CString) :
    Int × A6oConf :=
  addEntry conf sect ⟨key, .list (val.map osStrdup)⟩

end Armadito.Conf
