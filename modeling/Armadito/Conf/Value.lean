import Mathlib.Data.List.TakeWhile
import Armadito.Base

/-!
# Conf.Value

`confval.c`: the typed values of the configuration. The strings of a value
are copied; a copied C string ends at its first NUL.
-/

namespace Armadito.Conf

/-- `struct a6o_conf_value` with its type tag. -/
inductive A6oConfValue where
  | void
  | int (v : Int)
  | string (v : CString)
  | list (values : List CString)
  deriving DecidableEq, Repr

/-- What `os_strdup` copies of a buffer. -/
def osStrdup (buffer : List Char) : CString := buffer.takeWhile fun c => c != Char.ofNat 0

/-- A conversion to `int`. -/
def toInt32 (n : Int) : Int := n.bmod (2 ^ 32)

/-- A conversion to `unsigned int`. -/
def toUInt32 (n : Int) : Int := n % 2 ^ 32

/-- `a6o_conf_value_set_int`: the field is an `int`. -/
def a6oConfValueSetInt (val : Int) : A6oConfValue := .int (toInt32 val)

/-- `a6o_conf_value_set`. The integer goes through an `unsigned int`. -/
def a6oConfValueSet (src : A6oConfValue) : A6oConfValue :=
  match src with
  | .void => .void
  | .int v => a6oConfValueSetInt (toUInt32 v)
  | .string v => .string (osStrdup v)
  | .list values => .list (values.map osStrdup)

/-- The range of `int`. -/
def IsInt32 (n : Int) : Prop := -2 ^ 31 ≤ n ∧ n < 2 ^ 31

/-- A string as C has it: no NUL inside. -/
def NoNul (s : CString) : Prop := Char.ofNat 0 ∉ s

/-- The terminator of a string. -/
abbrev nul : Char := Char.ofNat 0

theorem toInt32_of_isInt32 {n : Int} (h : IsInt32 n) : toInt32 n = n := by
  obtain ⟨hlow, hhigh⟩ := h
  apply Int.bmod_eq_of_le
  · omega
  · omega

/-- Through `unsigned int` and back. -/
theorem toInt32_toUInt32 (n : Int) : toInt32 (toUInt32 n) = toInt32 n := by
  rw [toInt32, toUInt32, toInt32]
  exact Int.emod_bmod n (2 ^ 32)

theorem osStrdup_of_noNul {s : CString} (h : NoNul s) : osStrdup s = s := by
  rw [osStrdup, List.takeWhile_eq_self_iff]
  intro c hc
  have : c ≠ Char.ofNat 0 := fun heq => h (heq ▸ hc)
  simpa using this

theorem osStrdup_noNul (buffer : List Char) : NoNul (osStrdup buffer) := by
  intro hmem
  have := List.mem_takeWhile_imp hmem
  simp at this

/-- A value as the program holds it: the integer fits, the strings have no
NUL. -/
def A6oConfValue.WellFormed : A6oConfValue → Prop
  | .void => True
  | .int v => IsInt32 v
  | .string v => NoNul v
  | .list values => ∀ v ∈ values, NoNul v

/-- Copying a value keeps it. -/
theorem a6oConfValueSet_of_wellFormed {v : A6oConfValue} (h : v.WellFormed) :
    a6oConfValueSet v = v := by
  cases v with
  | void => rfl
  | int n =>
    rw [a6oConfValueSet, a6oConfValueSetInt, toInt32_toUInt32, toInt32_of_isInt32 h]
  | string s => rw [a6oConfValueSet, osStrdup_of_noNul h]
  | list values =>
    have hmap : values.map osStrdup = values.map id :=
      List.map_congr_left fun s hs => osStrdup_of_noNul (h s hs)
    rw [a6oConfValueSet, hmap, List.map_id]

end Armadito.Conf
