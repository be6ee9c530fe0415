import Armadito.Base

/-!
# Jrpc.Json

JSON values as the code gets them from its JSON library, and the few
accessors it calls. A `json_t *` that may be NULL is an `Option Json`.
-/

namespace Armadito.Jrpc

/-- A real number is kept as its bit pattern: no function looks at it. -/
inductive Json where
  | null
  | bool (b : Bool)
  | integer (value : Int)
  | real (bits : UInt64)
  | string (value : CString)
  | array (elems : List Json)
  | object (fields : List (String × Json))

/-- `json_type`. -/
inductive JsonType where
  | null
  | bool
  | integer
  | real
  | string
  | array
  | object
  deriving DecidableEq, Repr

/-- `json_typeof`. -/
def jsonTypeof : Json → JsonType
  | .null => .null
  | .bool _ => .bool
  | .integer _ => .integer
  | .real _ => .real
  | .string _ => .string
  | .array _ => .array
  | .object _ => .object

/-- False on a NULL pointer. -/
def jsonIsNull : Option Json → Bool
  | some .null => true
  | _ => false

/-- NULL when the value is NULL, no object, or has no such member. -/
def jsonObjectGet : Option Json → String → Option Json
  | some (.object fields), key => fields.lookup key
  | _, _ => none

/-- 0 on anything but an integer. -/
def jsonIntegerValue : Json → Int
  | .integer value => value
  | _ => 0

/-- NULL on anything but a string. -/
def jsonStringValue : Json → Option CString
  | .string value => some value
  | _ => none

@[simp] theorem jsonIsNull_eq_true (obj : Option Json) :
    jsonIsNull obj = true ↔ obj = some .null := by
  unfold jsonIsNull
  split <;> simp_all

theorem jsonTypeof_eq_integer {j : Json} :
    jsonTypeof j = .integer ↔ ∃ value, j = .integer value := by
  cases j <;> simp [jsonTypeof]

theorem jsonTypeof_eq_string {j : Json} :
    jsonTypeof j = .string ↔ ∃ value, j = .string value := by
  cases j <;> simp [jsonTypeof]

end Armadito.Jrpc
