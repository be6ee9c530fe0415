import Armadito.Jrpc.Json

/-!
# Jrpc.Marshall

`error.h` and the unmarshalling half of `marshall.c`: the helpers from
which the generated decoders of structures are put together. A decoder
returns the error code, or the structure.
-/

namespace Armadito.Jrpc

/-! ## Status codes -/

def jrpcOk : Int := 0
def jrpcEof : Int := 1
def jrpcErrParseError : Int := -32700
def jrpcErrInvalidRequest : Int := -32600
def jrpcErrMethodNotFound : Int := -32601
def jrpcErrInternalError : Int := -32603
def jrpcErrMarshallFieldNotFound : Int := -32099
def jrpcErrMarshallTypeMismatch : Int := -32098
def jrpcErrInvalidResponseId : Int := -32089
def jrpcErrInvalidResponse : Int := -32088
def jrpcErrMethodError : Int := -30000

/-- `JRPC_ERR_METHOD_TO_CODE`: the low 8 bits of the error of a method. -/
def jrpcErrMethodToCode (e : Int) : Int := jrpcErrMethodError + e % 256

/-! ## Fields and structures -/

/-- `jrpc_unmarshall_field`. -/
def jrpcUnmarshallField (obj : Option Json) (name : String) (expectedJsonType : JsonType)
    (allowNull : Bool) : Except Int Json :=
  match jsonObjectGet obj name with
  | none => .error jrpcErrMarshallFieldNotFound
  | some field =>
    if allowNull && jsonIsNull (some field) then .ok field
    else if jsonTypeof field ≠ expectedJsonType then .error jrpcErrMarshallTypeMismatch
    else .ok field

/-- A conversion to a signed type of `bits` bits. -/
def castInt (bits : Nat) (value : Int) : Int := value.bmod (2 ^ bits)

/-- `JRPC_STRUCT_FIELD_INT`. -/
def structFieldInt (bits : Nat) (obj : Option Json) (name : String) : Except Int Int := do
  let field ← jrpcUnmarshallField obj name .integer false
  return castInt bits (jsonIntegerValue field)

/-- `JRPC_STRUCT_FIELD_STRING`; the field is a string by then. -/
def structFieldString (obj : Option Json) (name : String) : Except Int CString := do
  let field ← jrpcUnmarshallField obj name .string false
  return (jsonStringValue field).getD []

/-- `JRPC_JSON2STRUCT`: the JSON value null decodes to a NULL pointer. -/
def jrpcUnmarshallStructPtr {α : Type} (obj : Option Json)
    (unmarshallCb : Option Json → Except Int α) : Except Int (Option α) :=
  if jsonIsNull obj then .ok none
  else do
    let s ← unmarshallCb obj
    return some s

/-! ## When decoding succeeds -/

theorem jrpcUnmarshallField_eq_ok {obj : Option Json} {name : String} {ty : JsonType}
    {field : Json} :
    jrpcUnmarshallField obj name ty false = .ok field ↔
      jsonObjectGet obj name = some field ∧ jsonTypeof field = ty := by
  rw [jrpcUnmarshallField]
  cases jsonObjectGet obj name with
  | none => simp
  | some found =>
    by_cases h : jsonTypeof found = ty
    · simp only [Bool.false_and, Bool.false_eq_true, if_false, h, ne_eq, not_true_eq_false,
        Except.ok.injEq, Option.some.injEq]
      exact ⟨fun heq => ⟨heq, heq ▸ h⟩, fun heq => heq.1⟩
    · simp only [Bool.false_and, Bool.false_eq_true, if_false, h, ne_eq, not_false_eq_true,
        if_true, reduceCtorEq, Option.some.injEq, false_iff, not_and]
      intro heq
      exact heq ▸ h

theorem structFieldInt_eq_ok {bits : Nat} {obj : Option Json} {name : String} {n : Int} :
    structFieldInt bits obj name = .ok n ↔
      ∃ value, jsonObjectGet obj name = some (.integer value) ∧ castInt bits value = n := by
  rw [structFieldInt, bind_eq_ok]
  constructor
  · rintro ⟨field, hfield, h⟩
    obtain ⟨hget, htype⟩ := jrpcUnmarshallField_eq_ok.mp hfield
    obtain ⟨value, rfl⟩ := jsonTypeof_eq_integer.mp htype
    cases h
    exact ⟨value, hget, rfl⟩
  · rintro ⟨value, hget, h⟩
    refine ⟨.integer value, jrpcUnmarshallField_eq_ok.mpr ⟨hget, rfl⟩, ?_⟩
    rw [jsonIntegerValue, h]
    rfl

theorem structFieldString_eq_ok {obj : Option Json} {name : String} {s : CString} :
    structFieldString obj name = .ok s ↔ jsonObjectGet obj name = some (.string s) := by
  rw [structFieldString, bind_eq_ok]
  constructor
  · rintro ⟨field, hfield, h⟩
    obtain ⟨hget, htype⟩ := jrpcUnmarshallField_eq_ok.mp hfield
    obtain ⟨value, rfl⟩ := jsonTypeof_eq_string.mp htype
    cases h
    exact hget
  · intro hget
    exact ⟨.string s, jrpcUnmarshallField_eq_ok.mpr ⟨hget, rfl⟩, rfl⟩

/-! ## When decoding fails -/

/-- A member is missing or has another type. -/
def IsMarshallError (code : Int) : Prop :=
  code = jrpcErrMarshallFieldNotFound ∨ code = jrpcErrMarshallTypeMismatch

theorem IsMarshallError.ne_ok {code : Int} (h : IsMarshallError code) : code ≠ jrpcOk := by
  rcases h with rfl | rfl
  · decide
  · decide

theorem jrpcUnmarshallField_error {obj : Option Json} {name : String} {ty : JsonType}
    {allowNull : Bool} {code : Int}
    (h : jrpcUnmarshallField obj name ty allowNull = .error code) : IsMarshallError code := by
  rw [jrpcUnmarshallField] at h
  split at h
  · cases h
    exact .inl rfl
  · split at h
    · cases h
    · split at h
      · cases h
        exact .inr rfl
      · cases h

theorem structFieldInt_error {bits : Nat} {obj : Option Json} {name : String} {code : Int}
    (h : structFieldInt bits obj name = .error code) : IsMarshallError code := by
  rcases bind_eq_error.mp h with h | ⟨_, _, h⟩
  · exact jrpcUnmarshallField_error h
  · cases h

theorem structFieldString_error {obj : Option Json} {name : String} {code : Int}
    (h : structFieldString obj name = .error code) : IsMarshallError code := by
  rcases bind_eq_error.mp h with h | ⟨_, _, h⟩
  · exact jrpcUnmarshallField_error h
  · cases h

end Armadito.Jrpc
