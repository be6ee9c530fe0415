import Armadito.Jrpc.Marshall

/-!
# Jrpc.Schema

The macro language of `marshall.h`. A header declares enums, structures and
unions with it; the macros generate a marshalling and an unmarshalling
function for each of them. Here the declarations are data, and the generated
functions are the functions below, applied to a declaration.

The functions call each other in a circle when structures are recursive, so
they are given fuel.
-/

namespace Armadito.Jrpc.Schema

/-! ## Declarations -/

/-- The type of an integer field, the first argument of
`JRPC_STRUCT_FIELD_INT`. -/
structure IntType where
  bits : Nat
  signed : Bool
  deriving DecidableEq, Repr

/-- A conversion to the type. -/
def IntType.cast (t : IntType) (n : Int) : Int :=
  if t.signed then castInt t.bits n else n % 2 ^ t.bits

/-- `JRPC_STRUCT_FIELD_INT`, `_STRING`, `_ENUM`, `_PTR_ARRAY`, `_STRUCT` and
`_UNION`, the last one with the field that holds the tag. -/
inductive FieldType where
  | int (t : IntType)
  | string
  | enum (e : String)
  | ptrArray (element : String)
  | struct (s : String)
  | union (u : String) (tag : String)
  deriving DecidableEq, Repr

/-- `JRPC_UNION_FIELD_INT`, `_STRING` and `_STRUCT`. -/
inductive MemberType where
  | int (t : IntType)
  | string
  | struct (s : String)
  deriving DecidableEq, Repr

/-- A member of a union, with the value of the tag that chooses it. -/
structure UnionMember where
  name : String
  type : MemberType
  tagValue : Int
  deriving DecidableEq, Repr

/-- The declarations of a header. -/
structure Decls where
  enums : List (String × List (String × Int))
  structs : List (String × List (String × FieldType))
  unions : List (String × List UnionMember)

/-! ## Values -/

/-- The value of a field. An enum is an `int`; a union has the member that
was stored last, or none when it is all zero. -/
inductive Value where
  | int (n : Int)
  | string (s : Option CString)
  | nullArray
  | array (elems : List Value)
  | struct (members : List (String × Value))
  | union (member : String) (value : Value)
  | unset

/-- Why a generated function stops. A program in which something is not
declared, or a value is not of its type, is not compiled. -/
inductive Stop where
  | outOfFuel
  | notCompiled
  | fault (f : Fault)
  | code (c : Int)
  deriving DecidableEq, Repr

def jrpcErrMarshallInvalidEnumString : Int := -32097
def jrpcErrMarshallInvalidEnumValue : Int := -32096

/-- A name that is not declared: the header does not compile. -/
def orNotCompiled {α : Type} : Option α → Except Stop α
  | some a => .ok a
  | none => .error .notCompiled

/-- A code that the marshalling functions return. -/
def orCode {α : Type} : Except Int α → Except Stop α
  | .ok a => .ok a
  | .error c => .error (.code c)

/-! ## Strings -/

/-- A byte that continues a character. -/
def isContinuation (c : Char) : Bool := 0x80 ≤ c.toNat && c.toNat ≤ 0xBF

/-- The text is valid UTF-8: no overlong form, no surrogate, nothing above
U+10FFFF. -/
def utf8Valid : CString → Bool
  | [] => true
  | c :: rest =>
    if c.toNat < 0x80 then utf8Valid rest
    else if 0xC2 ≤ c.toNat && c.toNat ≤ 0xDF then
      match rest with
      | c1 :: rest => isContinuation c1 && utf8Valid rest
      | _ => false
    else if 0xE0 ≤ c.toNat && c.toNat ≤ 0xEF then
      match rest with
      | c1 :: c2 :: rest =>
        isContinuation c1 && isContinuation c2 &&
          (c.toNat ≠ 0xE0 || 0xA0 ≤ c1.toNat) && (c.toNat ≠ 0xED || c1.toNat ≤ 0x9F) &&
          utf8Valid rest
      | _ => false
    else if 0xF0 ≤ c.toNat && c.toNat ≤ 0xF4 then
      match rest with
      | c1 :: c2 :: c3 :: rest =>
        isContinuation c1 && isContinuation c2 && isContinuation c3 &&
          (c.toNat ≠ 0xF0 || 0x90 ≤ c1.toNat) && (c.toNat ≠ 0xF4 || c1.toNat ≤ 0x8F) &&
          utf8Valid rest
      | _ => false
    else false

/-- `json_string`: NULL on NULL and on text that is not UTF-8. -/
def jsonString : Option CString → Option Json
  | some s => if utf8Valid s then some (.string s) else none
  | none => none

/-- `json_object_set_new`: a NULL value is not set. -/
def jsonObjectSetNew (fields : List (String × Json)) (key : String) :
    Option Json → List (String × Json)
  | none => fields
  | some value =>
    if key ∈ fields.map Prod.fst then
      fields.map fun p => if p.1 = key then (key, value) else p
    else fields ++ [(key, value)]

/-! ## Marshalling -/

section Marshalling

variable (d : Decls)

/-- `jrpc_marshall_enum_E`. -/
def jrpcMarshallEnum (e : String) (value : Int) : Except Stop Json := do
  let values ← orNotCompiled (d.enums.lookup e)
  match values.find? fun p => p.2 = value with
  | some p => return .string p.1.toList
  | none => .error (.code jrpcErrMarshallInvalidEnumValue)

/-- `s->TAG`, passed as an `int`. -/
def tagOf (members : List (String × Value)) (tag : String) : Except Stop Int :=
  match members.lookup tag with
  | some (.int n) => .ok (castInt 32 n)
  | _ => .error .notCompiled

/-- `jrpc_marshall_union_U`; nothing is stored for a tag without case. -/
def jrpcMarshallUnion (marshallStruct : String → Value → Except Stop Json) (u : String)
    (tag : Int) (value : Value) : Except Stop Json := do
  let members ← orNotCompiled (d.unions.lookup u)
  match members.find? fun m => m.tagValue = tag with
  | none => return .object []
  | some m =>
    match value with
    | .union name value =>
      if name ≠ m.name then .error .notCompiled
      else
        match m.type, value with
        | .int _, .int n =>
          return .object (jsonObjectSetNew [] m.name (some (.integer (castInt 64 n))))
        | .string, .string s => return .object (jsonObjectSetNew [] m.name (jsonString s))
        | .struct s, value =>
          return .object (jsonObjectSetNew [] m.name (some (← marshallStruct s value)))
        | _, _ => .error .notCompiled
    | _ => .error .notCompiled

/-- The value that one field macro sets; `members` is the structure. -/
def marshallField (marshallStruct : String → Value → Except Stop Json)
    (members : List (String × Value)) (type : FieldType) (value : Value) :
    Except Stop (Option Json) :=
  match type, value with
  | .int _, .int n => return some (.integer (castInt 64 n))
  | .string, .string s => return jsonString s
  | .enum e, .int n => return some (← jrpcMarshallEnum d e n)
  | .ptrArray _, .nullArray => return some .null
  | .ptrArray s, .array elems => return some (.array (← elems.mapM (marshallStruct s)))
  | .struct s, value => return some (← marshallStruct s value)
  | .union u tag, value => do
    return some (← jrpcMarshallUnion d marshallStruct u (← tagOf members tag) value)
  | _, _ => .error .notCompiled

/-- The field macros of a structure, from the object that is built so far. -/
def marshallFields (marshallStruct : String → Value → Except Stop Json)
    (members : List (String × Value)) : List (String × FieldType) → List (String × Json) →
    Except Stop (List (String × Json))
  | [], obj => return obj
  | (name, type) :: fields, obj => do
    let value ← orNotCompiled (members.lookup name)
    let field ← marshallField d marshallStruct members type value
    marshallFields marshallStruct members fields (jsonObjectSetNew obj name field)

/-- `jrpc_marshall_struct_S`. -/
def jrpcMarshallStruct : Nat → String → Value → Except Stop Json
  | 0, _, _ => .error .outOfFuel
  | n + 1, s, value => do
    let fields ← orNotCompiled (d.structs.lookup s)
    match value with
    | .struct members =>
      return .object (← marshallFields d (jrpcMarshallStruct n) members fields [])
    | _ => .error .notCompiled

end Marshalling

/-! ## Unmarshalling -/

section Unmarshalling

variable (d : Decls)

/-- `jrpc_unmarshall_enum_E`, on the value of a string. -/
def jrpcUnmarshallEnum (e : String) (enumString : CString) : Except Stop Value := do
  let values ← orNotCompiled (d.enums.lookup e)
  match values.find? fun p => p.1.toList = enumString with
  | some p => return .int p.2
  | none => .error (.code jrpcErrMarshallInvalidEnumString)

/-- `strdup` of the string of a field, which is NULL when the field is no
string. -/
def strdupValue (field : Json) : Except Stop CString :=
  match jsonStringValue field with
  | some s => .ok s
  | none => .error (.fault .nullDeref)

/-- `jrpc_unmarshall_union_U`. The string member expects an integer. -/
def jrpcUnmarshallUnion (unmarshallStruct : String → Json → Except Stop Value) (u : String)
    (tag : Int) (obj : Json) : Except Stop Value := do
  let members ← orNotCompiled (d.unions.lookup u)
  match members.find? fun m => m.tagValue = tag with
  | none => return .unset
  | some m =>
    match m.type with
    | .int t =>
      let field ← orCode (jrpcUnmarshallField (some obj) m.name .integer false)
      return .union m.name (.int (t.cast (jsonIntegerValue field)))
    | .string =>
      let field ← orCode (jrpcUnmarshallField (some obj) m.name .integer false)
      return .union m.name (.string (some (← strdupValue field)))
    | .struct s =>
      let field ← orCode (jrpcUnmarshallField (some obj) m.name .object false)
      return .union m.name (← unmarshallStruct s field)

/-- `jrpc_unmarshall_array`. -/
def jrpcUnmarshallArray (unmarshallStruct : String → Json → Except Stop Value) (s : String) :
    Json → Except Stop Value
  | .array elems => return .array (← elems.mapM (unmarshallStruct s))
  | _ => return .nullArray

/-- The value that one field macro stores; `members` is what is stored so
far. -/
def unmarshallField (unmarshallStruct : String → Json → Except Stop Value) (obj : Json)
    (members : List (String × Value)) (name : String) (type : FieldType) :
    Except Stop Value := do
  match type with
  | .int t =>
    let field ← orCode (jrpcUnmarshallField (some obj) name .integer false)
    return .int (t.cast (jsonIntegerValue field))
  | .string =>
    let field ← orCode (jrpcUnmarshallField (some obj) name .string false)
    return .string (some (← strdupValue field))
  | .enum e =>
    let field ← orCode (jrpcUnmarshallField (some obj) name .string false)
    jrpcUnmarshallEnum d e (← strdupValue field)
  | .ptrArray s =>
    let field ← orCode (jrpcUnmarshallField (some obj) name .array true)
    jrpcUnmarshallArray unmarshallStruct s field
  | .struct s =>
    let field ← orCode (jrpcUnmarshallField (some obj) name .object true)
    unmarshallStruct s field
  | .union u tag =>
    let field ← orCode (jrpcUnmarshallField (some obj) name .object false)
    jrpcUnmarshallUnion d unmarshallStruct u (← tagOf members tag) field

/-- The field macros of a structure, from what is stored so far. -/
def unmarshallFields (unmarshallStruct : String → Json → Except Stop Value) (obj : Json) :
    List (String × FieldType) → List (String × Value) → Except Stop (List (String × Value))
  | [], members => return members
  | (name, type) :: fields, members => do
    let value ← unmarshallField d unmarshallStruct obj members name type
    unmarshallFields unmarshallStruct obj fields (members ++ [(name, value)])

/-- `jrpc_unmarshall_struct_S`. -/
def jrpcUnmarshallStruct : Nat → String → Json → Except Stop Value
  | 0, _, _ => .error .outOfFuel
  | n + 1, s, obj => do
    let fields ← orNotCompiled (d.structs.lookup s)
    return .struct (← unmarshallFields d (jrpcUnmarshallStruct n) obj fields [])

end Unmarshalling

end Armadito.Jrpc.Schema
