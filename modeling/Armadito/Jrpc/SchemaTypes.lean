import Mathlib.Data.List.Forall2
import Armadito.Jrpc.Schema

/-!
# Jrpc.SchemaTypes

Which values a declared structure has, and which of them the unmarshalling
functions give back: whatever the JSON is, a decoded integer is in the range
of its type, a decoded enum is declared, and no string was stored in a union.
-/

namespace Armadito.Jrpc.Schema

/-! ## Declarations that compile -/

/-- The names of the fields of a structure are distinct, and so are the
names of an enum. -/
structure Decls.WellFormed (d : Decls) : Prop where
  fields : ∀ s fields, d.structs.lookup s = some fields → (fields.map Prod.fst).Nodup
  enumNames : ∀ e values, d.enums.lookup e = some values → (values.map Prod.fst).Nodup

/-! ## Types -/

/-- What is asked of the leaves of a value: of the strings, of the integers
of a type, and whether a union may have a string member or be unset. -/
structure Leaves where
  string : CString → Prop
  int : IntType → Int → Prop
  unionString : Prop
  unset : Prop

section Types

variable (d : Decls) (leaves : Leaves) (structTyped : String → Value → Prop)

/-- A member of a union has the type it is declared with. -/
def MemberTyped : MemberType → Value → Prop
  | .int t, value => ∃ n, value = .int n ∧ leaves.int t n
  | .string, value => leaves.unionString ∧ ∃ s, value = .string (some s) ∧ leaves.string s
  | .struct s, value => structTyped s value

/-- `before` are the fields that precede the field. -/
def FieldTyped (before : List (String × Value)) : FieldType → Value → Prop
  | .int t, value => ∃ n, value = .int n ∧ leaves.int t n
  | .string, value => ∃ s, value = .string (some s) ∧ leaves.string s
  | .enum e, value => ∃ values n, d.enums.lookup e = some values ∧ value = .int n ∧
      n ∈ values.map Prod.snd
  | .ptrArray s, value => value = .nullArray ∨
      ∃ elems, value = .array elems ∧ ∀ elem ∈ elems, structTyped s elem
  | .struct s, value => structTyped s value
  | .union u tag, value => ∃ members n, d.unions.lookup u = some members ∧
      before.lookup tag = some (.int n) ∧
      match members.find? fun m => m.tagValue = castInt 32 n with
      | some m => ∃ member, value = .union m.name member ∧
          MemberTyped leaves structTyped m.type member
      | none => leaves.unset ∧ value = .unset

/-- The fields of a structure have the declared names and types, in order. -/
def FieldsTyped (before : List (String × Value)) :
    List (String × FieldType) → List (String × Value) → Prop
  | [], [] => True
  | (name, type) :: fields, (name', value) :: members =>
    name = name' ∧ FieldTyped d leaves structTyped before type value ∧
      FieldsTyped (before ++ [(name, value)]) fields members
  | _, _ => False

end Types

/-- A value of a structure, up to a nesting depth. -/
def StructTyped (d : Decls) (leaves : Leaves) : Nat → String → Value → Prop
  | 0, _, _ => False
  | n + 1, s, value => ∃ fields members, d.structs.lookup s = some fields ∧
      value = .struct members ∧ FieldsTyped d leaves (StructTyped d leaves n) [] fields members

/-- A value of a structure. -/
def Typed (d : Decls) (leaves : Leaves) (s : String) (value : Value) : Prop :=
  ∃ n, StructTyped d leaves n s value

/-! ## What a type asks -/

section Rules
variable {d : Decls} {leaves : Leaves} {structTyped : String → Value → Prop}
  {before : List (String × Value)}

@[simp] theorem fieldTyped_int {t : IntType} {n : Int} :
    FieldTyped d leaves structTyped before (.int t) (.int n) ↔ leaves.int t n := by
  simp [FieldTyped]

@[simp] theorem fieldTyped_string {s : Option CString} :
    FieldTyped d leaves structTyped before .string (.string s) ↔
      ∃ text, s = some text ∧ leaves.string text := by
  simp [FieldTyped]

theorem fieldTyped_enum {e : String} {values : List (String × Int)}
    (hdecl : d.enums.lookup e = some values) {n : Int} :
    FieldTyped d leaves structTyped before (.enum e) (.int n) ↔ n ∈ values.map Prod.snd := by
  simp [FieldTyped, hdecl]

@[simp] theorem fieldsTyped_nil : FieldsTyped d leaves structTyped before [] [] := trivial

@[simp] theorem fieldsTyped_cons {name : String} {type : FieldType} {value : Value}
    {fields : List (String × FieldType)} {members : List (String × Value)} :
    FieldsTyped d leaves structTyped before ((name, type) :: fields) ((name, value) :: members) ↔
      FieldTyped d leaves structTyped before type value ∧
        FieldsTyped d leaves structTyped (before ++ [(name, value)]) fields members := by
  simp [FieldsTyped]

theorem fieldTyped_union {u tag : String} {members : List UnionMember} {n : Int}
    {m : UnionMember} (hdecl : d.unions.lookup u = some members)
    (htag : before.lookup tag = some (.int n))
    (hfind : members.find? (fun m => m.tagValue = castInt 32 n) = some m) {member : Value} :
    FieldTyped d leaves structTyped before (.union u tag) (.union m.name member) ↔
      MemberTyped leaves structTyped m.type member := by
  simp [FieldTyped, hdecl, htag, hfind]

theorem structTyped_succ {n : Nat} {s : String} {fields : List (String × FieldType)}
    (hdecl : d.structs.lookup s = some fields) {members : List (String × Value)} :
    StructTyped d leaves (n + 1) s (.struct members) ↔
      FieldsTyped d leaves (StructTyped d leaves n) [] fields members := by
  simp [StructTyped, hdecl]

end Rules

/-! ## Values that can be sent -/

/-- The value can be sent: its integers are within their type and within 64
bits, its strings are valid UTF-8. -/
def wireLeaves : Leaves where
  string := fun s => utf8Valid s = true
  int := fun t n => t.cast n = n ∧ castInt 64 n = n
  unionString := True
  unset := False

/-- A value of a structure that can go over the wire. -/
def HasType (d : Decls) : String → Value → Prop := Typed d wireLeaves

/-- Nothing but that no union has a string member. -/
def noStringLeaves : Leaves where
  string := fun _ => True
  int := fun _ _ => True
  unionString := False
  unset := True

/-- No union in the value has a string member selected. -/
def NoUnionString (d : Decls) : String → Value → Prop := Typed d noStringLeaves

/-! ## Integers that a conversion keeps -/

theorem castInt_eq_self {bits : Nat} {n : Int} :
    castInt (bits + 1) n = n ↔ -2 ^ bits ≤ n ∧ n < 2 ^ bits := by
  have hhalf : ((2 ^ (bits + 1) : Nat) : Int) = 2 * 2 ^ bits := by
    push_cast
    rw [pow_succ]
    omega
  have hpos : (0 : Int) < 2 ^ bits := Int.pow_pos (by decide)
  rw [castInt]
  constructor
  · intro h
    have hlow := Int.le_bmod (x := n) (m := 2 ^ (bits + 1)) (Nat.two_pow_pos _)
    have hhigh := Int.bmod_lt (x := n) (m := 2 ^ (bits + 1)) (Nat.two_pow_pos _)
    rw [h, hhalf] at hlow hhigh
    omega
  · rintro ⟨hlow, hhigh⟩
    apply Int.bmod_eq_of_le
    · rw [hhalf]
      omega
    · rw [hhalf]
      omega

theorem IntType.cast_unsigned {bits : Nat} {n : Int} :
    (IntType.mk bits false).cast n = n ↔ 0 ≤ n ∧ n < 2 ^ bits := by
  show n % 2 ^ bits = n ↔ _
  have hpos : (0 : Int) < 2 ^ bits := Int.pow_pos (by decide)
  constructor
  · intro h
    rw [← h]
    exact ⟨Int.emod_nonneg n (by omega), Int.emod_lt_of_pos n hpos⟩
  · rintro ⟨hlow, hhigh⟩
    exact Int.emod_eq_of_lt hlow hhigh

theorem IntType.cast_signed {bits : Nat} {n : Int} :
    (IntType.mk (bits + 1) true).cast n = n ↔ -2 ^ bits ≤ n ∧ n < 2 ^ bits :=
  castInt_eq_self

theorem castInt_emod (bits : Nat) (n : Int) : castInt bits n % 2 ^ bits = n % 2 ^ bits := by
  have hpow : ((2 ^ bits : Nat) : Int) = 2 ^ bits := by push_cast; rfl
  rw [castInt, ← hpow]
  exact Int.bmod_emod

/-- A value of an unsigned type survives the way through a signed type of as
many bits. -/
theorem IntType.cast_castInt {bits : Nat} {n : Int} (h : 0 ≤ n ∧ n < 2 ^ bits) :
    (IntType.mk bits false).cast (castInt bits n) = n := by
  rw [cast, if_neg (by simp), castInt_emod]
  exact Int.emod_eq_of_lt h.1 h.2

/-! ## Combining what is known of the leaves -/

/-- What two demands on the leaves make together. -/
structure Leaves.Combine (a b c : Leaves) : Prop where
  string : ∀ s, a.string s → b.string s → c.string s
  int : ∀ t n, a.int t n → b.int t n → c.int t n
  unionString : a.unionString → b.unionString → c.unionString
  unset : a.unset → b.unset → c.unset

section Combine

variable {d : Decls} {a b c : Leaves} {typedA typedB typedC : String → Value → Prop}

theorem MemberTyped.combine (hleaves : a.Combine b c)
    (htyped : ∀ s value, typedA s value → typedB s value → typedC s value)
    {type : MemberType} {value : Value} (ha : MemberTyped a typedA type value)
    (hb : MemberTyped b typedB type value) : MemberTyped c typedC type value := by
  cases type with
  | int t =>
    obtain ⟨n, rfl, hn⟩ := ha
    obtain ⟨m, heq, hm⟩ := hb
    cases heq
    exact ⟨n, rfl, hleaves.int t n hn hm⟩
  | string =>
    obtain ⟨hunion, s, rfl, hs⟩ := ha
    obtain ⟨hunion', s', heq, hs'⟩ := hb
    cases heq
    exact ⟨hleaves.unionString hunion hunion', s, rfl, hleaves.string s hs hs'⟩
  | struct s => exact htyped s value ha hb

theorem FieldTyped.combine (hleaves : a.Combine b c)
    (htyped : ∀ s value, typedA s value → typedB s value → typedC s value)
    {before : List (String × Value)} {type : FieldType} {value : Value}
    (ha : FieldTyped d a typedA before type value)
    (hb : FieldTyped d b typedB before type value) :
    FieldTyped d c typedC before type value := by
  cases type with
  | int t =>
    obtain ⟨n, rfl, hn⟩ := ha
    obtain ⟨m, heq, hm⟩ := hb
    cases heq
    exact ⟨n, rfl, hleaves.int t n hn hm⟩
  | string =>
    obtain ⟨s, rfl, hs⟩ := ha
    obtain ⟨s', heq, hs'⟩ := hb
    cases heq
    exact ⟨s, rfl, hleaves.string s hs hs'⟩
  | enum e => exact ha
  | ptrArray s =>
    rcases ha with rfl | ⟨elems, rfl, helems⟩
    · exact .inl rfl
    · rcases hb with heq | ⟨elems', heq, helems'⟩
      · cases heq
      · cases heq
        exact .inr ⟨elems, rfl, fun e he => htyped s e (helems e he) (helems' e he)⟩
  | struct s => exact htyped s value ha hb
  | union u tag =>
    obtain ⟨members, n, hdecl, htag, ha⟩ := ha
    obtain ⟨members', n', hdecl', htag', hb⟩ := hb
    cases hdecl.symm.trans hdecl'
    cases htag.symm.trans htag'
    refine ⟨members, n, hdecl, htag, ?_⟩
    cases hfind : members.find? fun m => m.tagValue = castInt 32 n with
    | none =>
      rw [hfind] at ha hb
      exact ⟨hleaves.unset ha.1 hb.1, ha.2⟩
    | some m =>
      rw [hfind] at ha hb
      obtain ⟨member, rfl, hmember⟩ := ha
      obtain ⟨member', heq, hmember'⟩ := hb
      cases heq
      exact ⟨member, rfl, hmember.combine hleaves htyped hmember'⟩

theorem FieldsTyped.combine (hleaves : a.Combine b c)
    (htyped : ∀ s value, typedA s value → typedB s value → typedC s value)
    {fields : List (String × FieldType)} :
    ∀ {before members : List (String × Value)}, FieldsTyped d a typedA before fields members →
      FieldsTyped d b typedB before fields members →
      FieldsTyped d c typedC before fields members := by
  induction fields with
  | nil =>
    intro before members ha _
    cases members with
    | nil => trivial
    | cons _ _ => exact ha
  | cons field fields ih =>
    intro before members ha hb
    cases members with
    | nil => exact ha
    | cons member members =>
      obtain ⟨hname, hfield, hrest⟩ := ha
      obtain ⟨-, hfield', hrest'⟩ := hb
      exact ⟨hname, hfield.combine hleaves htyped hfield', ih hrest hrest'⟩

/-- What is known of the nested structures may be replaced by what follows
from it. -/
theorem FieldsTyped.mono (htyped : ∀ s value, typedA s value → typedC s value)
    {fields : List (String × FieldType)} {before members : List (String × Value)}
    (h : FieldsTyped d a typedA before fields members) :
    FieldsTyped d a typedC before fields members :=
  h.combine (b := a) ⟨fun _ h _ => h, fun _ _ h _ => h, fun h _ => h, fun h _ => h⟩
    (fun s value h _ => htyped s value h) h

theorem StructTyped.combine (hleaves : a.Combine b c) {n : Nat} :
    ∀ {m : Nat} {s : String} {value : Value}, StructTyped d a n s value →
      StructTyped d b m s value → StructTyped d c n s value := by
  induction n with
  | zero =>
    intro m s value ha _
    exact ha
  | succ n ih =>
    intro m s value ha hb
    cases m with
    | zero => cases hb
    | succ m =>
      obtain ⟨fields, members, hdecl, rfl, hfields⟩ := ha
      obtain ⟨fields', members', hdecl', heq, hfields'⟩ := hb
      cases hdecl.symm.trans hdecl'
      cases heq
      exact ⟨fields, members, hdecl, rfl, hfields.combine hleaves (fun _ _ => ih) hfields'⟩

end Combine

theorem StructTyped.succ {d : Decls} {a : Leaves} {n : Nat} :
    ∀ {s : String} {value : Value}, StructTyped d a n s value →
      StructTyped d a (n + 1) s value := by
  induction n with
  | zero =>
    intro s value h
    cases h
  | succ n ih =>
    intro s value h
    obtain ⟨fields, members, hdecl, rfl, hfields⟩ := h
    exact ⟨fields, members, hdecl, rfl, hfields.mono fun _ _ h => ih h⟩

theorem Typed.mono {d : Decls} {a b : Leaves} (hleaves : a.Combine a b) {s : String}
    {value : Value} (h : Typed d a s value) : Typed d b s value := by
  obtain ⟨n, h⟩ := h
  exact ⟨n, h.combine hleaves h⟩

/-! ## What is decoded -/

/-- Of a decoded value. -/
def decodedLeaves : Leaves where
  string := fun _ => True
  int := fun t n => t.cast n = n
  unionString := False
  unset := True

theorem IntType.cast_cast (t : IntType) (n : Int) : t.cast (t.cast n) = t.cast n := by
  rw [cast]
  split
  · next hsigned =>
    rw [cast, if_pos hsigned]
    exact Int.bmod_bmod
  · next hunsigned =>
    rw [cast, if_neg hunsigned]
    exact Int.emod_emod_of_dvd n (Int.dvd_refl _)

theorem orCode_eq_ok {α : Type} {x : Except Int α} {a : α} : orCode x = .ok a ↔ x = .ok a := by
  cases x with
  | ok a' => simp [orCode]
  | error c => simp [orCode]

theorem orNotCompiled_eq_ok {α : Type} {x : Option α} {a : α} :
    orNotCompiled x = .ok a ↔ x = some a := by
  cases x with
  | some a' => simp [orNotCompiled]
  | none => simp [orNotCompiled]

theorem mapM_eq_ok {ε α β : Type} {f : α → Except ε β} {xs : List α} :
    ∀ {ys : List β}, xs.mapM f = .ok ys ↔ List.Forall₂ (fun x y => f x = .ok y) xs ys := by
  induction xs with
  | nil =>
    intro ys
    rw [List.mapM_nil, pure_eq_ok, List.forall₂_nil_left_iff, eq_comm]
  | cons x xs ih =>
    intro ys
    rw [List.mapM_cons, bind_eq_ok, List.forall₂_cons_left_iff]
    constructor
    · rintro ⟨y, hy, h⟩
      obtain ⟨ys', hys, h⟩ := bind_eq_ok.mp h
      exact ⟨y, ys', hy, ih.mp hys, (pure_eq_ok.mp h).symm⟩
    · rintro ⟨y, ys', hy, hys, rfl⟩
      exact ⟨y, hy, bind_eq_ok.mpr ⟨ys', ih.mpr hys, rfl⟩⟩

section Decoded

variable {d : Decls} {unmarshallStruct : String → Json → Except Stop Value}
  {structTyped : String → Value → Prop}

theorem jrpcUnmarshallEnum_typed {e : String} {text : CString} {value : Value}
    (h : jrpcUnmarshallEnum d e text = .ok value) :
    ∃ values n, d.enums.lookup e = some values ∧ value = .int n ∧ n ∈ values.map Prod.snd := by
  obtain ⟨values, hdecl, h⟩ := bind_eq_ok.mp h
  split at h
  · next p hfind =>
    exact ⟨values, p.2, orNotCompiled_eq_ok.mp hdecl, (pure_eq_ok.mp h).symm,
      List.mem_map.mpr ⟨p, List.mem_of_find?_eq_some hfind, rfl⟩⟩
  · cases h

/-- The decoder of a string member wants an integer, and then has no string
to copy. -/
theorem jrpcUnmarshallUnion_typed
    (hrec : ∀ s obj value, unmarshallStruct s obj = .ok value → structTyped s value)
    {u tag : String} {n : Int} {before : List (String × Value)}
    (htag : before.lookup tag = some (.int n)) {obj : Json} {value : Value}
    (h : jrpcUnmarshallUnion d unmarshallStruct u (castInt 32 n) obj = .ok value) :
    FieldTyped d decodedLeaves structTyped before (.union u tag) value := by
  obtain ⟨members, hdecl, h⟩ := bind_eq_ok.mp h
  refine ⟨members, n, orNotCompiled_eq_ok.mp hdecl, htag, ?_⟩
  cases hfind : members.find? fun m => m.tagValue = castInt 32 n with
  | none =>
    rw [hfind] at h
    exact ⟨trivial, (pure_eq_ok.mp h).symm⟩
  | some m =>
    simp only [hfind] at h
    cases htype : m.type with
    | int t =>
      rw [htype] at h
      obtain ⟨field, -, h⟩ := bind_eq_ok.mp h
      refine ⟨_, (pure_eq_ok.mp h).symm, ?_⟩
      rw [htype]
      exact ⟨_, rfl, t.cast_cast _⟩
    | string =>
      rw [htype] at h
      obtain ⟨field, hfield, h⟩ := bind_eq_ok.mp h
      obtain ⟨s, hdup, -⟩ := bind_eq_ok.mp h
      -- the field is an integer, and an integer has no string value
      obtain ⟨-, hinteger⟩ := jrpcUnmarshallField_eq_ok.mp (orCode_eq_ok.mp hfield)
      obtain ⟨i, rfl⟩ := jsonTypeof_eq_integer.mp hinteger
      cases hdup
    | struct s =>
      rw [htype] at h
      obtain ⟨field, -, h⟩ := bind_eq_ok.mp h
      obtain ⟨member, hmember, h⟩ := bind_eq_ok.mp h
      refine ⟨member, (pure_eq_ok.mp h).symm, ?_⟩
      rw [htype]
      exact hrec s field member hmember

theorem unmarshallField_typed
    (hrec : ∀ s obj value, unmarshallStruct s obj = .ok value → structTyped s value)
    {obj : Json} {before : List (String × Value)} {name : String} {type : FieldType}
    {value : Value} (h : unmarshallField d unmarshallStruct obj before name type = .ok value) :
    FieldTyped d decodedLeaves structTyped before type value := by
  cases type with
  | int t =>
    obtain ⟨field, -, h⟩ := bind_eq_ok.mp h
    exact ⟨_, (pure_eq_ok.mp h).symm, t.cast_cast _⟩
  | string =>
    obtain ⟨field, -, h⟩ := bind_eq_ok.mp h
    obtain ⟨s, -, h⟩ := bind_eq_ok.mp h
    exact ⟨s, (pure_eq_ok.mp h).symm, trivial⟩
  | enum e =>
    obtain ⟨field, -, h⟩ := bind_eq_ok.mp h
    obtain ⟨s, -, h⟩ := bind_eq_ok.mp h
    exact jrpcUnmarshallEnum_typed h
  | ptrArray s =>
    obtain ⟨field, -, h⟩ := bind_eq_ok.mp h
    rw [jrpcUnmarshallArray.eq_def] at h
    split at h
    · next elems =>
      obtain ⟨values, hvalues, h⟩ := bind_eq_ok.mp h
      refine .inr ⟨values, (pure_eq_ok.mp h).symm, fun elem helem => ?_⟩
      obtain ⟨i, hi, rfl⟩ := List.getElem_of_mem helem
      have hpairs := mapM_eq_ok.mp hvalues
      have hi' : i < elems.length := by rwa [hpairs.length_eq]
      exact hrec s _ _ (List.Forall₂.get hpairs hi' hi)
    · exact .inl (pure_eq_ok.mp h).symm
  | struct s =>
    obtain ⟨field, -, h⟩ := bind_eq_ok.mp h
    exact hrec s field value h
  | union u tag =>
    obtain ⟨field, -, h⟩ := bind_eq_ok.mp h
    obtain ⟨n, htag, h⟩ := bind_eq_ok.mp h
    rw [tagOf.eq_def] at htag
    split at htag
    · next m hlookup =>
      cases htag
      exact jrpcUnmarshallUnion_typed hrec hlookup h
    · cases htag

theorem unmarshallFields_typed
    (hrec : ∀ s obj value, unmarshallStruct s obj = .ok value → structTyped s value)
    {obj : Json} {fields : List (String × FieldType)} :
    ∀ {before members : List (String × Value)},
      unmarshallFields d unmarshallStruct obj fields before = .ok members →
      ∃ rest, members = before ++ rest ∧
        FieldsTyped d decodedLeaves structTyped before fields rest := by
  induction fields with
  | nil =>
    intro before members h
    exact ⟨[], by rw [List.append_nil]; exact (pure_eq_ok.mp h).symm, trivial⟩
  | cons field fields ih =>
    intro before members h
    obtain ⟨name, type⟩ := field
    obtain ⟨value, hvalue, h⟩ := bind_eq_ok.mp h
    obtain ⟨rest, heq, hrest⟩ := ih h
    refine ⟨(name, value) :: rest, ?_, rfl, unmarshallField_typed hrec hvalue, hrest⟩
    rw [heq, List.append_assoc]
    rfl

end Decoded

/-- **Every decoded value is a value of the structure**, whatever the JSON
is. -/
theorem jrpcUnmarshallStruct_typed {d : Decls} {n : Nat} :
    ∀ {s : String} {obj : Json} {value : Value},
      jrpcUnmarshallStruct d n s obj = .ok value → StructTyped d decodedLeaves n s value := by
  induction n with
  | zero =>
    intro s obj value h
    cases h
  | succ n ih =>
    intro s obj value h
    obtain ⟨fields, hdecl, h⟩ := bind_eq_ok.mp h
    obtain ⟨members, hmembers, h⟩ := bind_eq_ok.mp h
    have hrec : ∀ s obj value, jrpcUnmarshallStruct d n s obj = .ok value →
        StructTyped d decodedLeaves n s value := fun _ _ _ h => ih h
    obtain ⟨rest, heq, htyped⟩ := unmarshallFields_typed hrec hmembers
    rw [List.nil_append] at heq
    exact ⟨fields, members, orNotCompiled_eq_ok.mp hdecl, (pure_eq_ok.mp h).symm,
      heq ▸ htyped⟩

end Armadito.Jrpc.Schema
