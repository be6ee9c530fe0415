import Armadito.Jrpc.SchemaMarshall

/-!
# Jrpc.SchemaRoundTrip

What the macro language sends and receives. A value whose unions select no
string is marshalled, and unmarshalled to itself; a string that was stored
in a union is marshalled, but its decoder takes it for an integer.
-/

namespace Armadito.Jrpc.Schema

/-- The value is marshalled, and unmarshalled to itself, given enough fuel. -/
def RoundTrips (d : Decls) (s : String) (value : Value) : Prop :=
  ∃ j n, ∀ m ≥ n, jrpcMarshallStruct d m s value = .ok j ∧
    jrpcUnmarshallStruct d m s j = .ok value

/-! ## Objects -/

theorem mem_of_lookup {α : Type} {l : List (String × α)} {k : String} {a : α}
    (h : l.lookup k = some a) : (k, a) ∈ l := by
  obtain ⟨l₁, l₂, rfl, -⟩ := List.lookup_eq_some_iff.mp h
  exact List.mem_append_right _ List.mem_cons_self

/-- The field is found. -/
theorem orCode_of_get {obj j : Json} {name : String} {type : JsonType} {allowNull : Bool}
    (hget : jsonObjectGet (some obj) name = some j)
    (htype : jsonTypeof j = type ∨ allowNull = true ∧ j = .null) :
    orCode (jrpcUnmarshallField (some obj) name type allowNull) = .ok j := by
  rw [orCode_eq_ok, jrpcUnmarshallField, hget]
  rcases htype with rfl | ⟨rfl, rfl⟩
  · by_cases hnull : (allowNull && jsonIsNull (some j)) = true
    · exact if_pos hnull
    · simp [hnull]
  · rfl

/-! ## Fields -/

/-- A value that can be sent and is given back. -/
def sentLeaves : Leaves := { wireLeaves with unionString := False }

/-- A leaf that is asked for is given back: an integer may change its sign on
the way, as long as the last conversion brings it back. -/
structure Leaves.Travels (leaves : Leaves) : Prop where
  string : ∀ s, leaves.string s → utf8Valid s = true
  int : ∀ t n, leaves.int t n → t.cast (castInt 64 n) = n
  unionString : ¬ leaves.unionString
  unset : ¬ leaves.unset

theorem sentLeaves_travels : sentLeaves.Travels where
  string := fun _ h => h
  int := fun t n h => by rw [h.2, h.1]
  unionString := id
  unset := id

/-- The round trip, from some fuel on. -/
def RoundTripsAt (d : Decls) (n : Nat) (s : String) (value : Value) : Prop :=
  ∃ j, jsonTypeof j = .object ∧ ∀ m ≥ n, jrpcMarshallStruct d m s value = .ok j ∧
    jrpcUnmarshallStruct d m s j = .ok value

section Fields

variable {d : Decls} {leaves : Leaves} {n : Nat}

theorem enum_roundTrip (hd : d.WellFormed) {e : String} {values : List (String × Int)}
    {value : Int} (hdecl : d.enums.lookup e = some values) (hmem : value ∈ values.map Prod.snd) :
    ∃ text, jrpcMarshallEnum d e value = .ok (.string text) ∧
      jrpcUnmarshallEnum d e text = .ok (.int value) := by
  obtain ⟨p, hp, rfl, hsend⟩ := jrpcMarshallEnum_of_mem hdecl hmem
  refine ⟨p.1.toList, hsend, bind_eq_ok.mpr ⟨values, orNotCompiled_eq_ok.mpr hdecl, ?_⟩⟩
  cases hfind : values.find? fun p' => p'.1.toList = p.1.toList with
  | none => simpa using List.find?_eq_none.mp hfind p hp
  | some p' =>
    -- names are distinct: the enumerator that the text names is the one sent
    have hname : p'.1 = p.1 := by
      have := List.find?_some hfind
      exact String.toList_inj.mp (by simpa using this)
    have hsame : p' = p := List.inj_on_of_nodup_map (hd.enumNames e values hdecl)
      (List.mem_of_find?_eq_some hfind) hp hname
    rw [hsame]
    rfl

theorem array_roundTrip {s : String} {elems : List Value}
    (h : ∀ elem ∈ elems, RoundTripsAt d n s elem) :
    ∃ js, ∀ m ≥ n, elems.mapM (jrpcMarshallStruct d m s) = .ok js ∧
      js.mapM (jrpcUnmarshallStruct d m s) = .ok elems := by
  induction elems with
  | nil => exact ⟨[], fun m _ => ⟨rfl, rfl⟩⟩
  | cons elem elems ih =>
    obtain ⟨js, hjs⟩ := ih fun e he => h e (List.mem_cons_of_mem _ he)
    obtain ⟨j, -, hj⟩ := h elem List.mem_cons_self
    refine ⟨j :: js, fun m hm => ⟨?_, ?_⟩⟩
    · rw [List.mapM_cons, (hj m hm).1, (hjs m hm).1]
      rfl
    · rw [List.mapM_cons, (hj m hm).2, (hjs m hm).2]
      rfl

theorem union_roundTrip (hleaves : leaves.Travels) {u : String} {members : List UnionMember}
    {tag : Int} {c : UnionMember} {member : Value} (hdecl : d.unions.lookup u = some members)
    (hfind : members.find? (fun m => m.tagValue = tag) = some c)
    (h : MemberTyped leaves (RoundTripsAt d n) c.type member) :
    ∃ fields, ∀ m ≥ n,
      jrpcMarshallUnion d (jrpcMarshallStruct d m) u tag (.union c.name member) =
        .ok (.object fields) ∧
      jrpcUnmarshallUnion d (jrpcUnmarshallStruct d m) u tag (.object fields) =
        .ok (.union c.name member) := by
  have hget (j : Json) :
      jsonObjectGet (some (.object (jsonObjectSetNew [] c.name (some j)))) c.name = some j :=
    List.lookup_cons_self
  cases htype : c.type with
  | int t =>
    rw [htype] at h
    obtain ⟨i, rfl, hi⟩ := h
    refine ⟨jsonObjectSetNew [] c.name (some (.integer (castInt 64 i))), fun m _ => ⟨?_, ?_⟩⟩
    · rw [jrpcMarshallUnion_int hdecl hfind htype]
    · refine bind_eq_ok.mpr ⟨members, orNotCompiled_eq_ok.mpr hdecl, ?_⟩
      simp only [hfind, htype]
      exact bind_eq_ok.mpr ⟨.integer (castInt 64 i), orCode_of_get (hget _) (.inl rfl),
        congrArg (fun i => Except.ok (Value.union c.name (.int i))) (hleaves.int t i hi)⟩
  | string =>
    rw [htype] at h
    exact (hleaves.unionString h.1).elim
  | struct s =>
    rw [htype] at h
    obtain ⟨j, hobject, hj⟩ := h
    refine ⟨jsonObjectSetNew [] c.name (some j), fun m hm => ⟨?_, ?_⟩⟩
    · rw [jrpcMarshallUnion_struct hdecl hfind htype]
      exact bind_eq_ok.mpr ⟨j, (hj m hm).1, rfl⟩
    · refine bind_eq_ok.mpr ⟨members, orNotCompiled_eq_ok.mpr hdecl, ?_⟩
      simp only [hfind, htype]
      exact bind_eq_ok.mpr ⟨j, orCode_of_get (hget _) (.inl hobject),
        bind_eq_ok.mpr ⟨member, (hj m hm).2, rfl⟩⟩

/-- A field, sent from a structure that goes on after it, and found in any
object that has what was sent. -/
theorem field_roundTrip (hd : d.WellFormed) (hleaves : leaves.Travels)
    {before : List (String × Value)} (name : String) {type : FieldType} {value : Value}
    (h : FieldTyped d leaves (RoundTripsAt d n) before type value) :
    ∃ j, ∀ m ≥ n,
      (∀ rest, marshallField d (jrpcMarshallStruct d m) (before ++ rest) type value =
        .ok (some j)) ∧
      ∀ obj, jsonObjectGet (some obj) name = some j →
        unmarshallField d (jrpcUnmarshallStruct d m) obj before name type = .ok value := by
  cases type with
  | int t =>
    obtain ⟨i, rfl, hi⟩ := h
    refine ⟨.integer (castInt 64 i), fun m _ => ⟨fun rest => rfl, fun obj hget => ?_⟩⟩
    exact bind_eq_ok.mpr ⟨.integer (castInt 64 i), orCode_of_get hget (.inl rfl),
      congrArg (fun i => Except.ok (Value.int i)) (hleaves.int t i hi)⟩
  | string =>
    obtain ⟨s, rfl, hutf8⟩ := h
    refine ⟨.string s, fun m _ => ⟨fun rest => ?_, fun obj hget => ?_⟩⟩
    · exact congrArg Except.ok (if_pos (hleaves.string s hutf8))
    · exact bind_eq_ok.mpr ⟨.string s, orCode_of_get hget (.inl rfl),
        bind_eq_ok.mpr ⟨s, rfl, rfl⟩⟩
  | enum e =>
    obtain ⟨values, i, hdecl, rfl, hmem⟩ := h
    obtain ⟨text, hsend, hreceive⟩ := enum_roundTrip hd hdecl hmem
    refine ⟨.string text, fun m _ => ⟨fun rest => ?_, fun obj hget => ?_⟩⟩
    · exact bind_eq_ok.mpr ⟨_, hsend, rfl⟩
    · exact bind_eq_ok.mpr ⟨.string text, orCode_of_get hget (.inl rfl),
        bind_eq_ok.mpr ⟨text, rfl, hreceive⟩⟩
  | ptrArray s =>
    rcases h with rfl | ⟨elems, rfl, helems⟩
    · refine ⟨.null, fun m _ => ⟨fun rest => rfl, fun obj hget => ?_⟩⟩
      exact bind_eq_ok.mpr ⟨.null, orCode_of_get hget (.inr ⟨rfl, rfl⟩), rfl⟩
    · obtain ⟨js, hjs⟩ := array_roundTrip helems
      refine ⟨.array js, fun m hm => ⟨fun rest => ?_, fun obj hget => ?_⟩⟩
      · exact bind_eq_ok.mpr ⟨js, (hjs m hm).1, rfl⟩
      · exact bind_eq_ok.mpr ⟨.array js, orCode_of_get hget (.inl rfl),
          bind_eq_ok.mpr ⟨elems, (hjs m hm).2, rfl⟩⟩
  | struct s =>
    obtain ⟨j, hobject, hj⟩ := h
    refine ⟨j, fun m hm => ⟨fun rest => ?_, fun obj hget => ?_⟩⟩
    · rw [marshallField_struct]
      exact bind_eq_ok.mpr ⟨j, (hj m hm).1, rfl⟩
    · exact bind_eq_ok.mpr ⟨j, orCode_of_get hget (.inl hobject), (hj m hm).2⟩
  | union u tag =>
    obtain ⟨members, i, hdecl, htag, h⟩ := h
    cases hfind : members.find? fun m => m.tagValue = castInt 32 i with
    | none =>
      rw [hfind] at h
      exact (hleaves.unset h.1).elim
    | some c =>
      rw [hfind] at h
      obtain ⟨member, rfl, hmember⟩ := h
      obtain ⟨fields, hfields⟩ := union_roundTrip hleaves hdecl hfind hmember
      -- the tag precedes the union, so the decoder has it when it comes to the union
      have htagOf : tagOf before tag = .ok (castInt 32 i) :=
        before.append_nil ▸ tagOf_append htag []
      refine ⟨.object fields, fun m hm => ⟨fun rest => ?_, fun obj hget => ?_⟩⟩
      · exact bind_eq_ok.mpr ⟨castInt 32 i, tagOf_append htag rest,
          bind_eq_ok.mpr ⟨_, (hfields m hm).1, rfl⟩⟩
      · exact bind_eq_ok.mpr ⟨.object fields, orCode_of_get hget (.inl rfl),
          bind_eq_ok.mpr ⟨castInt 32 i, htagOf, (hfields m hm).2⟩⟩

/-- The fields of a structure. What precedes them was sent under the same
names, and all names are distinct, so nothing sent is replaced. -/
theorem fields_roundTrip (hd : d.WellFormed) (hleaves : leaves.Travels)
    {fields : List (String × FieldType)} :
    ∀ {before members : List (String × Value)} (obj : List (String × Json)),
      FieldsTyped d leaves (RoundTripsAt d n) before fields members →
      before.map Prod.fst = obj.map Prod.fst →
      (obj.map Prod.fst ++ fields.map Prod.fst).Nodup →
      ∃ entries, ∀ m ≥ n,
        marshallFields d (jrpcMarshallStruct d m) (before ++ members) fields obj =
          .ok (obj ++ entries) ∧
        unmarshallFields d (jrpcUnmarshallStruct d m) (.object (obj ++ entries)) fields before =
          .ok (before ++ members) := by
  induction fields with
  | nil =>
    intro before members obj h _ _
    cases members with
    | nil =>
      refine ⟨[], fun m _ => ⟨?_, ?_⟩⟩
      · rw [marshallFields, List.append_nil]
        rfl
      · rw [unmarshallFields, List.append_nil]
        rfl
    | cons _ _ => cases h
  | cons field fields ih =>
    intro before members obj h hnames hnodup
    obtain ⟨name, type⟩ := field
    cases members with
    | nil => cases h
    | cons member members =>
      obtain ⟨name', value⟩ := member
      obtain ⟨rfl, hfield, hrest⟩ := h
      obtain ⟨j, hj⟩ := field_roundTrip hd hleaves name hfield
      have hnew : name ∉ obj.map Prod.fst := fun hmem =>
        (List.nodup_append.mp hnodup).2.2 name hmem name List.mem_cons_self rfl
      -- the rest is sent into an object that has this field already
      obtain ⟨entries, hentries⟩ := ih (obj ++ [(name, j)]) hrest
        (by rw [List.map_append, List.map_append, hnames]; rfl)
        (by simpa using hnodup)
      simp only [List.append_assoc, List.singleton_append] at hentries
      refine ⟨(name, j) :: entries, fun m hm => ⟨?_, ?_⟩⟩
      · refine bind_eq_ok.mpr ⟨value, orNotCompiled_eq_ok.mpr ?_, ?_⟩
        · exact lookup_append_cons (hnames ▸ hnew)
        · refine bind_eq_ok.mpr ⟨some j, (hj m hm).1 _, ?_⟩
          rw [jsonObjectSetNew_new hnew]
          exact (hentries m hm).1
      · exact bind_eq_ok.mpr ⟨value, (hj m hm).2 _ (lookup_append_cons hnew), (hentries m hm).2⟩

end Fields

theorem StructTyped.roundTripsAt {d : Decls} {leaves : Leaves} (hd : d.WellFormed)
    (hleaves : leaves.Travels) {n : Nat} :
    ∀ {s : String} {value : Value}, StructTyped d leaves n s value →
      RoundTripsAt d n s value := by
  induction n with
  | zero =>
    intro s value h
    cases h
  | succ n ih =>
    intro s value h
    obtain ⟨fields, members, hdecl, rfl, hfields⟩ := h
    -- the nested structures are no deeper than `n`
    have hround : FieldsTyped d leaves (RoundTripsAt d n) [] fields members :=
      hfields.mono fun _ _ h => ih h
    obtain ⟨entries, hentries⟩ := fields_roundTrip hd hleaves [] hround rfl
      (hd.fields s fields hdecl)
    refine ⟨.object entries, rfl, fun m hm => ?_⟩
    obtain ⟨m, rfl⟩ : ∃ k, m = k + 1 := ⟨m - 1, by omega⟩
    obtain ⟨hsend, hreceive⟩ := hentries m (by omega)
    simp only [List.nil_append] at hsend hreceive
    exact ⟨bind_eq_ok.mpr ⟨fields, orNotCompiled_eq_ok.mpr hdecl,
        bind_eq_ok.mpr ⟨entries, hsend, rfl⟩⟩,
      bind_eq_ok.mpr ⟨fields, orNotCompiled_eq_ok.mpr hdecl,
        bind_eq_ok.mpr ⟨members, hreceive, rfl⟩⟩⟩

/-! ## The round trip -/

theorem RoundTripsAt.roundTrips {d : Decls} {n : Nat} {s : String} {value : Value}
    (h : RoundTripsAt d n s value) : RoundTrips d s value := by
  obtain ⟨j, -, hj⟩ := h
  exact ⟨j, n, hj⟩

/-- Nothing that was not sent comes back: the leaves of a value that
round-trips are leaves of a decoded value. -/
theorem RoundTrips.decoded {d : Decls} {s : String} {value : Value}
    (h : RoundTrips d s value) : Typed d decodedLeaves s value := by
  obtain ⟨j, n, hj⟩ := h
  exact ⟨n, jrpcUnmarshallStruct_typed (hj n (Nat.le_refl n)).2⟩

/-- **A value round-trips exactly when none of its unions has a string
selected.** -/
theorem roundTrips_iff {d : Decls} (hd : d.WellFormed) {s : String} {value : Value}
    (hv : HasType d s value) : RoundTrips d s value ↔ NoUnionString d s value := by
  constructor
  · intro h
    exact h.decoded.mono (a := decodedLeaves) (b := noStringLeaves)
      ⟨fun _ _ _ => trivial, fun _ _ _ _ => trivial, fun h _ => h, fun _ _ => trivial⟩
  · rintro ⟨m, hstring⟩
    obtain ⟨n, hv⟩ := hv
    have hsent : StructTyped d sentLeaves n s value :=
      StructTyped.combine (a := wireLeaves) (b := noStringLeaves) (c := sentLeaves)
        ⟨fun _ h _ => h, fun _ _ h _ => h, fun _ h => h, fun h _ => h⟩ hv hstring
    exact (hsent.roundTripsAt hd sentLeaves_travels).roundTrips

theorem Decls.WellFormed.of_forall {d : Decls}
    (hfields : ∀ p ∈ d.structs, (p.2.map Prod.fst).Nodup)
    (hnames : ∀ p ∈ d.enums, (p.2.map Prod.fst).Nodup) : d.WellFormed where
  fields := fun _ _ h => hfields _ (mem_of_lookup h)
  enumNames := fun _ _ h => hnames _ (mem_of_lookup h)

/-- Operands that are an integer, a string or a complex number, and a vector
of complex numbers. -/
def operandDecls : Decls where
  enums := [("op_type", [("OP_INT", 0), ("OP_STRING", 1), ("OP_CPLX", 2)])]
  structs := [("cplx", [("re", .int ⟨32, true⟩), ("im", .int ⟨32, true⟩)]),
    ("operands", [("opt", .enum "op_type"), ("op", .union "u_operand" "opt"),
      ("v_op", .ptrArray "cplx")])]
  unions := [("u_operand", [⟨"i_op", .int ⟨32, true⟩, 0⟩, ⟨"s_op", .string, 1⟩,
    ⟨"c_op", .struct "cplx", 2⟩])]

theorem operandDecls_wellFormed : operandDecls.WellFormed :=
  .of_forall (by decide) (by decide)

/-- A complex number of the test program. -/
def cplxValue (re im : Int) : Value := .struct [("re", .int re), ("im", .int im)]

theorem cplxValue_typed {leaves : Leaves} {re im : Int} (hre : leaves.int ⟨32, true⟩ re)
    (him : leaves.int ⟨32, true⟩ im) (n : Nat) :
    StructTyped operandDecls leaves (n + 1) "cplx" (cplxValue re im) :=
  ⟨_, _, rfl, rfl, rfl, ⟨re, rfl, hre⟩, rfl, ⟨im, rfl, him⟩, trivial⟩

/-- An operation on complex numbers. -/
def cplxOperands : Value :=
  .struct [("opt", .int 2), ("op", .union "c_op" (cplxValue 1 (-1))),
    ("v_op", .array [cplxValue 3 4])]

theorem cplxOperands_typed {leaves : Leaves}
    (hint : ∀ n, -1 ≤ n ∧ n ≤ 4 → leaves.int ⟨32, true⟩ n) :
    Typed operandDecls leaves "operands" cplxOperands := by
  refine ⟨2, _, _, rfl, rfl, rfl, ⟨_, 2, rfl, rfl, by decide⟩, rfl,
    ⟨_, 2, rfl, rfl, _, rfl, ?_⟩, rfl, .inr ⟨_, rfl, fun elem helem => ?_⟩, trivial⟩
  · exact cplxValue_typed (hint 1 (by decide)) (hint (-1) (by decide)) 0
  · rw [List.mem_singleton.mp helem]
    exact cplxValue_typed (hint 3 (by decide)) (hint 4 (by decide)) 0

theorem cplxOperands_roundTrips : RoundTrips operandDecls "operands" cplxOperands := by
  refine (roundTrips_iff operandDecls_wellFormed (cplxOperands_typed fun n hn => ?_)).mpr
    (cplxOperands_typed fun _ _ => trivial)
  exact ⟨IntType.cast_signed.mpr (by omega), castInt_eq_self.mpr (by omega)⟩

/-- An operation on a string. -/
def stringOperands : Value :=
  .struct [("opt", .int 1), ("op", .union "s_op" (.string (some ['2']))), ("v_op", .nullArray)]

/-- The string is sent as a string, and refused as one. -/
theorem stringOperands_not_roundTrips :
    operandDecls.WellFormed ∧ HasType operandDecls "operands" stringOperands ∧
      ¬ RoundTrips operandDecls "operands" stringOperands := by
  refine ⟨operandDecls_wellFormed, ⟨1, _, _, rfl, rfl, rfl, ⟨_, 1, rfl, rfl, by decide⟩, rfl,
    ⟨_, 1, rfl, rfl, _, rfl, trivial, _, rfl, rfl⟩, rfl, .inl rfl, trivial⟩, ?_⟩
  rintro ⟨j, n, hj⟩
  obtain ⟨hsend, hreceive⟩ := hj (n + 1) (Nat.le_succ n)
  have hsent : Except.ok j = .ok (Json.object [("opt", .string "OP_STRING".toList),
      ("op", .object [("s_op", .string ['2'])]), ("v_op", .null)]) := hsend.symm
  cases hsent
  have hmismatch : Except.error (Stop.code jrpcErrMarshallTypeMismatch) =
      Except.ok stringOperands := hreceive
  cases hmismatch

end Armadito.Jrpc.Schema
