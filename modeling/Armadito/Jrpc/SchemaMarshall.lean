import Mathlib.Data.List.Nodup
import Armadito.Jrpc.SchemaTypes

/-!
# Jrpc.SchemaMarshall

When the marshalling functions succeed. A string that is not UTF-8 does not
make them fail: its field is left out.
-/

namespace Armadito.Jrpc.Schema

variable {d : Decls} {leaves : Leaves}

/-! ## What is sent -/

theorem lookup_append_cons {α : Type} {l rest : List (String × α)} {k : String} {a : α}
    (h : k ∉ l.map Prod.fst) : (l ++ (k, a) :: rest).lookup k = some a := by
  have hnone : l.lookup k = none := List.lookup_eq_none_iff.mpr fun p hp => by
    rw [bne_iff_ne]
    rintro rfl
    exact h (List.mem_map.mpr ⟨p, hp, rfl⟩)
  rw [List.lookup_append, hnone, Option.none_or, List.lookup_cons_self]

theorem jsonObjectSetNew_new {fields : List (String × Json)} {key : String}
    (h : key ∉ fields.map Prod.fst) (value : Json) :
    jsonObjectSetNew fields key (some value) = fields ++ [(key, value)] := if_neg h

/-- The name of an enumerator with the value. -/
theorem jrpcMarshallEnum_of_mem {e : String} {values : List (String × Int)} {n : Int}
    (hdecl : d.enums.lookup e = some values) (hmem : n ∈ values.map Prod.snd) :
    ∃ p ∈ values, p.2 = n ∧ jrpcMarshallEnum d e n = .ok (.string p.1.toList) := by
  obtain ⟨q, hq, rfl⟩ := List.mem_map.mp hmem
  cases hfind : values.find? fun p => p.2 = q.2 with
  | none => simpa using List.find?_eq_none.mp hfind q hq
  | some p =>
    refine ⟨p, List.mem_of_find?_eq_some hfind, by simpa using List.find?_some hfind,
      bind_eq_ok.mpr ⟨values, orNotCompiled_eq_ok.mpr hdecl, ?_⟩⟩
    simp only [hfind]
    rfl

/-- The tag precedes its union. -/
theorem tagOf_append {before : List (String × Value)} {tag : String} {n : Int}
    (h : before.lookup tag = some (.int n)) (rest : List (String × Value)) :
    tagOf (before ++ rest) tag = .ok (castInt 32 n) := by
  rw [tagOf, List.lookup_append, h, Option.some_or]

section Sent

variable {marshallStruct : String → Value → Except Stop Json}

theorem marshallField_struct (members : List (String × Value)) (s : String) (value : Value) :
    marshallField d marshallStruct members (.struct s) value =
      marshallStruct s value >>= fun j => pure (some j) := by
  cases value <;> rfl

section Union

variable {u : String} {members : List UnionMember} {tag : Int} {c : UnionMember}

/-- Nothing is sent of a union whose tag has no member. -/
theorem jrpcMarshallUnion_unset (hdecl : d.unions.lookup u = some members)
    (hfind : members.find? (fun m => m.tagValue = tag) = none) (value : Value) :
    jrpcMarshallUnion d marshallStruct u tag value = .ok (.object []) := by
  refine bind_eq_ok.mpr ⟨members, orNotCompiled_eq_ok.mpr hdecl, ?_⟩
  simp only [hfind]
  rfl

theorem jrpcMarshallUnion_int (hdecl : d.unions.lookup u = some members)
    (hfind : members.find? (fun m => m.tagValue = tag) = some c) {t : IntType}
    (htype : c.type = .int t) (n : Int) :
    jrpcMarshallUnion d marshallStruct u tag (.union c.name (.int n)) =
      .ok (.object (jsonObjectSetNew [] c.name (some (.integer (castInt 64 n))))) := by
  refine bind_eq_ok.mpr ⟨members, orNotCompiled_eq_ok.mpr hdecl, ?_⟩
  simp only [hfind, htype, ne_eq, not_true_eq_false, if_false]
  rfl

theorem jrpcMarshallUnion_string (hdecl : d.unions.lookup u = some members)
    (hfind : members.find? (fun m => m.tagValue = tag) = some c) (htype : c.type = .string)
    (s : Option CString) :
    jrpcMarshallUnion d marshallStruct u tag (.union c.name (.string s)) =
      .ok (.object (jsonObjectSetNew [] c.name (jsonString s))) := by
  refine bind_eq_ok.mpr ⟨members, orNotCompiled_eq_ok.mpr hdecl, ?_⟩
  simp only [hfind, htype, ne_eq, not_true_eq_false, if_false]
  rfl

theorem jrpcMarshallUnion_struct (hdecl : d.unions.lookup u = some members)
    (hfind : members.find? (fun m => m.tagValue = tag) = some c) {s : String}
    (htype : c.type = .struct s) (value : Value) :
    jrpcMarshallUnion d marshallStruct u tag (.union c.name value) =
      marshallStruct s value >>= fun j =>
        pure (.object (jsonObjectSetNew [] c.name (some j))) := by
  simp only [jrpcMarshallUnion, orNotCompiled_eq_ok.mpr hdecl, Bind.bind, Except.bind, hfind,
    htype, ne_eq, not_true_eq_false, if_false]

end Union

/-! ## A declared value is marshalled -/

theorem jrpcMarshallEnum_eq_ok_iff {e : String} {values : List (String × Int)} {n : Int}
    (hdecl : d.enums.lookup e = some values) :
    (∃ j, jrpcMarshallEnum d e n = .ok j) ↔ n ∈ values.map Prod.snd := by
  constructor
  · rintro ⟨j, h⟩
    obtain ⟨values', hvalues, h⟩ := bind_eq_ok.mp h
    cases hdecl.symm.trans (orNotCompiled_eq_ok.mp hvalues)
    split at h
    · next p hfind =>
      have hvalue : p.2 = n := by simpa using List.find?_some hfind
      exact List.mem_map.mpr ⟨p, List.mem_of_find?_eq_some hfind, hvalue⟩
    · cases h
  · intro hmem
    obtain ⟨p, -, -, h⟩ := jrpcMarshallEnum_of_mem hdecl hmem
    exact ⟨_, h⟩

theorem union_marshalled {u : String} {members : List UnionMember} {tag : Int}
    {c : UnionMember} {member : Value} (hdecl : d.unions.lookup u = some members)
    (hfind : members.find? (fun m => m.tagValue = tag) = some c)
    (h : MemberTyped leaves (fun s value => ∃ j, marshallStruct s value = .ok j) c.type member) :
    ∃ j, jrpcMarshallUnion d marshallStruct u tag (.union c.name member) = .ok j := by
  cases htype : c.type with
  | int t =>
    rw [htype] at h
    obtain ⟨n, rfl, -⟩ := h
    exact ⟨_, jrpcMarshallUnion_int hdecl hfind htype n⟩
  | string =>
    rw [htype] at h
    obtain ⟨-, s, rfl, -⟩ := h
    exact ⟨_, jrpcMarshallUnion_string hdecl hfind htype (some s)⟩
  | struct s =>
    rw [htype] at h
    obtain ⟨j, hj⟩ := h
    rw [jrpcMarshallUnion_struct hdecl hfind htype]
    exact ⟨_, bind_eq_ok.mpr ⟨j, hj, rfl⟩⟩

theorem array_marshalled {s : String} {elems : List Value}
    (h : ∀ elem ∈ elems, ∃ j, marshallStruct s elem = .ok j) :
    ∃ js, elems.mapM (marshallStruct s) = .ok js := by
  induction elems with
  | nil => exact ⟨[], rfl⟩
  | cons elem elems ih =>
    obtain ⟨j, hj⟩ := h elem List.mem_cons_self
    obtain ⟨js, hjs⟩ := ih fun e he => h e (List.mem_cons_of_mem _ he)
    exact ⟨j :: js, mapM_eq_ok.mpr (.cons hj (mapM_eq_ok.mp hjs))⟩

theorem field_marshalled {before : List (String × Value)} {type : FieldType} {value : Value}
    (h : FieldTyped d leaves (fun s value => ∃ j, marshallStruct s value = .ok j) before type
      value) (rest : List (String × Value)) :
    ∃ j, marshallField d marshallStruct (before ++ rest) type value = .ok j := by
  cases type with
  | int t =>
    obtain ⟨n, rfl, -⟩ := h
    exact ⟨_, rfl⟩
  | string =>
    obtain ⟨s, rfl, -⟩ := h
    exact ⟨_, rfl⟩
  | enum e =>
    obtain ⟨values, n, hdecl, rfl, hmem⟩ := h
    obtain ⟨p, -, -, hsend⟩ := jrpcMarshallEnum_of_mem hdecl hmem
    exact ⟨_, bind_eq_ok.mpr ⟨_, hsend, rfl⟩⟩
  | ptrArray s =>
    rcases h with rfl | ⟨elems, rfl, helems⟩
    · exact ⟨_, rfl⟩
    · obtain ⟨js, hjs⟩ := array_marshalled helems
      exact ⟨_, bind_eq_ok.mpr ⟨js, hjs, rfl⟩⟩
  | struct s =>
    obtain ⟨j, hj⟩ := h
    refine ⟨some j, ?_⟩
    rw [marshallField_struct]
    exact bind_eq_ok.mpr ⟨j, hj, rfl⟩
  | union u tag =>
    obtain ⟨members, n, hdecl, htag, h⟩ := h
    have hunion : ∃ j, jrpcMarshallUnion d marshallStruct u (castInt 32 n) value = .ok j := by
      cases hfind : members.find? fun m => m.tagValue = castInt 32 n with
      | none => exact ⟨.object [], jrpcMarshallUnion_unset hdecl hfind value⟩
      | some c =>
        rw [hfind] at h
        obtain ⟨member, rfl, hmember⟩ := h
        exact union_marshalled hdecl hfind hmember
    obtain ⟨j, hj⟩ := hunion
    exact ⟨_, bind_eq_ok.mpr ⟨_, tagOf_append htag rest, bind_eq_ok.mpr ⟨j, hj, rfl⟩⟩⟩

theorem fields_marshalled {fields : List (String × FieldType)} :
    ∀ {before members : List (String × Value)} (obj : List (String × Json)),
      FieldsTyped d leaves (fun s value => ∃ j, marshallStruct s value = .ok j) before fields
        members →
      (before.map Prod.fst ++ fields.map Prod.fst).Nodup →
      ∃ entries, marshallFields d marshallStruct (before ++ members) fields obj =
        .ok entries := by
  induction fields with
  | nil =>
    intro before members obj _ _
    exact ⟨obj, rfl⟩
  | cons field fields ih =>
    intro before members obj h hnodup
    obtain ⟨name, type⟩ := field
    cases members with
    | nil => cases h
    | cons member members =>
      obtain ⟨name', value⟩ := member
      obtain ⟨rfl, hfield, hrest⟩ := h
      have hnew : name ∉ before.map Prod.fst := fun hmem =>
        (List.nodup_append.mp hnodup).2.2 name hmem name List.mem_cons_self rfl
      obtain ⟨j, hj⟩ := field_marshalled hfield ((name, value) :: members)
      obtain ⟨entries, hentries⟩ := ih (jsonObjectSetNew obj name j) hrest
        (by simpa using hnodup)
      rw [List.append_assoc] at hentries
      exact ⟨entries, bind_eq_ok.mpr ⟨value, orNotCompiled_eq_ok.mpr (lookup_append_cons hnew),
        bind_eq_ok.mpr ⟨j, hj, hentries⟩⟩⟩

end Sent

/-- **A value of a structure is marshalled**, whatever its integers and the
bytes of its strings are. -/
theorem StructTyped.marshalled (hd : d.WellFormed) {n : Nat} :
    ∀ {s : String} {value : Value}, StructTyped d leaves n s value →
      ∃ j, jrpcMarshallStruct d n s value = .ok j := by
  induction n with
  | zero =>
    intro s value h
    cases h
  | succ n ih =>
    intro s value h
    obtain ⟨fields, members, hdecl, rfl, hfields⟩ := h
    have hsent : FieldsTyped d leaves
        (fun s value => ∃ j, jrpcMarshallStruct d n s value = .ok j) [] fields members :=
      hfields.mono fun _ _ h => ih h
    obtain ⟨entries, hentries⟩ := fields_marshalled [] hsent (hd.fields s fields hdecl)
    exact ⟨.object entries, bind_eq_ok.mpr ⟨fields, orNotCompiled_eq_ok.mpr hdecl,
      bind_eq_ok.mpr ⟨entries, hentries, rfl⟩⟩⟩

/-! ## What is marshalled is declared -/

theorem marshallFields_mem {marshallStruct : String → Value → Except Stop Json}
    {members : List (String × Value)} {fields : List (String × FieldType)} :
    ∀ {obj entries : List (String × Json)},
      marshallFields d marshallStruct members fields obj = .ok entries →
      ∀ field ∈ fields, ∃ value j, members.lookup field.1 = some value ∧
        marshallField d marshallStruct members field.2 value = .ok j := by
  induction fields with
  | nil =>
    intro obj entries _ field hmem
    cases hmem
  | cons first fields ih =>
    intro obj entries h field hmem
    obtain ⟨value, hvalue, h⟩ := bind_eq_ok.mp h
    obtain ⟨j, hj, h⟩ := bind_eq_ok.mp h
    rcases List.mem_cons.mp hmem with rfl | hmem
    · exact ⟨value, j, orNotCompiled_eq_ok.mp hvalue, hj⟩
    · exact ih h field hmem

/-- Every field of a structure that is marshalled is. -/
theorem jrpcMarshallStruct_mem {n : Nat} {s : String} {members : List (String × Value)}
    {fields : List (String × FieldType)} {j : Json} (hdecl : d.structs.lookup s = some fields)
    (h : jrpcMarshallStruct d (n + 1) s (.struct members) = .ok j) :
    ∀ field ∈ fields, ∃ value j, members.lookup field.1 = some value ∧
      marshallField d (jrpcMarshallStruct d n) members field.2 value = .ok j := by
  obtain ⟨fields', hfields, h⟩ := bind_eq_ok.mp h
  cases hdecl.symm.trans (orNotCompiled_eq_ok.mp hfields)
  obtain ⟨entries, hentries, -⟩ := bind_eq_ok.mp h
  exact marshallFields_mem hentries

theorem structMember_marshalled {marshallStruct : String → Value → Except Stop Json}
    {u tag : String} {unionMembers : List UnionMember} {n : Int} {name s : String}
    {tagValue : Int} {members : List (String × Value)} {member : Value} {j : Option Json}
    (hdecl : d.unions.lookup u = some unionMembers) (htag : members.lookup tag = some (.int n))
    (hfind : unionMembers.find? (fun m => m.tagValue = castInt 32 n) =
      some ⟨name, .struct s, tagValue⟩)
    (h : marshallField d marshallStruct members (.union u tag) (.union name member) = .ok j) :
    ∃ j, marshallStruct s member = .ok j := by
  obtain ⟨tag', htag', h⟩ := bind_eq_ok.mp h
  rw [tagOf, htag] at htag'
  cases htag'
  obtain ⟨json, hunion, -⟩ := bind_eq_ok.mp h
  obtain ⟨unionMembers', hmembers, hunion⟩ := bind_eq_ok.mp hunion
  cases hdecl.symm.trans (orNotCompiled_eq_ok.mp hmembers)
  simp only [hfind, ne_eq, not_true_eq_false, if_false] at hunion
  obtain ⟨j, hj, -⟩ := bind_eq_ok.mp hunion
  exact ⟨j, hj⟩

end Armadito.Jrpc.Schema
