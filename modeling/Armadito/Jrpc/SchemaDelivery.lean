import Armadito.Jrpc.SchemaRoundTrip

/-!
# Jrpc.SchemaDelivery

A value whose strings may be any bytes: its receiver gets it as it was, or
gets an error. A string that is not UTF-8 is left out of the object, at any
depth, and the receiver misses its field; nothing arrives in part.
-/

namespace Armadito.Jrpc.Schema

/-- The receiver misses a field. -/
def missing : Stop := .code jrpcErrMarshallFieldNotFound

/-- Nothing but that the texts are UTF-8. -/
def utf8Leaves : Leaves where
  string := fun s => utf8Valid s = true
  int := fun _ _ => True
  unionString := True
  unset := True

/-- The integers travel, and no union has a string or nothing. -/
structure Leaves.IntsTravel (leaves : Leaves) : Prop where
  int : ∀ t n, leaves.int t n → t.cast (castInt 64 n) = n
  unionString : ¬ leaves.unionString
  unset : ¬ leaves.unset

/-! ## Results with enough fuel -/

/-- `a`, and then `p` holds, or the error of a missing field. -/
def OkOrMissing {α : Type} (p : Prop) (x : Nat → Except Stop α) (n : Nat) (a : α) : Prop :=
  (p ∧ ∀ m ≥ n, x m = .ok a) ∨ ∀ m ≥ n, x m = .error missing

section OkOrMissing

variable {α β : Type} {p q : Prop} {x : Nat → Except Stop α} {n : Nat} {a : α}

theorem OkOrMissing.ok (hp : p) (a : α) : OkOrMissing p (fun _ => .ok a) n a :=
  .inl ⟨hp, fun _ _ => rfl⟩

theorem OkOrMissing.mono (h : OkOrMissing p x n a) (hpq : p → q) : OkOrMissing q x n a :=
  h.imp_left fun h => ⟨hpq h.1, h.2⟩

theorem OkOrMissing.bind {f : Nat → α → Except Stop β} {b : β} (hx : OkOrMissing p x n a)
    (hf : OkOrMissing q (fun m => f m a) n b) :
    OkOrMissing (p ∧ q) (fun m => x m >>= f m) n b := by
  rcases hx with ⟨hp, hx⟩ | hx
  · rcases hf with ⟨hq, hf⟩ | hf
    · exact .inl ⟨⟨hp, hq⟩, fun m hm => bind_eq_ok.mpr ⟨a, hx m hm, hf m hm⟩⟩
    · exact .inr fun m hm => bind_eq_error.mpr (.inr ⟨a, hx m hm, hf m hm⟩)
  · exact .inr fun m hm => bind_eq_error.mpr (.inl (hx m hm))

/-- What is done with a result does not fail. -/
theorem OkOrMissing.map {f : α → β} (hx : OkOrMissing p x n a) :
    OkOrMissing p (fun m => x m >>= fun a => pure (f a)) n (f a) :=
  (hx.bind (f := fun _ a => pure (f a)) (.ok trivial (f a))).mono And.left

/-- Counting the fuel from one more. -/
theorem OkOrMissing.succ (h : OkOrMissing p (fun m => x (m + 1)) n a) :
    OkOrMissing p x (n + 1) a := by
  have hpred : ∀ {r : Except Stop α}, (∀ m ≥ n, x (m + 1) = r) → ∀ m ≥ n + 1, x m = r := by
    intro r h m hm
    obtain ⟨m, rfl⟩ : ∃ k, m = k + 1 := ⟨m - 1, by omega⟩
    exact h m (by omega)
  rcases h with ⟨hp, h⟩ | h
  · exact .inl ⟨hp, hpred h⟩
  · exact .inr (hpred h)

end OkOrMissing

/-- One object is sent. Its receiver decodes the value, all of whose texts
are UTF-8 then, or misses a field. -/
def DeliveredAt (d : Decls) (n : Nat) (s : String) (value : Value) : Prop :=
  ∃ j, jsonTypeof j = .object ∧ (∀ m ≥ n, jrpcMarshallStruct d m s value = .ok j) ∧
    OkOrMissing (StructTyped d utf8Leaves n s value)
      (fun m => jrpcUnmarshallStruct d m s j) n value

/-! ## Fields -/

section Fields

variable {d : Decls} {leaves : Leaves} {n : Nat}

/-- The elements are decoded in order, up to the first that is refused. -/
theorem array_delivered {s : String} {elems : List Value}
    (h : ∀ elem ∈ elems, DeliveredAt d n s elem) :
    ∃ js, (∀ m ≥ n, elems.mapM (jrpcMarshallStruct d m s) = .ok js) ∧
      OkOrMissing (∀ elem ∈ elems, StructTyped d utf8Leaves n s elem)
        (fun m => js.mapM (jrpcUnmarshallStruct d m s)) n elems := by
  induction elems with
  | nil => exact ⟨[], fun m _ => rfl, .ok (by simp) []⟩
  | cons elem elems ih =>
    obtain ⟨j, -, hsend, hreceive⟩ := h elem List.mem_cons_self
    obtain ⟨js, hsends, hreceives⟩ := ih fun e he => h e (List.mem_cons_of_mem _ he)
    refine ⟨j :: js, fun m hm => ?_, ?_⟩
    · rw [List.mapM_cons, hsend m hm, hsends m hm]
      rfl
    · simp only [List.mapM_cons]
      exact (hreceive.bind hreceives.map).mono List.forall_mem_cons.mpr

/-- A union is sent as an object with the member that is selected. -/
theorem union_delivered (hleaves : leaves.IntsTravel) {u : String} {members : List UnionMember}
    {tag : Int} {c : UnionMember} {member : Value} (hdecl : d.unions.lookup u = some members)
    (hfind : members.find? (fun m => m.tagValue = tag) = some c)
    (h : MemberTyped leaves (DeliveredAt d n) c.type member) :
    ∃ fields, (∀ m ≥ n, jrpcMarshallUnion d (jrpcMarshallStruct d m) u tag
        (.union c.name member) = .ok (.object fields)) ∧
      OkOrMissing (MemberTyped utf8Leaves (StructTyped d utf8Leaves n) c.type member)
        (fun m => jrpcUnmarshallUnion d (jrpcUnmarshallStruct d m) u tag (.object fields)) n
        (.union c.name member) := by
  have hget (j : Json) :
      jsonObjectGet (some (.object (jsonObjectSetNew [] c.name (some j)))) c.name = some j :=
    List.lookup_cons_self
  cases htype : c.type with
  | int t =>
    rw [htype] at h
    obtain ⟨i, rfl, hi⟩ := h
    refine ⟨_, fun m _ => jrpcMarshallUnion_int hdecl hfind htype i,
      .inl ⟨⟨i, rfl, trivial⟩, fun m _ => ?_⟩⟩
    refine bind_eq_ok.mpr ⟨members, orNotCompiled_eq_ok.mpr hdecl, ?_⟩
    simp only [hfind, htype]
    exact bind_eq_ok.mpr ⟨.integer (castInt 64 i), orCode_of_get (hget _) (.inl rfl),
      congrArg (fun i => Except.ok (Value.union c.name (.int i))) (hleaves.int t i hi)⟩
  | string =>
    rw [htype] at h
    exact (hleaves.unionString h.1).elim
  | struct s =>
    rw [htype] at h
    obtain ⟨j, hobject, hsend, hreceive⟩ := h
    refine ⟨jsonObjectSetNew [] c.name (some j), fun m hm => ?_, ?_⟩
    · rw [jrpcMarshallUnion_struct hdecl hfind htype]
      exact bind_eq_ok.mpr ⟨j, hsend m hm, rfl⟩
    · have hunmarshall : ∀ m, jrpcUnmarshallUnion d (jrpcUnmarshallStruct d m) u tag
          (.object (jsonObjectSetNew [] c.name (some j)))
          = jrpcUnmarshallStruct d m s j >>= fun v => pure (.union c.name v) := by
        intro m
        simp only [jrpcUnmarshallUnion, orNotCompiled_eq_ok.mpr hdecl, Bind.bind, Except.bind,
          hfind, htype]
        rw [orCode_of_get (hget j) (.inl hobject)]
      simp only [hunmarshall]
      exact hreceive.map

/-- A field is sent, or left out. Who finds what was sent decodes the field
or misses something in it; who finds nothing misses the field. -/
theorem field_delivered (hd : d.WellFormed) (hleaves : leaves.IntsTravel)
    {before : List (String × Value)} (name : String) {type : FieldType} {value : Value}
    (h : FieldTyped d leaves (DeliveredAt d n) before type value) :
    ∃ field, (∀ m ≥ n, ∀ rest,
        marshallField d (jrpcMarshallStruct d m) (before ++ rest) type value = .ok field) ∧
      ∀ obj, jsonObjectGet (some obj) name = field →
        OkOrMissing (FieldTyped d utf8Leaves (StructTyped d utf8Leaves n) before type value)
          (fun m => unmarshallField d (jrpcUnmarshallStruct d m) obj before name type) n
          value := by
  cases type with
  | int t =>
    obtain ⟨i, rfl, hi⟩ := h
    refine ⟨some (.integer (castInt 64 i)), fun m _ rest => rfl,
      fun obj hget => .inl ⟨⟨i, rfl, trivial⟩, fun m _ => ?_⟩⟩
    exact bind_eq_ok.mpr ⟨.integer (castInt 64 i), orCode_of_get hget (.inl rfl),
      congrArg (fun i => Except.ok (Value.int i)) (hleaves.int t i hi)⟩
  | string =>
    obtain ⟨s, rfl, -⟩ := h
    refine ⟨jsonString (some s), fun m _ rest => rfl, fun obj hget => ?_⟩
    rw [jsonString] at hget
    split at hget
    · next hutf8 =>
      refine .inl ⟨⟨s, rfl, hutf8⟩, fun m _ => ?_⟩
      exact bind_eq_ok.mpr ⟨.string s, orCode_of_get hget (.inl rfl),
        bind_eq_ok.mpr ⟨s, rfl, rfl⟩⟩
    · refine .inr fun m _ => bind_eq_error.mpr (.inl ?_)
      rw [jrpcUnmarshallField, hget]
      rfl
  | enum e =>
    obtain ⟨values, i, hdecl, rfl, hmem⟩ := h
    obtain ⟨text, hsend, hreceive⟩ := enum_roundTrip hd hdecl hmem
    refine ⟨some (.string text), fun m _ rest => bind_eq_ok.mpr ⟨_, hsend, rfl⟩,
      fun obj hget => .inl ⟨⟨values, i, hdecl, rfl, hmem⟩, fun m _ => ?_⟩⟩
    exact bind_eq_ok.mpr ⟨.string text, orCode_of_get hget (.inl rfl),
      bind_eq_ok.mpr ⟨text, rfl, hreceive⟩⟩
  | ptrArray s =>
    rcases h with rfl | ⟨elems, rfl, helems⟩
    · refine ⟨some .null, fun m _ rest => rfl, fun obj hget => .inl ⟨.inl rfl, fun m _ => ?_⟩⟩
      exact bind_eq_ok.mpr ⟨.null, orCode_of_get hget (.inr ⟨rfl, rfl⟩), rfl⟩
    · obtain ⟨js, hsend, hreceive⟩ := array_delivered helems
      refine ⟨some (.array js), fun m hm rest => bind_eq_ok.mpr ⟨js, hsend m hm, rfl⟩,
        fun obj hget => ?_⟩
      have hfield : orCode (jrpcUnmarshallField (some obj) name .array true) = .ok (.array js) :=
        orCode_of_get hget (.inl rfl)
      simp only [unmarshallField, hfield]
      exact hreceive.map.mono fun helems => .inr ⟨elems, rfl, helems⟩
  | struct s =>
    obtain ⟨j, hobject, hsend, hreceive⟩ := h
    refine ⟨some j, fun m hm rest => ?_, fun obj hget => ?_⟩
    · rw [marshallField_struct]
      exact bind_eq_ok.mpr ⟨j, hsend m hm, rfl⟩
    · have hfield : orCode (jrpcUnmarshallField (some obj) name .object true) = .ok j :=
        orCode_of_get hget (.inl hobject)
      simp only [unmarshallField, hfield]
      exact hreceive
  | union u tag =>
    obtain ⟨members, i, hdecl, htag, h⟩ := h
    cases hfind : members.find? fun m => m.tagValue = castInt 32 i with
    | none =>
      rw [hfind] at h
      exact (hleaves.unset h.1).elim
    | some c =>
      rw [hfind] at h
      obtain ⟨member, rfl, hmember⟩ := h
      obtain ⟨fields, hsend, hreceive⟩ := union_delivered hleaves hdecl hfind hmember
      refine ⟨some (.object fields), fun m hm rest => ?_, fun obj hget => ?_⟩
      · exact bind_eq_ok.mpr ⟨castInt 32 i, tagOf_append htag rest,
          bind_eq_ok.mpr ⟨_, hsend m hm, rfl⟩⟩
      · have hfield : orCode (jrpcUnmarshallField (some obj) name .object false)
            = .ok (.object fields) := orCode_of_get hget (.inl rfl)
        have htagOf : tagOf before tag = .ok (castInt 32 i) :=
          before.append_nil ▸ tagOf_append htag []
        simp only [unmarshallField, hfield, htagOf]
        refine hreceive.mono fun hmember => ⟨members, i, hdecl, htag, ?_⟩
        rw [hfind]
        exact ⟨member, rfl, hmember⟩

/-- The fields of a structure: the object grows by fields of these names, and
its receiver decodes them or misses one. -/
theorem fields_delivered (hd : d.WellFormed) (hleaves : leaves.IntsTravel)
    {fields : List (String × FieldType)} :
    ∀ {before members : List (String × Value)} (obj : List (String × Json)),
      FieldsTyped d leaves (DeliveredAt d n) before fields members →
      (before.map Prod.fst ++ fields.map Prod.fst).Nodup →
      (obj.map Prod.fst ++ fields.map Prod.fst).Nodup →
      ∃ entries, entries.map Prod.fst ⊆ fields.map Prod.fst ∧
        (∀ m ≥ n, marshallFields d (jrpcMarshallStruct d m) (before ++ members) fields obj
          = .ok (obj ++ entries)) ∧
        OkOrMissing (FieldsTyped d utf8Leaves (StructTyped d utf8Leaves n) before fields members)
          (fun m => unmarshallFields d (jrpcUnmarshallStruct d m) (.object (obj ++ entries)) fields
            before) n (before ++ members) := by
  induction fields with
  | nil =>
    intro before members obj h _ _
    cases members with
    | nil =>
      refine ⟨[], List.Subset.refl _, fun m _ => ?_, .inl ⟨trivial, fun m _ => ?_⟩⟩
      · rw [marshallFields, List.append_nil]
        rfl
      · show unmarshallFields d _ _ [] before = _
        rw [unmarshallFields, List.append_nil]
        rfl
    | cons _ _ => cases h
  | cons field fields ih =>
    intro before members obj h hbefore hobj
    obtain ⟨name, type⟩ := field
    cases members with
    | nil => cases h
    | cons member members =>
      obtain ⟨name', value⟩ := member
      obtain ⟨rfl, hfield, hrest⟩ := h
      obtain ⟨sent, hsend, hreceive⟩ := field_delivered hd hleaves name hfield
      have hnewBefore : name ∉ before.map Prod.fst := fun hmem =>
        (List.nodup_append.mp hbefore).2.2 name hmem name List.mem_cons_self rfl
      have hnewObj : name ∉ obj.map Prod.fst := fun hmem =>
        (List.nodup_append.mp hobj).2.2 name hmem name List.mem_cons_self rfl
      -- the object with this field, or without it
      obtain ⟨own, hown, hset⟩ : ∃ own : List (String × Json),
          (own = [] ∧ sent = none ∨ ∃ j, own = [(name, j)] ∧ sent = some j) ∧
          jsonObjectSetNew obj name sent = obj ++ own := by
        cases sent with
        | none => exact ⟨[], .inl ⟨rfl, rfl⟩, (List.append_nil obj).symm⟩
        | some j => exact ⟨[(name, j)], .inr ⟨j, rfl, rfl⟩, jsonObjectSetNew_new hnewObj j⟩
      have hnames : (obj ++ own).map Prod.fst ++ fields.map Prod.fst |>.Nodup := by
        rcases hown with ⟨rfl, -⟩ | ⟨j, rfl, -⟩
        · rw [List.append_nil]
          rw [List.map_cons] at hobj
          exact hobj.sublist (List.Sublist.append_left (List.sublist_cons_self _ _) _)
        · simpa using hobj
      obtain ⟨entries, hentries, hsends, hreceives⟩ := ih (obj ++ own) hrest
        (by simpa using hbefore) hnames
      have hnewEntries : name ∉ entries.map Prod.fst := fun hmem =>
        (List.nodup_cons.mp (List.nodup_append.mp hobj).2.1).1 (hentries hmem)
      have hget : jsonObjectGet (some (.object (obj ++ own ++ entries))) name = sent := by
        rcases hown with ⟨rfl, rfl⟩ | ⟨j, rfl, rfl⟩
        · refine List.lookup_eq_none_iff.mpr fun p hp => ?_
          rw [bne_iff_ne]
          rintro rfl
          rw [List.append_nil] at hp
          rcases List.mem_append.mp hp with hp | hp
          · exact hnewObj (List.mem_map_of_mem hp)
          · exact hnewEntries (List.mem_map_of_mem hp)
        · show List.lookup name (obj ++ [(name, j)] ++ entries) = some j
          rw [List.append_assoc]
          exact lookup_append_cons hnewObj
      simp only [List.append_assoc, List.singleton_append] at hsends hreceives hget
      refine ⟨own ++ entries, ?_, fun m hm => ?_, ?_⟩
      · intro k hk
        rw [List.map_append] at hk
        rcases List.mem_append.mp hk with hk | hk
        · rcases hown with ⟨rfl, -⟩ | ⟨j, rfl, -⟩
          · cases hk
          · rw [List.mem_singleton.mp hk]
            exact List.mem_cons_self
        · exact List.mem_cons_of_mem _ (hentries hk)
      · refine bind_eq_ok.mpr ⟨value, orNotCompiled_eq_ok.mpr (lookup_append_cons hnewBefore), ?_⟩
        refine bind_eq_ok.mpr ⟨sent, hsend m hm _, ?_⟩
        rw [hset]
        exact hsends m hm
      · exact ((hreceive _ hget).bind hreceives).mono fun h => ⟨rfl, h⟩

end Fields

theorem StructTyped.deliveredAt {d : Decls} {leaves : Leaves} (hd : d.WellFormed)
    (hleaves : leaves.IntsTravel) {n : Nat} :
    ∀ {s : String} {value : Value}, StructTyped d leaves n s value →
      DeliveredAt d n s value := by
  induction n with
  | zero =>
    intro s value h
    cases h
  | succ n ih =>
    intro s value h
    obtain ⟨fields, members, hdecl, rfl, hfields⟩ := h
    have hdelivered : FieldsTyped d leaves (DeliveredAt d n) [] fields members :=
      hfields.mono fun _ _ h => ih h
    have hnames := hd.fields s fields hdecl
    obtain ⟨entries, -, hsend, hreceive⟩ := fields_delivered hd hleaves [] hdelivered hnames hnames
    simp only [List.nil_append] at hsend hreceive
    have hstruct : OkOrMissing (StructTyped d utf8Leaves (n + 1) s (.struct members))
        (fun m => jrpcUnmarshallStruct d (m + 1) s (.object entries)) n (.struct members) := by
      simp only [jrpcUnmarshallStruct, orNotCompiled_eq_ok.mpr hdecl]
      exact hreceive.map.mono (structTyped_succ hdecl).mpr
    refine ⟨.object entries, rfl, fun m hm => ?_, ?_⟩
    · obtain ⟨m, rfl⟩ : ∃ k, m = k + 1 := ⟨m - 1, by omega⟩
      exact bind_eq_ok.mpr ⟨fields, orNotCompiled_eq_ok.mpr hdecl,
        bind_eq_ok.mpr ⟨entries, hsend m (by omega), rfl⟩⟩
    · exact hstruct.succ

/-! ## Delivered or refused -/

/-- Texts are bytes, integers keep their value on the way, and no union has a
string or nothing. -/
def byteLeaves : Leaves where
  string := fun _ => True
  int := fun t n => t.cast (castInt 64 n) = n
  unionString := False
  unset := False

theorem byteLeaves_intsTravel : byteLeaves.IntsTravel where
  int := fun _ _ h => h
  unionString := id
  unset := id

/-- The value is sent, and its receiver refuses it: there is no field. -/
def Refused (d : Decls) (s : String) (value : Value) : Prop :=
  ∃ j n, ∀ m ≥ n, jrpcMarshallStruct d m s value = .ok j ∧
    jrpcUnmarshallStruct d m s j = .error missing

theorem not_roundTrips_of_refused {d : Decls} {s : String} {value : Value}
    (h : Refused d s value) : ¬ RoundTrips d s value := by
  obtain ⟨j, n, hj⟩ := h
  rintro ⟨j', n', hj'⟩
  obtain ⟨hsend, hreceive⟩ := hj (max n n') (by omega)
  obtain ⟨hsend', hreceive'⟩ := hj' (max n n') (by omega)
  cases hsend.symm.trans hsend'
  cases hreceive.symm.trans hreceive'

/-- Both. -/
def textLeaves : Leaves := { byteLeaves with string := fun s => utf8Valid s = true }

theorem textLeaves_travels : textLeaves.Travels where
  string := fun _ h => h
  int := fun _ _ h => h
  unionString := id
  unset := id

/-- Bytes that are UTF-8 text travel. -/
theorem roundTrips_of_utf8 {d : Decls} (hd : d.WellFormed) {s : String} {value : Value}
    (hv : Typed d byteLeaves s value) (hutf8 : Typed d utf8Leaves s value) :
    RoundTrips d s value := by
  obtain ⟨n, hv⟩ := hv
  obtain ⟨m, hutf8⟩ := hutf8
  have htyped : StructTyped d textLeaves n s value :=
    StructTyped.combine (a := byteLeaves) (b := utf8Leaves) (c := textLeaves)
      ⟨fun _ _ h => h, fun _ _ h _ => h, fun h _ => h, fun h _ => h⟩ hv hutf8
  exact (htyped.roundTripsAt hd textLeaves_travels).roundTrips

/-- What is sent of bytes is decoded when all of them are UTF-8 texts, and
misses a field otherwise. -/
theorem StructTyped.received {d : Decls} (hd : d.WellFormed) {n : Nat} {s : String}
    {value : Value} (hv : StructTyped d byteLeaves n s value) :
    ∃ j, jsonTypeof j = .object ∧ (∀ m ≥ n, jrpcMarshallStruct d m s value = .ok j) ∧
      (StructTyped d utf8Leaves n s value → ∀ m ≥ n, jrpcUnmarshallStruct d m s j = .ok value) ∧
      (¬ StructTyped d utf8Leaves n s value →
        ∀ m ≥ n, jrpcUnmarshallStruct d m s j = .error missing) := by
  obtain ⟨j, hobject, hsend, hreceive⟩ := hv.deliveredAt hd byteLeaves_intsTravel
  refine ⟨j, hobject, hsend, fun htext => ?_, fun htext => ?_⟩
  · rcases hreceive with ⟨-, hreceive⟩ | hreceive
    · exact hreceive
    · exact absurd (roundTrips_of_utf8 hd ⟨n, hv⟩ ⟨n, htext⟩)
        (not_roundTrips_of_refused ⟨j, n, fun m hm => ⟨hsend m hm, hreceive m hm⟩⟩)
  · rcases hreceive with ⟨hall, -⟩ | hreceive
    · exact absurd hall htext
    · exact hreceive

/-! ## Field by field -/

section Sent

variable {d : Decls} {f : String → Value → Except Stop Json}
  {members members' : List (String × Value)}

/-- What one field of a structure sends. -/
def sentField (d : Decls) (f : String → Value → Except Stop Json)
    (members : List (String × Value)) (field : String × FieldType) :
    Except Stop (Option Json) :=
  orNotCompiled (members.lookup field.1) >>= marshallField d f members field.2

theorem marshallFields_cons {field : String × FieldType} {fields : List (String × FieldType)}
    {obj : List (String × Json)} :
    marshallFields d f members (field :: fields) obj
      = sentField d f members field >>= fun sent =>
          marshallFields d f members fields (jsonObjectSetNew obj field.1 sent) := by
  rw [sentField, bind_assoc]
  rfl

/-- What is sent of two structures is the same when it is for each field. -/
theorem marshallFields_congr {fields : List (String × FieldType)}
    (h : ∀ p ∈ fields, sentField d f members p = sentField d f members' p) :
    ∀ obj, marshallFields d f members fields obj = marshallFields d f members' fields obj := by
  induction fields with
  | nil =>
    intro obj
    rfl
  | cons field fields ih =>
    intro obj
    simp only [List.forall_mem_cons] at h
    rw [marshallFields_cons, marshallFields_cons, h.1]
    exact bind_congr fun sent => ih h.2 _

theorem marshallStruct_congr {m : Nat} {s : String} {fields : List (String × FieldType)}
    (hdecl : d.structs.lookup s = some fields)
    (h : ∀ p ∈ fields, sentField d (jrpcMarshallStruct d m) members p
      = sentField d (jrpcMarshallStruct d m) members' p) :
    jrpcMarshallStruct d (m + 1) s (.struct members)
      = jrpcMarshallStruct d (m + 1) s (.struct members') := by
  rw [jrpcMarshallStruct, jrpcMarshallStruct, hdecl]
  exact congrArg (· >>= fun fields => pure (Json.object fields)) (marshallFields_congr h [])

end Sent

/-! ## A listing with the name of a file -/

/-- A list of files. -/
def listingDecls : Decls where
  enums := []
  structs := [("file", [("size", .int ⟨64, false⟩), ("name", .string)]),
    ("listing", [("files", .ptrArray "file")])]
  unions := []

/-- A structure with an array of structures. -/
def listing (name : CString) : Value :=
  .struct [("files", .array [.struct [("size", .int 1), ("name", .string (some name))]])]

end Armadito.Jrpc.Schema
