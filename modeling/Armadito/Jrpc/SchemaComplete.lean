import Armadito.Jrpc.SchemaMarshall

/-!
# Jrpc.SchemaComplete

When marshalling leaves out a field. An enum with an undeclared value stops
the functions, at any depth; a string that `json_string` refuses does not,
and its field is missing from the object.
-/

namespace Armadito.Jrpc.Schema

/-! ## Values in memory -/

/-- What is asked of the strings and of the enums of a value. -/
structure Asked where
  string : Option CString → Prop
  enum : List (String × Int) → Int → Prop

namespace Asked

/-- Nothing is asked of the leaves. -/
def nothing : Asked := ⟨fun _ => True, fun _ _ => True⟩

/-- No enum is undeclared. -/
def declared : Asked := ⟨fun _ => True, fun values n => n ∈ values.map Prod.snd⟩

/-- No string is NULL or invalid UTF-8. -/
def text : Asked := ⟨fun s => ∃ text, s = some text ∧ utf8Valid text = true, fun _ _ => True⟩

end Asked

section Holds

variable (d : Decls) (asked : Asked) (structHolds : String → Value → Prop)

/-- The leaves of a member are as asked. -/
def MemberHolds : MemberType → Value → Prop
  | .int _, value => ∃ n, value = .int n
  | .string, value => ∃ s, value = .string s ∧ asked.string s
  | .struct s, value => structHolds s value

/-- A field of the structure `members`. A union has the member that its tag
selects. -/
def FieldHolds (members : List (String × Value)) : FieldType → Value → Prop
  | .int _, value => ∃ n, value = .int n
  | .string, value => ∃ s, value = .string s ∧ asked.string s
  | .enum e, value => ∃ values n, d.enums.lookup e = some values ∧ value = .int n ∧
      asked.enum values n
  | .ptrArray s, value => value = .nullArray ∨
      ∃ elems, value = .array elems ∧ ∀ elem ∈ elems, structHolds s elem
  | .struct s, value => structHolds s value
  | .union u tag, value => ∃ choices n, d.unions.lookup u = some choices ∧
      members.lookup tag = some (.int n) ∧
      ∀ c, choices.find? (fun c => c.tagValue = castInt 32 n) = some c →
        ∃ member, value = .union c.name member ∧ MemberHolds asked structHolds c.type member

end Holds

/-- A structure, up to a nesting depth. -/
def StructHolds (d : Decls) (asked : Asked) : Nat → String → Value → Prop
  | 0, _, _ => False
  | n + 1, s, value => ∃ fields members, d.structs.lookup s = some fields ∧
      value = .struct members ∧ ∀ field ∈ fields, ∃ v, members.lookup field.1 = some v ∧
        FieldHolds d asked (StructHolds d asked n) members field.2 v

/-- All leaves of a value are as asked. -/
def Holds (d : Decls) (asked : Asked) (s : String) (value : Value) : Prop :=
  ∃ n, StructHolds d asked n s value

/-- A value that the memory of a structure can hold: a string is NULL or has
any bytes, an enum is any integer, and an integer need not be of the type
that the declaration gives it. -/
def InMemory (d : Decls) : String → Value → Prop := Holds d .nothing

/-- Every enumeration has a value that is declared. -/
def EnumsDeclared (d : Decls) : String → Value → Prop := Holds d .declared

/-- Every string is text. -/
def StringsText (d : Decls) : String → Value → Prop := Holds d .text

section Rules

variable {d : Decls} {asked : Asked} {structHolds : String → Value → Prop}
  {members : List (String × Value)}

@[simp] theorem fieldHolds_int {t : IntType} {n : Int} :
    FieldHolds d asked structHolds members (.int t) (.int n) := ⟨n, rfl⟩

@[simp] theorem fieldHolds_string {s : Option CString} :
    FieldHolds d asked structHolds members .string (.string s) ↔ asked.string s := by
  simp [FieldHolds]

theorem fieldHolds_enum {e : String} {values : List (String × Int)}
    (hdecl : d.enums.lookup e = some values) {n : Int} :
    FieldHolds d asked structHolds members (.enum e) (.int n) ↔ asked.enum values n := by
  simp [FieldHolds, hdecl]

theorem fieldHolds_union {u tag : String} {choices : List UnionMember} {n : Int}
    {c : UnionMember} (hdecl : d.unions.lookup u = some choices)
    (htag : members.lookup tag = some (.int n))
    (hfind : choices.find? (fun c => c.tagValue = castInt 32 n) = some c) {member : Value} :
    FieldHolds d asked structHolds members (.union u tag) (.union c.name member) ↔
      MemberHolds asked structHolds c.type member := by
  simp [FieldHolds, hdecl, htag, hfind]

theorem structHolds_succ {n : Nat} {s : String} {fields : List (String × FieldType)}
    (hdecl : d.structs.lookup s = some fields) :
    StructHolds d asked (n + 1) s (.struct members) ↔
      ∀ field ∈ fields, ∃ v, members.lookup field.1 = some v ∧
        FieldHolds d asked (StructHolds d asked n) members field.2 v := by
  simp [StructHolds, hdecl]

end Rules

/-! ## Complete objects -/

section Complete

variable (d : Decls) (structComplete : String → Value → Json → Prop)

/-- The object of a member leaves nothing of it out. -/
def MemberComplete : MemberType → Value → Json → Prop
  | .struct s, value, j => structComplete s value j
  | _, _, _ => True

/-- The object of a field leaves nothing of it out. -/
def FieldComplete (members : List (String × Value)) : FieldType → Value → Json → Prop
  | .ptrArray s, .array elems, j => ∃ js, j = .array js ∧
      List.Forall₂ (structComplete s) elems js
  | .struct s, value, j => structComplete s value j
  | .union u tag, value, j => ∀ choices n c, d.unions.lookup u = some choices →
      members.lookup tag = some (.int n) →
      choices.find? (fun c => c.tagValue = castInt 32 n) = some c →
      ∃ member obj f, value = .union c.name member ∧ j = .object obj ∧
        obj.lookup c.name = some f ∧ MemberComplete structComplete c.type member f
  | _, _, _ => True

end Complete

/-- The object has every field of the structure, and so on in each of them. -/
def StructComplete (d : Decls) : Nat → String → Value → Json → Prop
  | 0, _, _, _ => False
  | n + 1, s, value, j => ∃ fields members obj, d.structs.lookup s = some fields ∧
      value = .struct members ∧ j = .object obj ∧
      ∀ field ∈ fields, ∃ f, obj.lookup field.1 = some f ∧
        ∃ v, members.lookup field.1 = some v ∧
          FieldComplete d (StructComplete d n) members field.2 v f

/-- The JSON is an object with a member for every declared field, and so are
the nested ones. -/
def Complete (d : Decls) (s : String) (value : Value) (j : Json) : Prop :=
  ∃ n, StructComplete d n s value j

/-- `jrpc_marshall_struct_S` returns an error, or a complete object. -/
def NothingDropped (d : Decls) (s : String) (value : Value) : Prop :=
  ∃ n, ∀ m ≥ n, (∃ c ≠ 0, jrpcMarshallStruct d m s value = .error (.code c)) ∨
    ∃ j, jrpcMarshallStruct d m s value = .ok j ∧ Complete d s value j

/-! ## The depth of a value -/

section Depth

variable {d : Decls} {a b : Asked} {holdsA holdsB holdsC : String → Value → Prop}

theorem MemberHolds.deepen (hrec : ∀ s v, holdsA s v → holdsB s v → holdsC s v)
    {type : MemberType} {value : Value} (ha : MemberHolds a holdsA type value)
    (hb : MemberHolds b holdsB type value) : MemberHolds b holdsC type value := by
  cases type with
  | int t => exact hb
  | string => exact hb
  | struct s => exact hrec s value ha hb

theorem FieldHolds.deepen (hrec : ∀ s v, holdsA s v → holdsB s v → holdsC s v)
    {members : List (String × Value)} {type : FieldType} {value : Value}
    (ha : FieldHolds d a holdsA members type value)
    (hb : FieldHolds d b holdsB members type value) :
    FieldHolds d b holdsC members type value := by
  cases type with
  | int t => exact hb
  | string => exact hb
  | enum e => exact hb
  | ptrArray s =>
    rcases hb with hnull | ⟨elems, rfl, hb⟩
    · exact .inl hnull
    · obtain hnull | ⟨elems', heq, ha⟩ := ha
      · cases hnull
      · cases heq
        exact .inr ⟨elems, rfl, fun elem helem => hrec s elem (ha elem helem) (hb elem helem)⟩
  | struct s => exact hrec s value ha hb
  | union u tag =>
    obtain ⟨choices, n, hdecl, htag, hb⟩ := hb
    obtain ⟨choices', n', hdecl', htag', ha⟩ := ha
    cases hdecl.symm.trans hdecl'
    cases htag.symm.trans htag'
    refine ⟨choices, n, hdecl, htag, fun c hfind => ?_⟩
    obtain ⟨member, rfl, hmember⟩ := hb c hfind
    obtain ⟨member', heq, hmember'⟩ := ha c hfind
    cases heq
    exact ⟨member, rfl, hmember'.deepen hrec hmember⟩

/-- A value is as deep as it is: what holds of it at one depth holds at any
depth that is enough for it. -/
theorem StructHolds.deepen {n : Nat} : ∀ {m : Nat} {s : String} {value : Value},
    StructHolds d a n s value → StructHolds d b m s value → StructHolds d b n s value := by
  induction n with
  | zero =>
    intro m s value ha _
    cases ha
  | succ n ih =>
    intro m s value ha hb
    cases m with
    | zero => cases hb
    | succ m =>
      obtain ⟨fields, members, hdecl, rfl, ha⟩ := ha
      obtain ⟨fields', members', hdecl', heq, hb⟩ := hb
      cases heq
      cases hdecl.symm.trans hdecl'
      refine ⟨fields, members, hdecl, rfl, fun field hfield => ?_⟩
      obtain ⟨v, hv, hva⟩ := ha field hfield
      obtain ⟨v', hv', hvb⟩ := hb field hfield
      cases hv.symm.trans hv'
      exact ⟨v, hv, hva.deepen (fun _ _ => ih) hvb⟩

theorem FieldHolds.complete {structA structC : String → Value → Json → Prop}
    (hrec : ∀ s v j, holdsA s v → structA s v j → structC s v j)
    {members : List (String × Value)} {type : FieldType} {value : Value} {j : Json}
    (ha : FieldHolds d a holdsA members type value)
    (hj : FieldComplete d structA members type value j) :
    FieldComplete d structC members type value j := by
  cases type with
  | int t => trivial
  | string => trivial
  | enum e => trivial
  | ptrArray s =>
    obtain rfl | ⟨elems, rfl, ha⟩ := ha
    · trivial
    · obtain ⟨js, rfl, hjs⟩ := hj
      refine ⟨js, rfl, List.forall₂_iff_get.mpr ⟨hjs.length_eq, fun i h h' => ?_⟩⟩
      exact hrec s _ _ (ha _ (List.getElem_mem h)) (hjs.get h h')
  | struct s => exact hrec s value j ha hj
  | union u tag =>
    obtain ⟨choices, n, hdecl, htag, ha⟩ := ha
    intro choices' n' c hdecl' htag' hfind
    obtain ⟨member, obj, f, rfl, rfl, hf, hmember⟩ := hj choices' n' c hdecl' htag' hfind
    cases hdecl.symm.trans hdecl'
    cases htag.symm.trans htag'
    obtain ⟨member', heq, hmember'⟩ := ha c hfind
    cases heq
    refine ⟨member, obj, f, rfl, rfl, hf, ?_⟩
    cases htype : c.type with
    | int t => trivial
    | string => trivial
    | struct s =>
      rw [htype] at hmember hmember'
      exact hrec s member f hmember' hmember

theorem StructHolds.complete {n : Nat} : ∀ {m : Nat} {s : String} {value : Value} {j : Json},
    StructHolds d a n s value → StructComplete d m s value j → StructComplete d n s value j := by
  induction n with
  | zero =>
    intro m s value j ha _
    cases ha
  | succ n ih =>
    intro m s value j ha hj
    cases m with
    | zero => cases hj
    | succ m =>
      obtain ⟨fields, members, hdecl, rfl, ha⟩ := ha
      obtain ⟨fields', members', obj, hdecl', heq, rfl, hj⟩ := hj
      cases heq
      cases hdecl.symm.trans hdecl'
      refine ⟨fields, members, obj, hdecl, rfl, rfl, fun field hfield => ?_⟩
      obtain ⟨v, hv, hva⟩ := ha field hfield
      obtain ⟨f, hf, v', hv', hvj⟩ := hj field hfield
      cases hv.symm.trans hv'
      exact ⟨f, hf, v, hv, hva.complete (fun _ _ _ => ih) hvj⟩

end Depth

/-! ## What marshalling does -/

/-- The result is there exactly when the enums are `declared`, and it is
`complete` exactly when the strings are `text`. -/
def Outcome {α : Type} (declared text : Prop) (complete : α → Prop) : Except Stop α → Prop
  | .ok a => declared ∧ (complete a ↔ text)
  | .error stop => ¬ declared ∧ stop = .code jrpcErrMarshallInvalidEnumValue

section Outcome

variable {α β : Type} {declared text : Prop} {complete : α → Prop} {x : Except Stop α}

/-- The outcome, stated with other words for the same. -/
theorem Outcome.congr {declared' text' : Prop} (h : Outcome declared text complete x)
    (hdeclared : declared' ↔ declared) (htext : text' ↔ text) :
    Outcome declared' text' complete x := by
  rwa [propext hdeclared, propext htext]

theorem Outcome.map {complete' : β → Prop} {g : α → β} (h : Outcome declared text complete x)
    (hcomplete : ∀ a, complete' (g a) ↔ complete a) :
    Outcome declared text complete' (x >>= fun a => pure (g a)) := by
  cases x with
  | ok a => exact ⟨h.1, (hcomplete a).trans h.2⟩
  | error stop => exact h

/-- Two results, one after the other. The second may use the first. -/
theorem Outcome.bind {declared' text' : Prop} {complete' complete'' : β → Prop}
    {f : α → Except Stop β} (h : Outcome declared text complete x)
    (hnext : ∀ a, x = .ok a → Outcome declared' text' complete' (f a))
    (hcomplete : ∀ a b, x = .ok a → f a = .ok b →
      (complete'' b ↔ complete a ∧ complete' b)) :
    Outcome (declared ∧ declared') (text ∧ text') complete'' (x >>= f) := by
  cases x with
  | error stop => exact ⟨fun hboth => h.1 hboth.1, h.2⟩
  | ok a =>
    have hb := hnext a rfl
    show Outcome _ _ _ (f a)
    cases hf : f a with
    | error stop =>
      rw [hf] at hb
      exact ⟨fun hboth => hb.1 hboth.2, hb.2⟩
    | ok b =>
      rw [hf] at hb
      refine ⟨⟨h.1, hb.1⟩, ?_⟩
      rw [hcomplete a b rfl hf, h.2, hb.2]

theorem mapM_outcome {D T : β → Prop} {C : β → α → Prop} {f : β → Except Stop α} {xs : List β}
    (h : ∀ x ∈ xs, Outcome (D x) (T x) (C x) (f x)) :
    Outcome (∀ x ∈ xs, D x) (∀ x ∈ xs, T x) (List.Forall₂ C xs) (xs.mapM f) := by
  induction xs with
  | nil => exact ⟨by simp, by simp⟩
  | cons x xs ih =>
    rw [List.mapM_cons]
    have hrest : ∀ y, f x = .ok y → Outcome (∀ x ∈ xs, D x) (∀ x ∈ xs, T x)
        (fun ys => ∃ z zs, ys = z :: zs ∧ List.Forall₂ C xs zs)
        (xs.mapM f >>= fun ys => pure (y :: ys)) := fun y _ =>
      Outcome.map (ih fun x' hx' => h x' (List.mem_cons_of_mem x hx')) fun ys => by simp
    refine Outcome.congr (Outcome.bind (h x List.mem_cons_self) hrest ?_)
      List.forall_mem_cons List.forall_mem_cons
    intro y ys _ hys
    obtain ⟨zs, -, hzs⟩ := bind_eq_ok.mp hys
    cases pure_eq_ok.mp hzs
    simp

end Outcome

/-! ## Objects -/

section Objects

variable {fields : List (String × Json)} {key : String}

theorem lookup_setNew_self (h : key ∉ fields.map Prod.fst) (value : Option Json) :
    (jsonObjectSetNew fields key value).lookup key = value := by
  cases value with
  | none =>
    exact List.lookup_eq_none_iff.mpr fun p hp => by
      rw [bne_iff_ne]
      rintro rfl
      exact h (List.mem_map.mpr ⟨p, hp, rfl⟩)
  | some j =>
    rw [jsonObjectSetNew_new h]
    exact lookup_append_cons h

theorem lookup_setNew_ne (h : key ∉ fields.map Prod.fst) (value : Option Json) {k : String}
    (hne : k ≠ key) : (jsonObjectSetNew fields key value).lookup k = fields.lookup k := by
  cases value with
  | none => rfl
  | some j =>
    have hbeq : (k == key) = false := beq_eq_false_iff_ne.mpr hne
    rw [jsonObjectSetNew_new h, List.lookup_append, List.lookup_cons, hbeq]
    simp

theorem mem_names_setNew (h : key ∉ fields.map Prod.fst) {value : Option Json} {k : String}
    (hk : k ∈ (jsonObjectSetNew fields key value).map Prod.fst) :
    k ∈ fields.map Prod.fst ∨ k = key := by
  cases value with
  | none => exact .inl hk
  | some j => simpa [jsonObjectSetNew_new h] using hk

end Objects

/-! ## The object that is built -/

section Built

variable {d : Decls} {marshallStruct : String → Value → Except Stop Json}
  {members : List (String × Value)}

/-- The names are new, and each of them is set once. -/
def FreshNames (obj : List (String × Json)) (fields : List (String × FieldType)) : Prop :=
  (fields.map Prod.fst).Nodup ∧ ∀ name ∈ fields.map Prod.fst, name ∉ obj.map Prod.fst

theorem FreshNames.cons {obj : List (String × Json)} {name : String} {type : FieldType}
    {fields : List (String × FieldType)} (h : FreshNames obj ((name, type) :: fields))
    (value : Option Json) :
    name ∉ obj.map Prod.fst ∧ name ∉ fields.map Prod.fst ∧
      FreshNames (jsonObjectSetNew obj name value) fields := by
  obtain ⟨hnodup, hnew⟩ := h
  obtain ⟨hname, hnodup⟩ := List.nodup_cons.mp hnodup
  have hfirst := hnew name List.mem_cons_self
  refine ⟨hfirst, hname, hnodup, fun k hk hmem => ?_⟩
  rcases mem_names_setNew hfirst hmem with hmem | rfl
  · exact hnew k (List.mem_cons_of_mem _ hk) hmem
  · exact hname hk

theorem marshallFields_lookup {fields : List (String × FieldType)} {k : String} :
    ∀ {obj entries : List (String × Json)},
      marshallFields d marshallStruct members fields obj = .ok entries →
      FreshNames obj fields → k ∉ fields.map Prod.fst → entries.lookup k = obj.lookup k := by
  induction fields with
  | nil =>
    intro obj entries h _ _
    rw [pure_eq_ok.mp h]
  | cons field fields ih =>
    intro obj entries h hfresh hk
    obtain ⟨name, type⟩ := field
    obtain ⟨value, -, h⟩ := bind_eq_ok.mp h
    obtain ⟨j, -, h⟩ := bind_eq_ok.mp h
    obtain ⟨hnew, -, hfresh⟩ := hfresh.cons j
    obtain ⟨hne, hk⟩ := not_or.mp (List.mem_cons.not.mp hk)
    rw [ih h hfresh hk, lookup_setNew_ne hnew j hne]

theorem fields_outcome {D T : String × FieldType → Prop} {C : String × FieldType → Json → Prop}
    {fields : List (String × FieldType)} : ∀ {obj : List (String × Json)},
      FreshNames obj fields →
      (∀ field ∈ fields, ∃ value, members.lookup field.1 = some value ∧
        Outcome (D field) (T field) (fun o => ∃ f, o = some f ∧ C field f)
          (marshallField d marshallStruct members field.2 value)) →
      Outcome (∀ field ∈ fields, D field) (∀ field ∈ fields, T field)
        (fun entries => ∀ field ∈ fields, ∃ f, entries.lookup field.1 = some f ∧ C field f)
        (marshallFields d marshallStruct members fields obj) := by
  induction fields with
  | nil =>
    intro obj _ _
    exact ⟨by simp, by simp⟩
  | cons field fields ih =>
    intro obj hfresh h
    obtain ⟨name, type⟩ := field
    obtain ⟨value, hvalue, hfield⟩ := h _ List.mem_cons_self
    rw [marshallFields, hvalue]
    refine (Outcome.bind hfield (fun o _ => ih (hfresh.cons o).2.2 fun field hmem =>
      h field (List.mem_cons_of_mem _ hmem)) fun o entries _ hrest => ?_).congr
      List.forall_mem_cons List.forall_mem_cons
    -- what is set under the name is still there at the end
    obtain ⟨hnew, hname, hfresh⟩ := hfresh.cons o
    rw [List.forall_mem_cons, marshallFields_lookup hrest hfresh hname,
      lookup_setNew_self hnew]

end Built

/-! ## Fields -/

section Fields

variable {d : Decls} {marshallStruct : String → Value → Except Stop Json}
  {members : List (String × Value)} {holds declares texts : String → Value → Prop}
  {complete : String → Value → Json → Prop}

theorem jsonString_isText {s : Option CString} :
    (∃ f, jsonString s = some f) ↔ Asked.text.string s := by
  cases s with
  | none => simp [jsonString, Asked.text]
  | some text => simp [jsonString, Asked.text]

theorem jrpcMarshallEnum_outcome {e : String} {values : List (String × Int)}
    (hdecl : d.enums.lookup e = some values) (n : Int) :
    Outcome (n ∈ values.map Prod.snd) True (fun _ => True) (jrpcMarshallEnum d e n) := by
  simp only [jrpcMarshallEnum, orNotCompiled_eq_ok.mpr hdecl, Bind.bind, Except.bind]
  cases hfind : values.find? fun p => p.2 = n with
  | some p =>
    have hvalue : p.2 = n := by simpa using List.find?_some hfind
    exact ⟨List.mem_map.mpr ⟨p, List.mem_of_find?_eq_some hfind, hvalue⟩, Iff.rfl⟩
  | none =>
    refine ⟨fun hmem => ?_, rfl⟩
    obtain ⟨p, hp, rfl⟩ := List.mem_map.mp hmem
    simpa using List.find?_eq_none.mp hfind p hp

/-- The member that the tag selects, in the object of the union. -/
theorem jrpcMarshallUnion_outcome
    (hrec : ∀ s value, holds s value →
      Outcome (declares s value) (texts s value) (complete s value) (marshallStruct s value))
    {u : String} {choices : List UnionMember} {tag : Int} {c : UnionMember}
    (hdecl : d.unions.lookup u = some choices)
    (hfind : choices.find? (fun c => c.tagValue = tag) = some c) {member : Value}
    (h : MemberHolds .nothing holds c.type member) :
    Outcome (MemberHolds .declared declares c.type member) (MemberHolds .text texts c.type member)
      (fun j => ∃ obj f, j = .object obj ∧ obj.lookup c.name = some f ∧
        MemberComplete complete c.type member f)
      (jrpcMarshallUnion d marshallStruct u tag (.union c.name member)) := by
  have hset (o : Option Json) : (jsonObjectSetNew [] c.name o).lookup c.name = o :=
    lookup_setNew_self (by simp) o
  cases htype : c.type with
  | int t =>
    rw [htype] at h
    obtain ⟨n, rfl⟩ := h
    rw [jrpcMarshallUnion_int hdecl hfind htype]
    exact ⟨⟨n, rfl⟩, fun _ => ⟨n, rfl⟩, fun _ => ⟨_, _, rfl, hset _, trivial⟩⟩
  | string =>
    rw [htype] at h
    obtain ⟨s, rfl, -⟩ := h
    rw [jrpcMarshallUnion_string hdecl hfind htype]
    refine ⟨⟨s, rfl, trivial⟩, ?_, ?_⟩
    · rintro ⟨obj, f, heq, hf, -⟩
      cases heq
      exact ⟨s, rfl, jsonString_isText.mp ⟨f, (hset _).symm.trans hf⟩⟩
    · rintro ⟨s', heq, htext⟩
      cases heq
      obtain ⟨f, hf⟩ := jsonString_isText.mpr htext
      exact ⟨_, f, rfl, (hset _).trans hf, trivial⟩
  | struct s =>
    rw [htype] at h
    rw [jrpcMarshallUnion_struct hdecl hfind htype]
    refine Outcome.map (hrec s member h) fun j => ⟨?_, fun hj => ⟨_, j, rfl, hset _, hj⟩⟩
    rintro ⟨obj, f, heq, hf, hj⟩
    cases heq
    cases (hset _).symm.trans hf
    exact hj

theorem fieldComplete_union {u tag : String} {choices : List UnionMember} {n : Int}
    (hdecl : d.unions.lookup u = some choices) (htag : members.lookup tag = some (.int n))
    {value : Value} {j : Json} :
    FieldComplete d complete members (.union u tag) value j ↔
      ∀ c, choices.find? (fun c => c.tagValue = castInt 32 n) = some c →
        ∃ member obj f, value = .union c.name member ∧ j = .object obj ∧
          obj.lookup c.name = some f ∧ MemberComplete complete c.type member f := by
  constructor
  · intro h c hfind
    exact h choices n c hdecl htag hfind
  · intro h choices' n' c hdecl' htag' hfind
    cases hdecl.symm.trans hdecl'
    cases htag.symm.trans htag'
    exact h c hfind

theorem field_outcome
    (hrec : ∀ s value, holds s value →
      Outcome (declares s value) (texts s value) (complete s value) (marshallStruct s value))
    {type : FieldType} {value : Value} (h : FieldHolds d .nothing holds members type value) :
    Outcome (FieldHolds d .declared declares members type value)
      (FieldHolds d .text texts members type value)
      (fun o => ∃ f, o = some f ∧ FieldComplete d complete members type value f)
      (marshallField d marshallStruct members type value) := by
  cases type with
  | int t =>
    obtain ⟨n, rfl⟩ := h
    exact ⟨⟨n, rfl⟩, fun _ => ⟨n, rfl⟩, fun _ => ⟨_, rfl, trivial⟩⟩
  | string =>
    obtain ⟨s, rfl, -⟩ := h
    refine ⟨⟨s, rfl, trivial⟩, ?_, ?_⟩
    · rintro ⟨f, hf, -⟩
      exact ⟨s, rfl, jsonString_isText.mp ⟨f, hf⟩⟩
    · rintro ⟨s', heq, htext⟩
      cases heq
      obtain ⟨f, hf⟩ := jsonString_isText.mpr htext
      exact ⟨f, hf, trivial⟩
  | enum e =>
    obtain ⟨values, n, hdecl, rfl, -⟩ := h
    refine ((jrpcMarshallEnum_outcome hdecl n).map fun j =>
      ⟨fun _ => trivial, fun _ => ⟨j, rfl, trivial⟩⟩).congr ?_ ?_
    · simp [FieldHolds, hdecl, Asked.declared]
    · simp [FieldHolds, hdecl, Asked.text]
  | ptrArray s =>
    obtain rfl | ⟨elems, rfl, helems⟩ := h
    · exact ⟨.inl rfl, fun _ => .inl rfl, fun _ => ⟨_, rfl, trivial⟩⟩
    · refine ((mapM_outcome fun elem helem => hrec s elem (helems elem helem)).map fun js =>
        ?_).congr ?_ ?_
      · simp [FieldComplete]
      · simp [FieldHolds]
      · simp [FieldHolds]
  | struct s =>
    rw [marshallField_struct]
    exact (hrec s value h).map fun j => by simp [FieldComplete]
  | union u tag =>
    obtain ⟨choices, n, hdecl, htag, h⟩ := h
    have htagOf : tagOf members tag = .ok (castInt 32 n) := by rw [tagOf, htag]
    show Outcome _ _ _ (tagOf members tag >>= _)
    rw [htagOf]
    cases hfind : choices.find? fun c => c.tagValue = castInt 32 n with
    | none =>
      show Outcome _ _ _ (jrpcMarshallUnion d marshallStruct u (castInt 32 n) value >>= _)
      rw [jrpcMarshallUnion_unset hdecl hfind]
      refine ⟨?_, fun _ => ?_, fun _ => ⟨_, rfl, ?_⟩⟩
      · simp [FieldHolds, hdecl, htag, hfind]
      · simp [FieldHolds, hdecl, htag, hfind]
      · simp [fieldComplete_union hdecl htag, hfind]
    | some c =>
      obtain ⟨member, rfl, hmember⟩ := h c hfind
      refine ((jrpcMarshallUnion_outcome hrec hdecl hfind hmember).map fun j => ?_).congr ?_ ?_
      · simp [fieldComplete_union hdecl htag, hfind]
      · rw [fieldHolds_union hdecl htag hfind]
      · rw [fieldHolds_union hdecl htag hfind]

end Fields

/-! ## Structures -/

section Structures

variable {d : Decls}

theorem struct_outcome (hd : d.WellFormed) {n : Nat} :
    ∀ {s : String} {value : Value}, StructHolds d .nothing n s value → ∀ m ≥ n,
      Outcome (StructHolds d .declared n s value) (StructHolds d .text n s value)
        (StructComplete d n s value) (jrpcMarshallStruct d m s value) := by
  induction n with
  | zero =>
    intro s value h
    cases h
  | succ n ih =>
    intro s value h m hm
    obtain ⟨m, rfl⟩ : ∃ k, m = k + 1 := ⟨m - 1, by omega⟩
    obtain ⟨fields, members, hdecl, rfl, hfields⟩ := h
    have hfresh : FreshNames [] fields := ⟨hd.fields s fields hdecl, by simp⟩
    rw [jrpcMarshallStruct, hdecl]
    have hbuilt := fields_outcome
      (D := fun field => ∃ v, members.lookup field.1 = some v ∧
        FieldHolds d .declared (StructHolds d .declared n) members field.2 v)
      (T := fun field => ∃ v, members.lookup field.1 = some v ∧
        FieldHolds d .text (StructHolds d .text n) members field.2 v)
      (C := fun field f => ∃ v, members.lookup field.1 = some v ∧
        FieldComplete d (StructComplete d n) members field.2 v f)
      hfresh fun field hfield => by
        obtain ⟨v, hv, h⟩ := hfields field hfield
        refine ⟨v, hv, ?_⟩
        simpa [hv] using field_outcome (fun s value h => ih h m (by omega)) h
    refine (hbuilt.map fun entries => ?_).congr ?_ ?_
    · simp [StructComplete, hdecl]
    · simp [StructHolds, hdecl]
    · simp [StructHolds, hdecl]

/-- **A field is dropped exactly when all enums of the value are declared
and some string is not text.** An undeclared enum is an error, and nothing
else is. -/
theorem InMemory.nothingDropped_iff (hd : d.WellFormed) {s : String} {value : Value}
    (h : InMemory d s value) :
    NothingDropped d s value ↔ ¬ EnumsDeclared d s value ∨ StringsText d s value := by
  obtain ⟨n, h⟩ := h
  have hdeclared : EnumsDeclared d s value ↔ StructHolds d .declared n s value :=
    ⟨fun ⟨_, hk⟩ => h.deepen hk, fun hn => ⟨n, hn⟩⟩
  have htext : StringsText d s value ↔ StructHolds d .text n s value :=
    ⟨fun ⟨_, hk⟩ => h.deepen hk, fun hn => ⟨n, hn⟩⟩
  have hcomplete (j : Json) : Complete d s value j ↔ StructComplete d n s value j :=
    ⟨fun ⟨_, hk⟩ => h.complete hk, fun hn => ⟨n, hn⟩⟩
  constructor
  · rintro ⟨k, hk⟩
    have houtcome := struct_outcome hd h (max n k) (Nat.le_max_left n k)
    rcases hk (max n k) (Nat.le_max_right n k) with ⟨c, -, herror⟩ | ⟨j, hok, hj⟩
    · rw [herror] at houtcome
      exact .inl (hdeclared.not.mpr houtcome.1)
    · rw [hok] at houtcome
      exact .inr (htext.mpr (houtcome.2.mp ((hcomplete j).mp hj)))
  · intro hcond
    refine ⟨n, fun m hm => ?_⟩
    have houtcome := struct_outcome hd h m hm
    cases hresult : jrpcMarshallStruct d m s value with
    | error stop =>
      rw [hresult] at houtcome
      exact .inl ⟨_, by decide, congrArg Except.error houtcome.2⟩
    | ok j =>
      rw [hresult] at houtcome
      obtain hundeclared | hstrings := hcond
      · exact (hundeclared (hdeclared.mpr houtcome.1)).elim
      · exact .inr ⟨j, rfl, (hcomplete j).mpr (houtcome.2.mpr (htext.mp hstrings))⟩

end Structures

end Armadito.Jrpc.Schema
