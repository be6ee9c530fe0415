import Armadito.Conf.Parser

/-!
# Conf.Grammar

The BNF of `conf.h` as derivations over token lists, each with what it
means: the definitions it makes, in order.

`Completed` says what can be made of a token list that is no configuration:
the definitions of a beginning of it that is one and does not break off in
the middle of a string list.
-/

namespace Armadito.Conf

/-- A definition, as it is handed to the callback. -/
structure ConfDefinition where
  sectionName : CString
  key : CString
  value : A6oConfValue
  deriving DecidableEq, Repr

/-! ## The rules -/

/-- `list_sep : ',' | ';'`. -/
def IsListSep (t : Token) : Prop := t.type = .comma ∨ t.type = .semiColon

/-- `opt_string_list : list_sep string_value opt_string_list | EMPTY`. -/
inductive OptStringList : List Token → List CString → Prop where
  | empty : OptStringList [] []
  | cons {sep str : Token} {ts : List Token} {vs : List CString}
      (hsep : IsListSep sep) (hstr : str.type = .string) (hrest : OptStringList ts vs) :
      OptStringList (sep :: str :: ts) (osStrdup str.text :: vs)

/-- One string is a string; two or more are a list. -/
def stringsValue (first : CString) (more : List CString) : A6oConfValue :=
  if more = [] then .string first else .list (first :: more)

/-- `value : int_value | string_value opt_string_list`. -/
inductive Value : List Token → A6oConfValue → Prop where
  | int {t : Token} (h : t.type = .integer) : Value [t] (.int (atoi (osStrdup t.text)))
  | strings {t : Token} {ts : List Token} {vs : List CString} (h : t.type = .string)
      (hrest : OptStringList ts vs) : Value (t :: ts) (stringsValue (osStrdup t.text) vs)

/-- `definition : key '=' value`. -/
inductive DefinitionRule (sect : CString) : List Token → ConfDefinition → Prop where
  | mk {key eq : Token} {ts : List Token} {v : A6oConfValue} (hkey : key.type = .string)
      (heq : eq.type = .equalSign) (hvalue : Value ts v) :
      DefinitionRule sect (key :: eq :: ts) ⟨sect, osStrdup key.text, v⟩

/-- `definition_list : definition definition_list | EMPTY`. -/
inductive DefinitionList (sect : CString) : List Token → List ConfDefinition → Prop where
  | empty : DefinitionList sect [] []
  | cons {ts ts' : List Token} {d : ConfDefinition} {ds : List ConfDefinition}
      (hdef : DefinitionRule sect ts d) (hrest : DefinitionList sect ts' ds) :
      DefinitionList sect (ts ++ ts') (d :: ds)

/-- `section : '[' section_name ']' definition_list`. -/
inductive SectionRule : List Token → List ConfDefinition → Prop where
  | mk {left name right : Token} {ts : List Token} {ds : List ConfDefinition}
      (hleft : left.type = .leftBrace) (hname : name.type = .string)
      (hright : right.type = .rightBrace) (hdefs : DefinitionList (osStrdup name.text) ts ds) :
      SectionRule (left :: name :: right :: ts) ds

/-- `section_list : section section_list | EMPTY`. -/
inductive SectionList : List Token → List ConfDefinition → Prop where
  | empty : SectionList [] []
  | cons {ts ts' : List Token} {ds ds' : List ConfDefinition}
      (hsect : SectionRule ts ds) (hrest : SectionList ts' ds') :
      SectionList (ts ++ ts') (ds ++ ds')

/-- `configuration : section_list`. -/
abbrev Configuration (ts : List Token) (ds : List ConfDefinition) : Prop := SectionList ts ds

/-- A token sequence of a whole file: a configuration and the end. -/
def Derivable (ts : List Token) (ds : List ConfDefinition) : Prop :=
  ∃ conf last, ts = conf ++ [last] ∧ last.type = .eof ∧ Configuration conf ds

/-! ## Where a beginning may end -/

/-- The tokens go on with a separator of a list. -/
def StartsWithListSep (ts : List Token) : Prop := ∃ t, ts.head? = some t ∧ IsListSep t

/-- Cutting `ts ++ rest` here does not cut a string list. -/
def Closed (ts rest : List Token) : Prop :=
  (∃ t, ts.getLast? = some t ∧ t.type = .string) → ¬ StartsWithListSep rest

/-- The definitions are completed at the beginning of the token list. -/
def Completed (ts : List Token) (ds : List ConfDefinition) : Prop :=
  ∃ conf rest, ts = conf ++ rest ∧ Configuration conf ds ∧ Closed conf rest

theorem startsWithListSep_cons {t : Token} {ts : List Token} :
    StartsWithListSep (t :: ts) ↔ IsListSep t := by
  simp [StartsWithListSep]

theorem not_startsWithListSep_of_type {t : Token} {ts : List Token} {type : TokenType}
    (h : t.type = type) (hcomma : type ≠ .comma) (hsemi : type ≠ .semiColon) :
    ¬ StartsWithListSep (t :: ts) := by
  rw [startsWithListSep_cons]
  intro hsep
  rcases hsep with hsep | hsep
  · exact hcomma (h ▸ hsep)
  · exact hsemi (h ▸ hsep)

theorem closed_nil (rest : List Token) : Closed [] rest := by
  rintro ⟨t, ht, _⟩
  cases ht

/-- A beginning may end behind anything but a string. -/
theorem closed_concat {t : Token} (ht : t.type ≠ .string) (ts rest : List Token) :
    Closed (ts ++ [t]) rest := by
  rintro ⟨last, hlast, htype⟩
  rw [List.getLast?_concat] at hlast
  cases hlast
  exact absurd htype ht

/-- The second part of a beginning that may end, may end. -/
theorem Closed.right {ts ts' rest : List Token} (h : Closed (ts ++ ts') rest) :
    Closed ts' rest := by
  rintro ⟨t, ht, htype⟩
  refine h ⟨t, ?_, htype⟩
  rw [List.getLast?_append, ht]
  rfl

/-- So may the first part, when the second starts with no separator. -/
theorem Closed.left {ts ts' rest : List Token} (h : Closed (ts ++ ts') rest)
    (hts' : ts' ≠ [] → ¬ StartsWithListSep ts') : Closed ts (ts' ++ rest) := by
  cases ts' with
  | nil => simpa using h
  | cons t ts' =>
    intro _
    rw [List.cons_append, startsWithListSep_cons]
    rw [startsWithListSep_cons] at hts'
    exact hts' (List.cons_ne_nil t ts')

theorem Closed.append {ts ts' rest : List Token} (h : Closed ts (ts' ++ rest))
    (h' : Closed ts' rest) : Closed (ts ++ ts') rest := by
  cases ts' with
  | nil => simpa using h
  | cons t ts' =>
    rintro ⟨last, hlast, htype⟩
    rw [List.getLast?_append_of_ne_nil _ (List.cons_ne_nil t ts')] at hlast
    exact h' ⟨last, hlast, htype⟩

/-! ## First and last tokens -/

/-- A string list ends in a string. -/
theorem OptStringList.getLast? {ts : List Token} {vs : List CString}
    (h : OptStringList ts vs) {first : Token} (hfirst : first.type = .string) :
    ∃ t, (first :: ts).getLast? = some t ∧ t.type = .string := by
  induction h generalizing first with
  | empty => exact ⟨first, rfl, hfirst⟩
  | cons hsep hstr hrest ih =>
    obtain ⟨t, ht, htype⟩ := ih hstr
    refine ⟨t, ?_, htype⟩
    rw [List.getLast?_cons_cons, List.getLast?_cons_cons]
    exact ht

theorem DefinitionList.not_startsWithListSep {sect : CString} {ts : List Token}
    {ds : List ConfDefinition} (h : DefinitionList sect ts ds) :
    ¬ StartsWithListSep ts := by
  cases h with
  | empty =>
    rintro ⟨t, ht, _⟩
    cases ht
  | cons hdef hrest =>
    cases hdef with
    | mk hkey heq hvalue =>
      exact not_startsWithListSep_of_type hkey (by decide) (by decide)

theorem SectionList.not_startsWithListSep {ts : List Token} {ds : List ConfDefinition}
    (h : SectionList ts ds) : ¬ StartsWithListSep ts := by
  cases h with
  | empty =>
    rintro ⟨t, ht, _⟩
    cases ht
  | cons hsect hrest =>
    cases hsect with
    | mk hleft hname hright hdefs =>
      exact not_startsWithListSep_of_type hleft (by decide) (by decide)

/-- A value with its key ends where its string list ends. -/
theorem Value.closed_strings {t : Token} {ts rest : List Token} {vs : List CString}
    {before : List Token} (ht : t.type = .string) (h : OptStringList ts vs)
    (hclosed : Closed (before ++ t :: ts) rest) : ¬ StartsWithListSep rest := by
  obtain ⟨last, hlast, htype⟩ := h.getLast? ht
  exact hclosed.right ⟨last, hlast, htype⟩

end Armadito.Conf
