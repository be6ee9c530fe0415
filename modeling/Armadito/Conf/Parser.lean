import Armadito.Conf.Scanner

/-!
# Conf.Parser

The recursive descent parser of `confparser.c`. Its functions work on the
parser record and return nothing; an error leaves all of them at once by
`longjmp`. A function of the model returns the record, by either way.

`pending` is the list of the tokens that are still to be accepted. Every
accepted token shortens it, so it bounds the recursions.
-/

namespace Armadito.Conf

/-- `enum a6o_conf_value_type`. -/
inductive A6oConfValueType where
  | void
  | int
  | string
  | list
  deriving DecidableEq, Repr

/-- The text of the lookahead token is the scanner's `token_text`. -/
structure A6oConfParser (σ : Type) where
  scanner : List Char
  lookahead : Token
  currentSection : Option CString
  currentKey : Option CString
  currentValueType : A6oConfValueType
  currentValueInt : Int
  currentValueString : Option CString
  currentValueList : List CString
  userData : σ

/-- `conf_parser_callback_t`: the status and the new user data. -/
abbrev ConfParserCallback (σ : Type) :=
  CString → CString → A6oConfValue → σ → Int × σ

/-- How a parser function is left. -/
inductive Flow (σ : Type) where
  | next (cp : A6oConfParser σ)
  | longjmp (cp : A6oConfParser σ)

namespace Flow

variable {σ : Type}

/-- The rest of a function, which a `longjmp` leaves out. -/
def bind (x : Flow σ) (f : A6oConfParser σ → Flow σ) : Flow σ :=
  match x with
  | next cp => f cp
  | longjmp cp => longjmp cp

@[simp] theorem next_bind (cp : A6oConfParser σ) (f : A6oConfParser σ → Flow σ) :
    (next cp).bind f = f cp := rfl

@[simp] theorem longjmp_bind (cp : A6oConfParser σ) (f : A6oConfParser σ → Flow σ) :
    (longjmp cp).bind f = longjmp cp := rfl

theorem bind_eq_next {x : Flow σ} {f : A6oConfParser σ → Flow σ} {cp : A6oConfParser σ} :
    x.bind f = next cp ↔ ∃ cp', x = next cp' ∧ f cp' = next cp := by
  cases x <;> simp [bind]

theorem bind_assoc (x : Flow σ) (f g : A6oConfParser σ → Flow σ) :
    (x.bind f).bind g = x.bind fun cp => (f cp).bind g := by
  cases x <;> rfl

end Flow

variable {σ : Type}

/-! ## Tokens -/

/-- The lookahead token and what the scanner will deliver after it. -/
def pending (cp : A6oConfParser σ) : List Token :=
  if cp.lookahead.type = .eof then [cp.lookahead]
  else cp.lookahead :: tokens cp.lookahead.type cp.scanner

/-- The parser with the next token as lookahead. -/
def advance (cp : A6oConfParser σ) (token : TokenType) : A6oConfParser σ :=
  { cp with
    lookahead := (scannerGetNextToken token cp.scanner).1
    scanner := (scannerGetNextToken token cp.scanner).2 }

/-- Anything but the expected token is a `syntax_error`. -/
def tokenAccept (cp : A6oConfParser σ) (token : TokenType) : Flow σ :=
  if cp.lookahead.type = token then
    if cp.lookahead.type ≠ .eof then .next (advance cp token) else .next cp
  else .longjmp cp

theorem pending_advance (cp : A6oConfParser σ) (token : TokenType) :
    pending (advance cp token) = tokens token cp.scanner := by
  rw [tokens]
  rfl

/-- Accepting a token takes it off the pending ones. -/
theorem tokenAccept_of_eq {cp : A6oConfParser σ} {token : TokenType}
    (h : cp.lookahead.type = token) (htoken : token ≠ .eof) :
    tokenAccept cp token = .next (advance cp token) ∧
      pending cp = cp.lookahead :: pending (advance cp token) := by
  constructor
  · rw [tokenAccept, if_pos h, if_pos (by rw [h]; exact htoken)]
  · rw [pending_advance, pending, if_neg (by rw [h]; exact htoken), h]

theorem tokenAccept_of_ne {cp : A6oConfParser σ} {token : TokenType}
    (h : cp.lookahead.type ≠ token) : tokenAccept cp token = .longjmp cp :=
  if_neg h

theorem tokenAccept_eq_next {cp cp' : A6oConfParser σ} {token : TokenType}
    (htoken : token ≠ .eof) (h : tokenAccept cp token = .next cp') :
    cp.lookahead.type = token ∧ cp' = advance cp token ∧
      pending cp = cp.lookahead :: pending cp' := by
  by_cases heq : cp.lookahead.type = token
  · obtain ⟨haccept, hpending⟩ := tokenAccept_of_eq heq htoken
    rw [haccept] at h
    cases h
    exact ⟨heq, rfl, hpending⟩
  · rw [tokenAccept_of_ne heq] at h
    cases h

/-! ## Values -/

/-- The digits of an INTEGER token: `strtol` stops at the largest `long`,
of which `atoi` keeps the low 32 bits. -/
def atoi (digits : CString) : Int :=
  toInt32 (min (Nat.ofDigitChars 10 digits 0) (2 ^ 63 - 1))

/-- The end of `call_callback`. -/
def afterCallback (cp : A6oConfParser σ) (ret : Int × σ) : Flow σ :=
  let cp := { cp with currentValueType := .void, userData := ret.2 }
  if ret.1 ≠ 0 then .longjmp cp else .next cp

/-- The section and the key are set whenever a definition is complete. -/
def callCallback (callback : ConfParserCallback σ) (cp : A6oConfParser σ) : Flow σ :=
  let call (value : A6oConfValue) : Int × σ :=
    callback (cp.currentSection.getD []) (cp.currentKey.getD []) value cp.userData
  match cp.currentValueType with
  | .int => afterCallback cp (call (.int cp.currentValueInt))
  | .string =>
    afterCallback { cp with currentValueString := none }
      (call (.string (cp.currentValueString.getD [])))
  | .list =>
    afterCallback { cp with currentValueList := [] } (call (.list cp.currentValueList))
  | .void => afterCallback cp (0, cp.userData)

/-- `int_value : INTEGER`. -/
def rIntValue (cp : A6oConfParser σ) : Flow σ :=
  tokenAccept
    { cp with
      currentValueType := .int
      currentValueInt := atoi (osStrdup cp.lookahead.text) } .integer

/-- `string_value : STRING`. -/
def rStringValue (cp : A6oConfParser σ) : Flow σ :=
  tokenAccept
    { cp with
      currentValueType := .string
      currentValueString := some (osStrdup cp.lookahead.text) } .string

/-- `list_sep : ',' | ';'`. -/
def rListSep (cp : A6oConfParser σ) : Flow σ :=
  if cp.lookahead.type = .comma then tokenAccept cp .comma else tokenAccept cp .semiColon

/-- The string value read before becomes the first element of the list. -/
def startList (cp : A6oConfParser σ) : A6oConfParser σ :=
  match cp.currentValueString with
  | some first =>
    { cp with
      currentValueType := .list
      currentValueList := cp.currentValueList ++ [osStrdup first]
      currentValueString := none }
  | none => cp

/-- `list_string_value : STRING`. -/
def rListStringValue (cp : A6oConfParser σ) : Flow σ :=
  let cp := startList cp
  tokenAccept
    { cp with currentValueList := cp.currentValueList ++ [osStrdup cp.lookahead.text] } .string

/-- The separator and the string of one more list element. -/
def rListElement (cp : A6oConfParser σ) : Flow σ :=
  (rListSep cp).bind rListStringValue

theorem startList_pending (cp : A6oConfParser σ) : pending (startList cp) = pending cp := by
  unfold startList
  split <;> rfl

theorem rListSep_length {cp cp' : A6oConfParser σ} (h : rListSep cp = .next cp') :
    (pending cp').length < (pending cp).length := by
  have hlen : ∀ token, token ≠ .eof → tokenAccept cp token = .next cp' →
      (pending cp').length < (pending cp).length := by
    intro token hne haccept
    rw [(tokenAccept_eq_next hne haccept).2.2]
    exact Nat.lt_succ_self _
  unfold rListSep at h
  split at h
  · exact hlen _ (by decide) h
  · exact hlen _ (by decide) h

theorem rListStringValue_length {cp cp' : A6oConfParser σ}
    (h : rListStringValue cp = .next cp') :
    (pending cp').length < (pending cp).length := by
  have hpending := (tokenAccept_eq_next (by decide) h).2.2
  rw [← startList_pending cp]
  have : pending (startList cp) = _ :: pending cp' := hpending
  rw [this]
  exact Nat.lt_succ_self _

theorem rListElement_length {cp cp' : A6oConfParser σ} (h : rListElement cp = .next cp') :
    (pending cp').length < (pending cp).length := by
  obtain ⟨mid, hsep, hstr⟩ := Flow.bind_eq_next.mp h
  exact (rListStringValue_length hstr).trans (rListSep_length hsep)

/-- `opt_string_list : list_sep list_string_value opt_string_list | EMPTY`. -/
def rOptStringList (cp : A6oConfParser σ) : Flow σ :=
  if cp.lookahead.type = .comma ∨ cp.lookahead.type = .semiColon then
    match _h : rListElement cp with
    | .next cp' => rOptStringList cp'
    | .longjmp cp' => .longjmp cp'
  else .next cp
termination_by (pending cp).length
decreasing_by exact rListElement_length ‹_›

theorem rOptStringList_length (cp : A6oConfParser σ) :
    ∀ {cp' : A6oConfParser σ}, rOptStringList cp = .next cp' →
      (pending cp').length ≤ (pending cp).length := by
  fun_induction rOptStringList cp with
  | case1 cp hsep cp₁ helem ih =>
    intro cp' h
    exact (ih h).trans (rListElement_length helem).le
  | case2 cp hsep cp₁ helem =>
    intro cp' h
    cases h
  | case3 cp hsep =>
    intro cp' h
    cases h
    exact Nat.le_refl _

/-- `value : int_value | string_value opt_string_list`. -/
def rValue (cp : A6oConfParser σ) : Flow σ :=
  if cp.lookahead.type = .integer then rIntValue cp
  else if cp.lookahead.type = .string then (rStringValue cp).bind rOptStringList
  else .longjmp cp

/-! ## Definitions and sections -/

variable (callback : ConfParserCallback σ)

/-- `key : STRING`; the key is stored before it is accepted. -/
def rKey (cp : A6oConfParser σ) : Flow σ :=
  tokenAccept { cp with currentKey := some (osStrdup cp.lookahead.text) } .string

/-- `definition : key '=' value`. -/
def rDefinition (cp : A6oConfParser σ) : Flow σ :=
  (rKey cp).bind fun cp =>
  (tokenAccept cp .equalSign).bind fun cp =>
  (rValue cp).bind (callCallback callback)

theorem rKey_length {cp cp' : A6oConfParser σ} (h : rKey cp = .next cp') :
    (pending cp').length < (pending cp).length := by
  have hpending : pending cp = _ :: pending cp' := (tokenAccept_eq_next (by decide) h).2.2
  rw [hpending]
  exact Nat.lt_succ_self _

theorem rValue_length {cp cp' : A6oConfParser σ} (h : rValue cp = .next cp') :
    (pending cp').length < (pending cp).length := by
  unfold rValue at h
  split at h
  · have hpending : pending cp = _ :: pending cp' := (tokenAccept_eq_next (by decide) h).2.2
    rw [hpending]
    exact Nat.lt_succ_self _
  · split at h
    · obtain ⟨mid, hstr, hlist⟩ := Flow.bind_eq_next.mp h
      have hpending : pending cp = _ :: pending mid :=
        (tokenAccept_eq_next (by decide) hstr).2.2
      rw [hpending]
      exact Nat.lt_succ_of_le (rOptStringList_length mid hlist)
    · cases h

/-- The callback takes no token. -/
theorem callCallback_pending {cp cp' : A6oConfParser σ}
    (h : callCallback callback cp = .next cp') : pending cp' = pending cp := by
  have hafter : ∀ (cp : A6oConfParser σ) (ret : Int × σ),
      afterCallback cp ret = .next cp' → pending cp' = pending cp := by
    intro cp ret h
    unfold afterCallback at h
    split at h
    · cases h
    · cases h
      rfl
  unfold callCallback at h
  split at h
  · exact hafter cp _ h
  · exact hafter { cp with currentValueString := none } _ h
  · exact hafter { cp with currentValueList := [] } _ h
  · exact hafter cp _ h

theorem rDefinition_length {cp cp' : A6oConfParser σ}
    (h : rDefinition callback cp = .next cp') :
    (pending cp').length < (pending cp).length := by
  obtain ⟨cp₁, hkey, h⟩ := Flow.bind_eq_next.mp h
  obtain ⟨cp₂, heq, h⟩ := Flow.bind_eq_next.mp h
  obtain ⟨cp₃, hvalue, h⟩ := Flow.bind_eq_next.mp h
  have h1 := rKey_length hkey
  have h2 := (tokenAccept_eq_next (by decide) heq).2.2
  have h3 := rValue_length hvalue
  rw [callCallback_pending callback h]
  rw [h2, List.length_cons] at h1
  omega

/-- `definition_list : definition definition_list | EMPTY`. -/
def rDefinitionList (cp : A6oConfParser σ) : Flow σ :=
  if cp.lookahead.type = .string then
    match _h : rDefinition callback cp with
    | .next cp' => rDefinitionList cp'
    | .longjmp cp' => .longjmp cp'
  else .next cp
termination_by (pending cp).length
decreasing_by exact rDefinition_length callback ‹_›

theorem rDefinitionList_length (cp : A6oConfParser σ) :
    ∀ {cp' : A6oConfParser σ}, rDefinitionList callback cp = .next cp' →
      (pending cp').length ≤ (pending cp).length := by
  fun_induction rDefinitionList callback cp with
  | case1 cp hstr cp₁ hdef ih =>
    intro cp' h
    exact (ih h).trans (rDefinition_length callback hdef).le
  | case2 cp hstr cp₁ hdef =>
    intro cp' h
    cases h
  | case3 cp hstr =>
    intro cp' h
    cases h
    exact Nat.le_refl _

/-- `section_name : STRING`; the name is stored before it is accepted. -/
def rSectionName (cp : A6oConfParser σ) : Flow σ :=
  tokenAccept { cp with currentSection := some (osStrdup cp.lookahead.text) } .string

/-- The tokens `'[' section_name ']'` of a section. -/
def rSectionHead (cp : A6oConfParser σ) : Flow σ :=
  (tokenAccept cp .leftBrace).bind fun cp =>
  (rSectionName cp).bind fun cp => tokenAccept cp .rightBrace

/-- `section : '[' section_name ']' definition_list`. -/
def rSection (cp : A6oConfParser σ) : Flow σ :=
  (rSectionHead cp).bind (rDefinitionList callback)

theorem rSectionHead_length {cp cp' : A6oConfParser σ} (h : rSectionHead cp = .next cp') :
    (pending cp').length < (pending cp).length := by
  obtain ⟨cp₁, hleft, h⟩ := Flow.bind_eq_next.mp h
  obtain ⟨cp₂, hname, hright⟩ := Flow.bind_eq_next.mp h
  have h1 := (tokenAccept_eq_next (by decide) hleft).2.2
  have h2 : pending cp₁ = _ :: pending cp₂ := (tokenAccept_eq_next (by decide) hname).2.2
  have h3 := (tokenAccept_eq_next (by decide) hright).2.2
  rw [h1, h2, h3]
  simp only [List.length_cons]
  omega

theorem rSection_length {cp cp' : A6oConfParser σ} (h : rSection callback cp = .next cp') :
    (pending cp').length < (pending cp).length := by
  obtain ⟨mid, hhead, hlist⟩ := Flow.bind_eq_next.mp h
  exact (rDefinitionList_length callback mid hlist).trans_lt (rSectionHead_length hhead)

/-- `section_list : section section_list | EMPTY`. -/
def rSectionList (cp : A6oConfParser σ) : Flow σ :=
  if cp.lookahead.type = .leftBrace then
    match _h : rSection callback cp with
    | .next cp' => rSectionList cp'
    | .longjmp cp' => .longjmp cp'
  else .next cp
termination_by (pending cp).length
decreasing_by exact rSection_length callback ‹_›

/-- `configuration : section_list`. -/
def rConfiguration (cp : A6oConfParser σ) : Flow σ := rSectionList callback cp

/-! ## The entry point -/

/-- The parser at the start of a file: the first token is read with no
token before it. -/
def parserStart (text : List Char) (userData : σ) : A6oConfParser σ :=
  { scanner := (scannerGetNextToken .none text).2
    lookahead := (scannerGetNextToken .none text).1
    currentSection := none
    currentKey := none
    currentValueType := .void
    currentValueInt := 0
    currentValueString := none
    currentValueList := []
    userData }

/-- `a6o_conf_parser_new` and `a6o_conf_parser_parse` on the contents of
the file, NULL when it cannot be opened: the status and the user data. -/
def a6oConfParserParse (file : Option (List Char)) (userData : σ) : Int × σ :=
  match file with
  | none => (-1, userData)
  | some text =>
    match (rConfiguration callback (parserStart text userData)).bind
        fun cp => tokenAccept cp .eof with
    | .next cp => (0, cp.userData)
    | .longjmp cp => (-2, cp.userData)

theorem pending_parserStart (text : List Char) (userData : σ) :
    pending (parserStart text userData) = tokens .none text := by
  rw [tokens]
  rfl

end Armadito.Conf
