import Armadito.Conf.Grammar

/-!
# Conf.Accept

The parser against the grammar. For each rule there are two lemmas: when
the pending tokens begin with a derivation of the rule, its function takes
just these tokens; and when they do not, it leaves by `longjmp` and makes
no call. `feed` is what a list of definitions does to the user data.
-/

namespace Armadito.Conf

variable {σ : Type} {cp : A6oConfParser σ}

/-! ## The state between definitions -/

/-- No value is under construction. -/
structure Clean (cp : A6oConfParser σ) : Prop where
  type : cp.currentValueType = .void
  string : cp.currentValueString = none
  list : cp.currentValueList = []

/-- The fields a value leaves alone. -/
structure SameContext (cp cp' : A6oConfParser σ) : Prop where
  sect : cp'.currentSection = cp.currentSection
  key : cp'.currentKey = cp.currentKey
  userData : cp'.userData = cp.userData

/-- The strings read so far: the first one, and the others. -/
structure StringsSoFar (cp : A6oConfParser σ) (first : CString) (more : List CString) :
    Prop where
  type : cp.currentValueType = if more = [] then .string else .list
  string : cp.currentValueString = if more = [] then some first else none
  list : cp.currentValueList = if more = [] then [] else first :: more

/-- The value is complete. -/
inductive HasValue (cp : A6oConfParser σ) : A6oConfValue → Prop where
  | int (htype : cp.currentValueType = .int) (hstring : cp.currentValueString = none)
      (hlist : cp.currentValueList = []) : HasValue cp (.int cp.currentValueInt)
  | strings {first : CString} {more : List CString} (h : StringsSoFar cp first more) :
      HasValue cp (stringsValue first more)

theorem pending_eq_cons (cp : A6oConfParser σ) : ∃ ts, pending cp = cp.lookahead :: ts := by
  unfold pending
  split
  · exact ⟨[], rfl⟩
  · exact ⟨_, rfl⟩

/-- The lookahead token is the first of the pending ones. -/
theorem lookahead_of_pending {t : Token} {ts : List Token} (h : pending cp = t :: ts) :
    cp.lookahead = t := by
  obtain ⟨ts', hts'⟩ := pending_eq_cons cp
  rw [hts'] at h
  injection h

theorem startsWithListSep_pending :
    StartsWithListSep (pending cp) ↔
      cp.lookahead.type = .comma ∨ cp.lookahead.type = .semiColon := by
  obtain ⟨ts, hts⟩ := pending_eq_cons cp
  rw [hts, startsWithListSep_cons]
  rfl

variable (cp) in
/-- Accepting the first pending token. -/
theorem tokenAccept_pending {t : Token} {ts : List Token} {type : TokenType}
    (h : pending cp = t :: ts) (ht : t.type = type) (hne : type ≠ .eof) :
    tokenAccept cp type = .next (advance cp type) ∧ pending (advance cp type) = ts := by
  have hlook : cp.lookahead.type = type := by rw [lookahead_of_pending h, ht]
  obtain ⟨haccept, hpending⟩ := tokenAccept_of_eq hlook hne
  refine ⟨haccept, ?_⟩
  rw [hpending] at h
  injection h

/-! ## Functions that make no call -/

/-- The parser after a function that went on or jumped out. -/
def Flow.parser : Flow σ → A6oConfParser σ
  | .next cp => cp
  | .longjmp cp => cp

/-- The function leaves the user data alone, however it is left. -/
def Quiet (f : A6oConfParser σ → Flow σ) : Prop :=
  ∀ cp, (f cp).parser.userData = cp.userData

theorem Quiet.bind {f g : A6oConfParser σ → Flow σ} (hf : Quiet f) (hg : Quiet g) :
    Quiet fun cp => (f cp).bind g := by
  intro cp
  have h := hf cp
  show ((f cp).bind g).parser.userData = cp.userData
  cases hfcp : f cp with
  | next cp' =>
    rw [hfcp] at h
    exact (hg cp').trans h
  | longjmp cp' =>
    rw [hfcp] at h
    exact h

theorem tokenAccept_quiet (type : TokenType) :
    Quiet fun cp : A6oConfParser σ => tokenAccept cp type := by
  intro cp
  show (tokenAccept cp type).parser.userData = cp.userData
  unfold tokenAccept
  split_ifs <;> rfl

theorem rListSep_quiet : Quiet (@rListSep σ) := by
  intro cp
  unfold rListSep
  split_ifs
  · exact tokenAccept_quiet _ cp
  · exact tokenAccept_quiet _ cp

theorem rListStringValue_quiet : Quiet (@rListStringValue σ) := by
  intro cp
  refine (tokenAccept_quiet _ _).trans ?_
  show (startList cp).userData = cp.userData
  unfold startList
  split <;> rfl

theorem rListElement_quiet : Quiet (@rListElement σ) :=
  rListSep_quiet.bind rListStringValue_quiet

theorem rOptStringList_quiet : Quiet (@rOptStringList σ) := by
  intro cp
  fun_induction rOptStringList cp with
  | case1 cp hsep cp₁ helem ih =>
    have h := rListElement_quiet cp
    rw [helem] at h
    exact ih.trans h
  | case2 cp hsep cp₁ helem =>
    have h := rListElement_quiet cp
    rw [helem] at h
    exact h
  | case3 cp hsep => rfl

theorem rValue_quiet : Quiet (@rValue σ) := by
  intro cp
  unfold rValue
  split_ifs
  · exact tokenAccept_quiet _ _
  · have hstring : Quiet (@rStringValue σ) := fun cp => tokenAccept_quiet _ _
    exact hstring.bind rOptStringList_quiet cp
  · rfl

/-- A function that fails quietly. -/
theorem Quiet.longjmp {f : A6oConfParser σ → Flow σ} (hf : Quiet f)
    {cp' : A6oConfParser σ} (h : f cp = .longjmp cp') : cp'.userData = cp.userData := by
  have := hf cp
  rwa [h] at this

/-! ## String lists -/

theorem osStrdup_osStrdup (buffer : List Char) : osStrdup (osStrdup buffer) = osStrdup buffer :=
  osStrdup_of_noNul (osStrdup_noNul buffer)

/-- The separator in front of an element is accepted, whichever it is. -/
theorem rListSep_accept {sep : Token} {ts : List Token} (hsep : IsListSep sep)
    (h : pending cp = sep :: ts) :
    ∃ type, rListSep cp = .next (advance cp type) ∧ pending (advance cp type) = ts := by
  have hlook := lookahead_of_pending h
  rcases hsep with hsep | hsep
  · obtain ⟨hnext, hrest⟩ := tokenAccept_pending _ h hsep (by decide)
    refine ⟨_, ?_, hrest⟩
    rw [rListSep, if_pos (by rw [hlook, hsep]), hnext]
  · obtain ⟨hnext, hrest⟩ := tokenAccept_pending _ h hsep (by decide)
    refine ⟨_, ?_, hrest⟩
    rw [rListSep, if_neg (by rw [hlook, hsep]; decide), hnext]

/-- One more string: the first one after it moves to the list with it. -/
theorem rListStringValue_accept {str : Token} {ts : List Token} (hstr : str.type = .string)
    (h : pending cp = str :: ts) {first : CString} {more : List CString}
    (hfirst : osStrdup first = first) (hsofar : StringsSoFar cp first more) :
    ∃ cp', rListStringValue cp = .next cp' ∧ pending cp' = ts ∧ SameContext cp cp' ∧
      StringsSoFar cp' first (more ++ [osStrdup str.text]) := by
  have hlook := lookahead_of_pending h
  obtain ⟨htype, hstring, hlist⟩ := hsofar
  -- the second string turns the value into a list, later ones find it there
  by_cases hmore : more = []
  · subst hmore
    have hstart : startList cp = { cp with
        currentValueType := .list
        currentValueList := [first]
        currentValueString := none } := by
      simp [startList, hstring, hlist, hfirst]
    obtain ⟨hnext, hrest⟩ := tokenAccept_pending
      { cp with
        currentValueType := .list
        currentValueList := [first] ++ [osStrdup cp.lookahead.text]
        currentValueString := none } h hstr (by decide)
    simp only [rListStringValue, hstart]
    refine ⟨_, hnext, hrest, ⟨rfl, rfl, rfl⟩, ?_⟩
    rw [hlook]
    constructor <;> simp [advance]
  · rw [if_neg hmore] at htype hstring hlist
    have hstart : startList cp = cp := by
      simp [startList, hstring]
    obtain ⟨hnext, hrest⟩ := tokenAccept_pending
      { cp with
        currentValueList := cp.currentValueList ++ [osStrdup cp.lookahead.text] }
      h hstr (by decide)
    simp only [rListStringValue, hstart]
    refine ⟨_, hnext, hrest, ⟨rfl, rfl, rfl⟩, ?_⟩
    rw [hlook]
    constructor <;> simp [advance, htype, hstring, hlist]

theorem StringsSoFar.advance {first : CString} {more : List CString}
    (h : StringsSoFar cp first more) (type : TokenType) :
    StringsSoFar (advance cp type) first more :=
  ⟨h.type, h.string, h.list⟩

theorem SameContext.trans {cp₁ cp₂ : A6oConfParser σ} (h : SameContext cp cp₁)
    (h' : SameContext cp₁ cp₂) : SameContext cp cp₂ :=
  ⟨h'.sect.trans h.sect, h'.key.trans h.key, h'.userData.trans h.userData⟩

/-- The function for the rest of a string list takes a whole one. -/
theorem rOptStringList_accept {ts : List Token} {vs : List CString}
    (hts : OptStringList ts vs) :
    ∀ {cp : A6oConfParser σ} {rest : List Token} {first : CString} {more : List CString},
      pending cp = ts ++ rest → ¬ StartsWithListSep rest → osStrdup first = first →
      StringsSoFar cp first more →
      ∃ cp', rOptStringList cp = .next cp' ∧ pending cp' = rest ∧ SameContext cp cp' ∧
        StringsSoFar cp' first (more ++ vs) := by
  induction hts with
  | empty =>
    intro cp rest first more h hrest hfirst hsofar
    rw [List.nil_append] at h
    rw [← h, startsWithListSep_pending] at hrest
    refine ⟨cp, ?_, h, ⟨rfl, rfl, rfl⟩, by simpa using hsofar⟩
    rw [rOptStringList, if_neg hrest]
  | cons hsep hstr _ ih =>
    intro cp rest first more h hrest hfirst hsofar
    obtain ⟨type, hnext₁, hpend₁⟩ := rListSep_accept hsep h
    obtain ⟨cp₂, hnext₂, hpend₂, hsame₂, hsofar₂⟩ :=
      rListStringValue_accept hstr hpend₁ hfirst (hsofar.advance type)
    obtain ⟨cp', hnext, hpend, hsame, hsofar'⟩ := ih hpend₂ hrest hfirst hsofar₂
    have helem : rListElement cp = .next cp₂ := by
      rw [rListElement, hnext₁, Flow.next_bind, hnext₂]
    have hlook : cp.lookahead.type = .comma ∨ cp.lookahead.type = .semiColon := by
      rw [← startsWithListSep_pending, h, List.cons_append, startsWithListSep_cons]
      exact hsep
    have hsame₁ : SameContext cp cp₂ := ⟨hsame₂.sect, hsame₂.key, hsame₂.userData⟩
    refine ⟨cp', ?_, hpend, hsame₁.trans hsame, by simpa using hsofar'⟩
    rw [rOptStringList, if_pos hlook]
    split
    · next cp₃ heq =>
      rw [helem] at heq
      cases heq
      exact hnext
    · next cp₃ heq =>
      rw [helem] at heq
      cases heq

theorem rListElement_eq_next {cp' : A6oConfParser σ} (h : rListElement cp = .next cp') :
    ∃ sep str, IsListSep sep ∧ str.type = .string ∧ pending cp = sep :: str :: pending cp' := by
  obtain ⟨mid, hsep, hstr⟩ := Flow.bind_eq_next.mp h
  obtain ⟨htype, -, hpend⟩ := tokenAccept_eq_next (by decide) hstr
  have hlook : (startList mid).lookahead = mid.lookahead := by
    unfold startList
    split <;> rfl
  have hmid : pending mid = (startList mid).lookahead :: pending cp' := by
    rw [← startList_pending mid]
    exact hpend
  unfold rListSep at hsep
  split_ifs at hsep with hcomma
  · obtain ⟨hcomma, -, hcp⟩ := tokenAccept_eq_next (by decide) hsep
    exact ⟨_, _, .inl hcomma, htype, by rw [hcp, hmid]⟩
  · obtain ⟨hsemi, -, hcp⟩ := tokenAccept_eq_next (by decide) hsep
    exact ⟨_, _, .inr hsemi, htype, by rw [hcp, hmid]⟩

/-- The pending tokens begin with a string list that goes no further, or
the function leaves. -/
theorem rOptStringList_cases (cp : A6oConfParser σ) :
    (∃ ts vs rest, OptStringList ts vs ∧ pending cp = ts ++ rest ∧ ¬ StartsWithListSep rest) ∨
      ∃ cp', rOptStringList cp = .longjmp cp' := by
  fun_induction rOptStringList cp with
  | case1 cp hsep cp₁ helem ih =>
    obtain ⟨sep, str, hs, hstr, hpend⟩ := rListElement_eq_next helem
    rcases ih with ⟨ts, vs, rest, hts, hrest, hno⟩ | hjump
    · refine .inl ⟨sep :: str :: ts, _, rest, .cons hs hstr hts, ?_, hno⟩
      rw [hpend, hrest]
      rfl
    · exact .inr hjump
  | case2 cp hsep cp₁ helem => exact .inr ⟨cp₁, rfl⟩
  | case3 cp hsep =>
    refine .inl ⟨[], [], pending cp, .empty, rfl, ?_⟩
    rw [startsWithListSep_pending]
    exact hsep

/-! ## Values -/

theorem rValue_accept (before : List Token) {ts rest : List Token} {v : A6oConfValue}
    (hts : Value ts v) (h : pending cp = ts ++ rest) (hclosed : Closed (before ++ ts) rest)
    (hclean : Clean cp) :
    ∃ cp', rValue cp = .next cp' ∧ pending cp' = rest ∧ SameContext cp cp' ∧
      HasValue cp' v := by
  cases hts with
  | @int t ht =>
    have hlook := lookahead_of_pending h
    obtain ⟨hnext, hrest⟩ := tokenAccept_pending
      { cp with
        currentValueType := .int
        currentValueInt := atoi (osStrdup cp.lookahead.text) } h ht (by decide)
    refine ⟨_, ?_, hrest, ⟨rfl, rfl, rfl⟩, ?_⟩
    · rw [rValue, if_pos (by rw [hlook, ht]), rIntValue, hnext]
    · rw [← hlook]
      exact .int rfl hclean.string hclean.list
  | @strings t ts vs ht hlist =>
    have hlook := lookahead_of_pending h
    -- a value that is closed does not go on in `rest`
    have hno := Value.closed_strings ht hlist hclosed
    obtain ⟨hnext₁, hpend₁⟩ := tokenAccept_pending
      { cp with
        currentValueType := .string
        currentValueString := some (osStrdup cp.lookahead.text) } h ht (by decide)
    have hsofar : StringsSoFar (advance { cp with
        currentValueType := .string
        currentValueString := some (osStrdup cp.lookahead.text) } .string)
        (osStrdup t.text) [] := by
      rw [hlook]
      exact ⟨rfl, rfl, hclean.list⟩
    obtain ⟨cp', hnext, hpend, hsame, hsofar'⟩ := rOptStringList_accept hlist hpend₁ hno
      (osStrdup_osStrdup t.text) hsofar
    refine ⟨cp', ?_, hpend, ⟨hsame.sect, hsame.key, hsame.userData⟩, .strings hsofar'⟩
    have hne : cp.lookahead.type ≠ .integer := by
      rw [hlook, ht]
      decide
    rw [rValue, if_neg hne, if_pos (by rw [hlook, ht]), rStringValue, hnext₁,
      Flow.next_bind, hnext]

theorem rValue_cases (before : List Token) (cp : A6oConfParser σ) :
    (∃ ts v rest, Value ts v ∧ pending cp = ts ++ rest ∧ Closed (before ++ ts) rest) ∨
      ∃ cp', rValue cp = .longjmp cp' := by
  obtain ⟨ts, hts⟩ := pending_eq_cons cp
  by_cases hint : cp.lookahead.type = .integer
  · exact .inl ⟨[cp.lookahead], _, ts, .int hint, hts,
      closed_concat (by rw [hint]; decide) before ts⟩
  · by_cases hstr : cp.lookahead.type = .string
    · obtain ⟨hnext, hpend⟩ := tokenAccept_pending
        { cp with
          currentValueType := .string
          currentValueString := some (osStrdup cp.lookahead.text) } hts hstr (by decide)
      rcases rOptStringList_cases (advance { cp with
          currentValueType := .string
          currentValueString := some (osStrdup cp.lookahead.text) } .string) with
        ⟨ts', vs, rest, hlist, hrest, hno⟩ | ⟨cp', hjump⟩
      · refine .inl ⟨_, _, rest, .strings hstr hlist, ?_, fun _ => hno⟩
        rw [hts, ← hpend, hrest]
        rfl
      · refine .inr ⟨cp', ?_⟩
        rw [rValue, if_neg hint, if_pos hstr, rStringValue, hnext, Flow.next_bind, hjump]
    · exact .inr ⟨cp, by rw [rValue, if_neg hint, if_neg hstr]⟩

/-! ## Definitions -/

variable (callback : ConfParserCallback σ)

/-- The call for one definition. -/
def callOn (d : ConfDefinition) (u : σ) : Int × σ :=
  callback d.sectionName d.key d.value u

/-- The calls for a list of definitions, up to the first that fails: the
user data, and whether none failed. -/
def feed : List ConfDefinition → σ → σ × Bool
  | [], u => (u, true)
  | d :: ds, u =>
    let r := callOn callback d u
    if r.1 ≠ 0 then (r.2, false) else feed ds r.2

/-- In this section, between definitions. -/
structure Within (sect : CString) (cp : A6oConfParser σ) : Prop where
  clean : Clean cp
  sect : cp.currentSection = some sect

/-- Left normally or by `longjmp`, according to the status of the call. -/
def afterCall (failed : Bool) (cp : A6oConfParser σ) : Flow σ :=
  if failed then .longjmp cp else .next cp

theorem callCallback_hasValue {sect key : CString} {v : A6oConfValue}
    (hsect : cp.currentSection = some sect) (hkey : cp.currentKey = some key)
    (hv : HasValue cp v) :
    ∃ cp', Within sect cp' ∧ pending cp' = pending cp ∧
      cp'.userData = (callback sect key v cp.userData).2 ∧
      callCallback callback cp =
        afterCall ((callback sect key v cp.userData).1 ≠ 0) cp' := by
  have hafter : ∀ (cp₁ : A6oConfParser σ) (ret : Int × σ),
      afterCallback cp₁ ret = afterCall (ret.1 ≠ 0)
        { cp₁ with currentValueType := .void, userData := ret.2 } := by
    intro cp₁ ret
    simp [afterCallback, afterCall]
  -- the type of the value says which of the arguments the callback gets
  cases hv with
  | int htype hstring hlist =>
    refine ⟨{ cp with
        currentValueType := .void
        userData := (callback sect key (.int cp.currentValueInt) cp.userData).2 },
      ⟨⟨rfl, hstring, hlist⟩, hsect⟩, rfl, rfl, ?_⟩
    simp only [callCallback, htype, hsect, hkey, Option.getD_some, hafter]
  | @strings first more hsofar =>
    obtain ⟨htype, hstring, hlist⟩ := hsofar
    by_cases hmore : more = []
    · rw [if_pos hmore] at htype hstring hlist
      rw [stringsValue, if_pos hmore]
      refine ⟨{ cp with
          currentValueString := none
          currentValueType := .void
          userData := (callback sect key (.string first) cp.userData).2 },
        ⟨⟨rfl, rfl, hlist⟩, hsect⟩, rfl, rfl, ?_⟩
      simp only [callCallback, htype, hsect, hkey, hstring, Option.getD_some, hafter]
    · rw [if_neg hmore] at htype hstring hlist
      rw [stringsValue, if_neg hmore]
      refine ⟨{ cp with
          currentValueList := []
          currentValueType := .void
          userData := (callback sect key (.list (first :: more)) cp.userData).2 },
        ⟨⟨rfl, hstring, rfl⟩, hsect⟩, rfl, rfl, ?_⟩
      simp only [callCallback, htype, hsect, hkey, hlist, Option.getD_some, hafter]

theorem rDefinition_accept {sect : CString} {ts rest : List Token} {d : ConfDefinition}
    (hts : DefinitionRule sect ts d) (h : pending cp = ts ++ rest) (hclosed : Closed ts rest)
    (hcp : Within sect cp) :
    ∃ cp', Within sect cp' ∧ pending cp' = rest ∧
      cp'.userData = (callOn callback d cp.userData).2 ∧
      rDefinition callback cp =
        afterCall ((callOn callback d cp.userData).1 ≠ 0) cp' := by
  cases hts with
  | @mk key eq ts v hkey heq hvalue =>
    have hlook := lookahead_of_pending h
    obtain ⟨hnext₁, hpend₁⟩ := tokenAccept_pending
      { cp with currentKey := some (osStrdup cp.lookahead.text) } h hkey (by decide)
    obtain ⟨hnext₂, hpend₂⟩ := tokenAccept_pending _ hpend₁ heq (by decide)
    obtain ⟨cp₃, hnext₃, hpend₃, hsame, hv⟩ := rValue_accept [key, eq] hvalue hpend₂
      hclosed ⟨hcp.clean.type, hcp.clean.string, hcp.clean.list⟩
    have hsect₃ : cp₃.currentSection = some sect := hsame.sect.trans hcp.sect
    have hkey₃ : cp₃.currentKey = some (osStrdup key.text) := by
      rw [hsame.key, ← hlook]
      rfl
    have huser₃ : cp₃.userData = cp.userData := hsame.userData
    obtain ⟨cp', hwithin, hpend', huser', hcall⟩ :=
      callCallback_hasValue callback hsect₃ hkey₃ hv
    rw [huser₃] at huser' hcall
    refine ⟨cp', hwithin, hpend'.trans hpend₃, huser', ?_⟩
    rw [rDefinition, rKey, hnext₁, Flow.next_bind, hnext₂, Flow.next_bind, hnext₃,
      Flow.next_bind, hcall]
    rfl

theorem rDefinition_cases (sect : CString) (cp : A6oConfParser σ) :
    (∃ ts d rest, DefinitionRule sect ts d ∧ pending cp = ts ++ rest ∧ Closed ts rest) ∨
      ∃ cp', rDefinition callback cp = .longjmp cp' ∧ cp'.userData = cp.userData := by
  obtain ⟨ts, hts⟩ := pending_eq_cons cp
  by_cases hkey : cp.lookahead.type = .string
  · obtain ⟨hnext₁, hpend₁⟩ := tokenAccept_pending
      { cp with currentKey := some (osStrdup cp.lookahead.text) } hts hkey (by decide)
    generalize hcp₁ : advance { cp with currentKey := some (osStrdup cp.lookahead.text) }
      .string = cp₁ at hnext₁ hpend₁
    have huser₁ : cp₁.userData = cp.userData := by rw [← hcp₁]; rfl
    obtain ⟨ts₁, hts₁⟩ := pending_eq_cons cp₁
    by_cases heq : cp₁.lookahead.type = .equalSign
    · obtain ⟨hnext₂, hpend₂⟩ := tokenAccept_pending _ hts₁ heq (by decide)
      rcases rValue_cases [cp.lookahead, cp₁.lookahead] (advance cp₁ .equalSign) with
        ⟨vs, v, rest, hv, hrest, hclosed⟩ | ⟨cp', hjump⟩
      · refine .inl ⟨_, _, rest, .mk hkey heq hv, ?_, hclosed⟩
        rw [hts, ← hpend₁, hts₁, ← hpend₂, hrest]
        rfl
      · refine .inr ⟨cp', ?_, (rValue_quiet.longjmp hjump).trans huser₁⟩
        rw [rDefinition, rKey, hnext₁, Flow.next_bind, hnext₂, Flow.next_bind, hjump,
          Flow.longjmp_bind]
    · refine .inr ⟨cp₁, ?_, huser₁⟩
      rw [rDefinition, rKey, hnext₁, Flow.next_bind, tokenAccept_of_ne heq,
        Flow.longjmp_bind]
  -- the key is stored before its token is refused
  · refine .inr ⟨{ cp with currentKey := some (osStrdup cp.lookahead.text) }, ?_, rfl⟩
    have hkey' : { cp with
        currentKey := some (osStrdup cp.lookahead.text) }.lookahead.type ≠ .string := hkey
    rw [rDefinition, rKey, tokenAccept_of_ne hkey', Flow.longjmp_bind]

/-- A definition list is taken definition by definition; the function goes
on behind it as if started there. -/
theorem rDefinitionList_accept {sect : CString} {ts : List Token} {ds : List ConfDefinition}
    (hts : DefinitionList sect ts ds) :
    ∀ {cp : A6oConfParser σ} {rest : List Token}, pending cp = ts ++ rest →
      Closed ts rest → Within sect cp →
      ∃ cp', cp'.userData = (feed callback ds cp.userData).1 ∧
        if (feed callback ds cp.userData).2 then
          rDefinitionList callback cp = rDefinitionList callback cp' ∧
            pending cp' = rest ∧ Within sect cp'
        else rDefinitionList callback cp = .longjmp cp' := by
  induction hts with
  | empty =>
    intro cp rest h _ hcp
    exact ⟨cp, rfl, rfl, h, hcp⟩
  | @cons ts ts' d ds hdef hrest ih =>
    intro cp rest h hclosed hcp
    rw [List.append_assoc] at h
    have hclosed₁ : Closed ts (ts' ++ rest) :=
      hclosed.left fun _ => hrest.not_startsWithListSep
    obtain ⟨cp₁, hwithin, hpend, huser, hcall⟩ := rDefinition_accept callback hdef h hclosed₁ hcp
    have hlook : cp.lookahead.type = .string := by
      cases hdef with
      | mk hkey _ _ => rw [lookahead_of_pending h]; exact hkey
    -- a call that fails leaves the whole list by `longjmp`
    by_cases hret : (callOn callback d cp.userData).1 ≠ 0
    · have hstop : rDefinitionList callback cp = .longjmp cp₁ := by
        rw [rDefinitionList, if_pos hlook]
        simp only [hret, ne_eq, not_false_eq_true, decide_true, afterCall, if_true] at hcall
        split
        · next heq => rw [hcall] at heq; cases heq
        · next heq => rw [hcall] at heq; cases heq; rfl
      refine ⟨cp₁, ?_, ?_⟩
      · rw [feed, if_pos hret, huser]
      · rw [feed, if_pos hret]
        exact hstop
    · have hgo : rDefinitionList callback cp = rDefinitionList callback cp₁ := by
        rw [rDefinitionList, if_pos hlook]
        simp only [hret, decide_false, afterCall, Bool.false_eq_true, if_false] at hcall
        split
        · next heq => rw [hcall] at heq; cases heq; rfl
        · next heq => rw [hcall] at heq; cases heq
      obtain ⟨cp', huser', hflow⟩ := ih hpend hclosed.right hwithin
      rw [huser] at huser' hflow
      refine ⟨cp', ?_, ?_⟩
      · rw [feed, if_neg hret, huser']
      · rw [feed, if_neg hret, hgo]
        exact hflow

/-! ## What is left behind -/

/-- A flow that has made the calls `r` says: left normally it has taken the
tokens up to `rest`. -/
def Flow.Outcome (rest : List Token) (r : σ × Bool) : Flow σ → Prop
  | .next cp => pending cp = rest ∧ Clean cp ∧ r = (cp.userData, true)
  | .longjmp cp => r.1 = cp.userData

theorem feed_cons_of_zero {d : ConfDefinition} {u : σ} (h : (callOn callback d u).1 = 0)
    (ds : List ConfDefinition) :
    feed callback (d :: ds) u = feed callback ds (callOn callback d u).2 := by
  rw [feed, if_neg (by simpa using h)]

theorem feed_cons_of_ne {d : ConfDefinition} {u : σ} (h : (callOn callback d u).1 ≠ 0)
    (ds : List ConfDefinition) :
    feed callback (d :: ds) u = ((callOn callback d u).2, false) := by
  rw [feed, if_pos h]

theorem feed_append (ds ds' : List ConfDefinition) (u : σ) :
    feed callback (ds ++ ds') u =
      if (feed callback ds u).2 then feed callback ds' (feed callback ds u).1
      else feed callback ds u := by
  induction ds generalizing u with
  | nil => rfl
  | cons d ds ih =>
    by_cases h : (callOn callback d u).1 = 0
    · rw [List.cons_append, feed_cons_of_zero callback h, feed_cons_of_zero callback h, ih]
    · rw [List.cons_append, feed_cons_of_ne callback h, feed_cons_of_ne callback h]
      rfl

/-- The definitions the list function makes calls for are a definition list
at the front of the pending tokens. -/
theorem rDefinitionList_sound (sect : CString) (cp : A6oConfParser σ) :
    Within sect cp →
      ∃ ts rest ds, DefinitionList sect ts ds ∧ pending cp = ts ++ rest ∧ Closed ts rest ∧
        (rDefinitionList callback cp).Outcome rest (feed callback ds cp.userData) := by
  fun_induction rDefinitionList callback cp with
  | case1 cp hstr cp₁ hdef ih =>
    intro hcp
    rcases rDefinition_cases callback sect cp with
      ⟨ts, d, rest, hts, hpend, hclosed⟩ | ⟨cp', hjump, -⟩
    · obtain ⟨cp', hwithin, hpend', huser, hflow⟩ :=
        rDefinition_accept callback hts hpend hclosed hcp
      have hret : (callOn callback d cp.userData).1 = 0 := by
        by_contra hne
        rw [hdef] at hflow
        simp [afterCall, hne] at hflow
      rw [hdef] at hflow
      simp only [afterCall, hret, ne_eq, not_true_eq_false, decide_false, Bool.false_eq_true,
        if_false, Flow.next.injEq] at hflow
      subst hflow
      obtain ⟨ts', rest', ds, hlist, hpend₁, hclosed₁, hout⟩ := ih hwithin
      refine ⟨ts ++ ts', rest', d :: ds, .cons hts hlist, ?_, ?_, ?_⟩
      · rw [hpend, ← hpend', hpend₁, List.append_assoc]
      · exact Closed.append (by rwa [← hpend₁, hpend']) hclosed₁
      · rwa [feed_cons_of_zero callback hret, ← huser]
    · rw [hdef] at hjump
      cases hjump
  | case2 cp hstr cp₁ hdef =>
    intro hcp
    rcases rDefinition_cases callback sect cp with
      ⟨ts, d, rest, hts, hpend, hclosed⟩ | ⟨cp', hjump, huser⟩
    · obtain ⟨cp', hwithin, hpend', huser, hflow⟩ :=
        rDefinition_accept callback hts hpend hclosed hcp
      have hret : (callOn callback d cp.userData).1 ≠ 0 := by
        intro heq
        rw [hdef] at hflow
        simp [afterCall, heq] at hflow
      rw [hdef] at hflow
      simp only [afterCall, hret, ne_eq, not_false_eq_true, decide_true, if_true,
        Flow.longjmp.injEq] at hflow
      subst hflow
      refine ⟨ts ++ [], rest, [d], .cons hts .empty, ?_, ?_, ?_⟩
      · rw [hpend, List.append_nil]
      · rwa [List.append_nil]
      · rw [feed_cons_of_ne callback hret]
        exact huser.symm
    · rw [hdef] at hjump
      cases hjump
      exact ⟨[], pending cp, [], .empty, rfl, closed_nil _, huser.symm⟩
  | case3 cp hstr =>
    intro hcp
    exact ⟨[], pending cp, [], .empty, rfl, closed_nil _, rfl, hcp.clean, rfl⟩

end Armadito.Conf
