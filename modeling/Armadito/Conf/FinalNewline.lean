import Armadito.Conf.Lex
import Armadito.Conf.Parse

/-!
# Conf.FinalNewline

A text and the same text with a newline at its end.

The scanner returns the end of the file in any state. A string or a
comment that is open there is open behind a newline too, but an identifier
or a number would have been ended by it: that token is lost.
-/

namespace Armadito.Conf

/-! ## The last token -/

/-- The identifier or number that the end of the input breaks off, if the
automaton gets there without returning. -/
def brokenWord (previousToken : TokenType) : ScanState → List Char → List Char → Option Token
  | .identifier, text, [] => some ⟨.string, text⟩
  | .integer, text, [] => some ⟨.integer, text⟩
  | _, _, [] => none
  | state, text, c :: input =>
    match scanStep previousToken state c with
    | .goto state append =>
      brokenWord previousToken state (if append then text ++ [c] else text) input
    | .accept _ | .unget _ => none

theorem brokenWord_type {prev : TokenType} {state : ScanState} {text input : List Char}
    {w : Token} (h : brokenWord prev state text input = some w) :
    w.type = .string ∨ w.type = .integer := by
  induction input generalizing state text with
  | nil =>
    cases state with
    | identifier =>
      obtain rfl := Option.some.inj h
      exact .inl rfl
    | integer =>
      obtain rfl := Option.some.inj h
      exact .inr rfl
    | _ => cases h
  | cons c input ih =>
    rw [brokenWord] at h
    split at h
    · exact ih h
    · cases h
    · cases h

/-- A token that was ended does not depend on what follows. -/
theorem scan_append {prev : TokenType} {state : ScanState} {text input rest : List Char}
    {t : Token} (h : scan prev state text input = (t, rest)) (ht : t.type ≠ .eof)
    (more : List Char) : scan prev state text (input ++ more) = (t, rest ++ more) := by
  induction input generalizing state text with
  | nil =>
    cases h
    exact absurd rfl ht
  | cons c input ih =>
    rw [List.cons_append]
    rw [scan] at h ⊢
    split at h
    · exact ih h
    · cases h
      rfl
    · cases h
      rfl

theorem punctuation_ne_eof {c : Char} {type : TokenType} (h : punctuation c = some type) :
    type ≠ .eof := by
  unfold punctuation at h
  split_ifs at h <;> cases h <;> decide

theorem initialStep_ne_eof {prev type : TokenType} {c : Char}
    (h : initialStep prev c = .accept type ∨ initialStep prev c = .unget type) :
    type ≠ .eof := by
  rcases h with h | h
  · unfold initialStep at h
    split_ifs at h
    split at h
    · next hpunct =>
      cases h
      exact punctuation_ne_eof hpunct
    · cases h
  · rcases (initialStep_unget h).2 with rfl | rfl <;> decide

/-- The automaton returns the end of the file at the end only. -/
theorem scanStep_ne_eof {prev type : TokenType} {state : ScanState} {c : Char}
    (h : scanStep prev state c = .accept type ∨ scanStep prev state c = .unget type) :
    type ≠ .eof := by
  cases state with
  | initial => exact initialStep_ne_eof h
  | space =>
    simp only [scanStep] at h
    split at h
    · simp at h
    · exact initialStep_ne_eof h
  | comment =>
    simp only [scanStep] at h
    split at h <;> simp at h
  | string =>
    simp only [scanStep] at h
    split at h
    · simp at h
    · rcases h with h | h <;> cases h
      decide
  | identifier =>
    simp only [scanStep] at h
    split at h
    · simp at h
    · rcases h with h | h <;> cases h
      decide
  | integer =>
    simp only [scanStep] at h
    split at h
    · simp at h
    · rcases h with h | h <;> cases h
      decide

/-- What a newline makes of the call that meets the end of the file: the
word that was broken off, the end of the file again, or behind an equal
sign the missing value. -/
inductive WithNewline (prev : TokenType) (broken : Option Token) :
    Token × List Char → Prop where
  | word {w : Token} (hbroken : broken = some w) : WithNewline prev broken (w, ['\n'])
  | eof {t : Token} (hbroken : broken = none) (ht : t.type = .eof) :
    WithNewline prev broken (t, [])
  | missing {text : List Char} (hbroken : broken = none) (hprev : prev = .equalSign) :
    WithNewline prev broken (⟨.none, text⟩, ['\n'])

theorem scan_nil_newline (prev : TokenType) (state : ScanState) (text : List Char) :
    WithNewline prev (brokenWord prev state text []) (scan prev state text ['\n']) := by
  cases state with
  | initial =>
    by_cases hprev : prev = .equalSign
    · subst hprev
      exact .missing rfl rfl
    · have hstep : scanStep prev .initial '\n' = .goto .initial false := by
        show initialStep prev '\n' = _
        simp [initialStep, hprev, isBlank, isFirstIdentifier, punctuation]
      rw [scan, hstep]
      exact .eof rfl rfl
  | identifier => exact .word rfl
  | integer => exact .word rfl
  | _ => exact .eof rfl rfl

theorem scan_newline {prev : TokenType} {state : ScanState} {text input : List Char}
    (h : (scan prev state text input).1.type = .eof) :
    WithNewline prev (brokenWord prev state text input)
      (scan prev state text (input ++ ['\n'])) := by
  induction input generalizing state text with
  | nil => exact scan_nil_newline prev state text
  | cons c input ih =>
    rw [List.cons_append]
    rw [scan] at h ⊢
    rw [brokenWord]
    cases hstep : scanStep prev state c with
    | goto state append =>
      rw [hstep] at h
      exact ih h
    | accept type =>
      rw [hstep] at h
      exact absurd h (scanStep_ne_eof (.inl hstep))
    | unget type =>
      rw [hstep] at h
      exact absurd h (scanStep_ne_eof (.inr hstep))

/-! ## All tokens -/

/-- The word that the end of the text breaks off. The tokens before it are
all that the scanner delivers but the end of the file. -/
def finalWord (previousToken : TokenType) (input : List Char) : Option Token :=
  let next := scannerGetNextToken previousToken input
  if next.1.type = .eof then brokenWord previousToken .initial [] input
  else finalWord next.1.type next.2
termination_by 2 * input.length + (if previousToken = .equalSign then 1 else 0)
decreasing_by
  next heof => exact scannerGetNextToken_decreases heof

theorem finalWord_type {prev : TokenType} {input : List Char} {w : Token}
    (h : finalWord prev input = some w) : w.type = .string ∨ w.type = .integer := by
  induction prev, input using finalWord.induct with
  | case1 prev input next heof =>
    rw [finalWord, if_pos heof] at h
    exact brokenWord_type h
  | case2 prev input next heof ih =>
    rw [finalWord, if_neg heof] at h
    exact ih h

/-- What a newline changes in the tokens `ts` and the end of the file. -/
inductive NewlineTokens (prev : TokenType) (input : List Char) (ts : List Token) : Prop where
  | word {w e : Token} (hword : finalWord prev input = some w) (he : e.type = .eof)
      (htokens : tokens prev (input ++ ['\n']) = ts ++ [w, e])
  | eof {e : Token} (hword : finalWord prev input = none) (he : e.type = .eof)
      (htokens : tokens prev (input ++ ['\n']) = ts ++ [e])
  | missing {n e : Token} (hword : finalWord prev input = none)
      (hlast : (ts.getLast?.map (·.type)).getD prev = .equalSign) (hn : n.type = .none)
      (he : e.type = .eof) (htokens : tokens prev (input ++ ['\n']) = ts ++ [n, e])

theorem tokens_of_eof {prev : TokenType} {input : List Char}
    (h : (scannerGetNextToken prev input).1.type = .eof) :
    tokens prev input = [(scannerGetNextToken prev input).1] := by
  rw [tokens]
  simp only [h, if_true]

/-- A newline behind a token other than an equal sign. -/
theorem tokens_newline {prev : TokenType} (hprev : prev ≠ .equalSign) :
    tokens prev ['\n'] = [⟨.eof, []⟩] := by
  have hskip : tokens prev ['\n'] = tokens prev [] := Lexes.newline hprev []
  rw [hskip, tokens_nil]

/-- The last token in front of the newline. -/
theorem tokens_cons_newline {prev : TokenType} {input : List Char} {t : Token}
    (h : scannerGetNextToken prev input = (t, ['\n'])) (hne : t.type ≠ .eof)
    (heq : t.type ≠ .equalSign) : tokens prev input = [t, ⟨.eof, []⟩] := by
  have htail : tokens prev input = t :: tokens t.type ['\n'] := Lexes.of_next h hne
  rw [htail, tokens_newline heq]

theorem newlineTokens_eof {prev : TokenType} {input : List Char}
    (h : (scannerGetNextToken prev input).1.type = .eof) : NewlineTokens prev input [] := by
  have hword : finalWord prev input = brokenWord prev .initial [] input := by
    rw [finalWord]
    simp only [h, if_true]
  have hscan := scan_newline h
  rw [← hword] at hscan
  cases hrun : scan prev .initial [] (input ++ ['\n']) with
  | mk t rest =>
    rw [hrun] at hscan
    cases hscan with
    | word hbroken =>
      have htype := brokenWord_type (hword.symm.trans hbroken)
      have hne : t.type ≠ .eof ∧ t.type ≠ .equalSign := by
        rcases htype with h | h <;> rw [h] <;> decide
      exact .word hbroken (e := ⟨.eof, []⟩) rfl (tokens_cons_newline hrun hne.1 hne.2)
    | eof hbroken ht =>
      refine .eof hbroken ht ?_
      have hend : (scannerGetNextToken prev (input ++ ['\n'])).1 = t := congrArg Prod.fst hrun
      rw [tokens_of_eof (by rw [hend]; exact ht), hend]
      rfl
    | missing hbroken hprev =>
      exact .missing hbroken hprev rfl (e := ⟨.eof, []⟩) rfl
        (tokens_cons_newline hrun (by simp) (by simp))

theorem newlineTokens (prev : TokenType) (input : List Char) :
    ∃ ts e, e.type = .eof ∧ tokens prev input = ts ++ [e] ∧ NewlineTokens prev input ts := by
  induction prev, input using tokens.induct with
  | case1 prev input next heof =>
    exact ⟨[], next.1, heof, tokens_of_eof heof, newlineTokens_eof heof⟩
  | case2 prev input next heof ih =>
    obtain ⟨ts, e, he, htokens, hnewline⟩ := ih
    have hnext : scannerGetNextToken prev input = (next.1, next.2) := rfl
    have hmore : scannerGetNextToken prev (input ++ ['\n']) = (next.1, next.2 ++ ['\n']) :=
      scan_append hnext heof _
    have hword : finalWord prev input = finalWord next.1.type next.2 := by
      rw [finalWord, if_neg heof]
    have htail : tokens prev (input ++ ['\n'])
        = next.1 :: tokens next.1.type (next.2 ++ ['\n']) := Lexes.of_next hmore heof
    refine ⟨next.1 :: ts, e, he, ?_, ?_⟩
    · rw [(Lexes.of_next hnext heof : tokens prev input = _), htokens]
      rfl
    · cases hnewline with
      | word hw he' ht => exact .word (hword.trans hw) he' (by rw [htail, ht]; rfl)
      | eof hw he' ht => exact .eof (hword.trans hw) he' (by rw [htail, ht]; rfl)
      | missing hw hlast hn he' ht =>
        refine .missing (hword.trans hw) ?_ hn he' (by rw [htail, ht]; rfl)
        rw [List.getLast?_cons]
        cases hts : ts.getLast? with
        | none =>
          rw [hts] at hlast
          exact hlast
        | some t =>
          rw [hts] at hlast
          exact hlast

/-! ## The ends of configurations -/

/-- The tokens end in `]`, or in a word behind an equal sign or a separator. -/
def EndsWhole (ts : List Token) : Prop :=
  ∃ before last, ts = before ++ [last] ∧
    (last.type = .rightBrace ∨ (last.type = .string ∨ last.type = .integer) ∧
      ∃ first sep, before = first ++ [sep] ∧ (sep.type = .equalSign ∨ IsListSep sep))

theorem endsWhole_brace (ts : List Token) {right : Token} (h : right.type = .rightBrace) :
    EndsWhole (ts ++ [right]) :=
  ⟨ts, right, rfl, .inl h⟩

theorem endsWhole_word (ts : List Token) {sep w : Token}
    (hsep : sep.type = .equalSign ∨ IsListSep sep) (hw : w.type = .string ∨ w.type = .integer) :
    EndsWhole (ts ++ [sep, w]) :=
  ⟨ts ++ [sep], w, by simp, .inr ⟨hw, ts, sep, rfl, hsep⟩⟩

theorem EndsWhole.append_left {ts' : List Token} (h : EndsWhole ts') (ts : List Token) :
    EndsWhole (ts ++ ts') := by
  obtain ⟨before, last, rfl, h⟩ := h
  refine ⟨ts ++ before, last, by simp, h.imp_right ?_⟩
  rintro ⟨hw, first, sep, rfl, hsep⟩
  exact ⟨hw, ts ++ first, sep, by simp, hsep⟩

theorem endsWhole_concat {ts : List Token} {last : Token} (h : EndsWhole (ts ++ [last])) :
    last.type = .rightBrace ∨ (last.type = .string ∨ last.type = .integer) ∧
      ∃ first sep, ts = first ++ [sep] ∧ (sep.type = .equalSign ∨ IsListSep sep) := by
  obtain ⟨before, last', heq, h⟩ := h
  obtain ⟨rfl, hlast⟩ := List.append_inj' heq rfl
  obtain rfl : last = last' := by simpa using hlast
  exact h

theorem OptStringList.endsWhole {ts : List Token} {vs : List CString}
    (h : OptStringList ts vs) : ts = [] ∨ EndsWhole ts := by
  induction h with
  | empty => exact .inl rfl
  | cons hsep hstr hrest ih =>
    rcases ih with rfl | ih
    · exact .inr (endsWhole_word [] (.inr hsep) (.inl hstr))
    · exact .inr (ih.append_left [_, _])

theorem Value.endsWhole {ts : List Token} {v : A6oConfValue} (h : Value ts v) {eq : Token}
    (heq : eq.type = .equalSign) : EndsWhole (eq :: ts) := by
  cases h with
  | int h => exact endsWhole_word [] (.inl heq) (.inr h)
  | strings h hrest =>
    rcases hrest.endsWhole with rfl | hrest
    · exact endsWhole_word [] (.inl heq) (.inl h)
    · exact hrest.append_left [eq, _]

theorem DefinitionList.endsWhole {sect : CString} {ts : List Token}
    {ds : List ConfDefinition} (h : DefinitionList sect ts ds) : ts = [] ∨ EndsWhole ts := by
  induction h with
  | empty => exact .inl rfl
  | cons hdef hrest ih =>
    rcases ih with rfl | ih
    · cases hdef with
      | mk hkey heq hvalue =>
        rw [List.append_nil]
        exact .inr ((hvalue.endsWhole heq).append_left [_])
    · exact .inr (ih.append_left _)

theorem SectionRule.endsWhole {ts : List Token} {ds : List ConfDefinition}
    (h : SectionRule ts ds) : EndsWhole ts := by
  cases h with
  | @mk left name right ts ds hleft hname hright hdefs =>
    rcases hdefs.endsWhole with rfl | hdefs
    · exact endsWhole_brace [left, name] hright
    · exact hdefs.append_left [left, name, right]

/-- A configuration ends in `]` or in a value. -/
theorem SectionList.endsWhole {ts : List Token} {ds : List ConfDefinition}
    (h : SectionList ts ds) : ts = [] ∨ EndsWhole ts := by
  induction h with
  | empty => exact .inl rfl
  | cons hsect hrest ih =>
    rcases ih with rfl | ih
    · rw [List.append_nil]
      exact .inr hsect.endsWhole
    · exact .inr (ih.append_left _)

theorem Configuration.concat {ts : List Token} {last : Token} {ds : List ConfDefinition}
    (h : Configuration (ts ++ [last]) ds) :
    last.type = .rightBrace ∨ (last.type = .string ∨ last.type = .integer) ∧
      ∃ first sep, ts = first ++ [sep] ∧ (sep.type = .equalSign ∨ IsListSep sep) :=
  endsWhole_concat (h.endsWhole.resolve_left (by simp))

theorem not_configuration_of_type {ts : List Token} {last : Token} {type : TokenType}
    (h : last.type = type) (hbrace : type ≠ .rightBrace) (hstring : type ≠ .string)
    (hinteger : type ≠ .integer) {ds : List ConfDefinition} :
    ¬ Configuration (ts ++ [last]) ds := by
  subst h
  intro hconf
  rcases hconf.concat with hlast | ⟨hlast | hlast, -⟩
  · exact hbrace hlast
  · exact hstring hlast
  · exact hinteger hlast

/-- A configuration is none with a further word. -/
theorem not_configuration_both {ts : List Token} {w : Token} {ds ds' : List ConfDefinition}
    (hw : w.type = .string ∨ w.type = .integer) (h : Configuration ts ds)
    (h' : Configuration (ts ++ [w]) ds') : False := by
  rcases h'.concat with hbrace | ⟨-, first, sep, rfl, hsep⟩
  · rcases hw with hw | hw <;> rw [hw] at hbrace <;> cases hbrace
  · rcases hsep with hsep | hsep | hsep <;>
      exact not_configuration_of_type hsep (by decide) (by decide) (by decide) h

/-! ## What is completed -/

theorem startsWithListSep_concat {ts : List Token} {x : Token} (hx : ¬ IsListSep x) :
    StartsWithListSep (ts ++ [x]) ↔ StartsWithListSep ts := by
  cases ts with
  | nil =>
    rw [List.nil_append, startsWithListSep_cons]
    refine iff_of_false hx ?_
    rintro ⟨t, ht, -⟩
    cases ht
  | cons t ts => rw [List.cons_append, startsWithListSep_cons, startsWithListSep_cons]

/-- A further token completes what was completed, and the whole if it is a
configuration. -/
theorem completed_concat {ts : List Token} {x : Token} (hx : ¬ IsListSep x)
    {ds : List ConfDefinition} :
    Completed (ts ++ [x]) ds ↔ Completed ts ds ∨ Configuration (ts ++ [x]) ds := by
  constructor
  · rintro ⟨conf, rest, heq, hconf, hclosed⟩
    rcases List.eq_nil_or_concat rest with rfl | ⟨rest, y, rfl⟩
    · rw [List.append_nil] at heq
      exact .inr (heq ▸ hconf)
    · rw [List.concat_eq_append] at hclosed heq
      rw [← List.append_assoc] at heq
      obtain ⟨rfl, hy⟩ := List.append_inj' heq rfl
      obtain rfl : x = y := by simpa using hy
      refine .inl ⟨conf, rest, rfl, hconf, fun hlast hstart => ?_⟩
      exact hclosed hlast ((startsWithListSep_concat hx).mpr hstart)
  · rintro (⟨conf, rest, rfl, hconf, hclosed⟩ | hconf)
    · refine ⟨conf, rest ++ [x], by simp, hconf, fun hlast hstart => ?_⟩
      exact hclosed hlast ((startsWithListSep_concat hx).mp hstart)
    · refine ⟨ts ++ [x], [], by simp, hconf, fun _ hstart => ?_⟩
      obtain ⟨t, ht, -⟩ := hstart
      cases ht

theorem not_isListSep_of_type {t : Token} {type : TokenType} (h : t.type = type)
    (hcomma : type ≠ .comma) (hsemi : type ≠ .semiColon) : ¬ IsListSep t := by
  rintro (hsep | hsep)
  · exact hcomma (h ▸ hsep)
  · exact hsemi (h ▸ hsep)

/-- The end of the file completes nothing. -/
theorem completed_eof {ts : List Token} {e : Token} (he : e.type = .eof)
    {ds : List ConfDefinition} : Completed (ts ++ [e]) ds ↔ Completed ts ds := by
  rw [completed_concat (not_isListSep_of_type he (by decide) (by decide))]
  exact or_iff_left (not_configuration_of_type he (by decide) (by decide) (by decide))

theorem derivable_eof {ts : List Token} {e : Token} (he : e.type = .eof)
    {ds : List ConfDefinition} : Derivable (ts ++ [e]) ds ↔ Configuration ts ds := by
  constructor
  · rintro ⟨conf, last, heq, -, hconf⟩
    obtain ⟨rfl, -⟩ := List.append_inj' heq rfl
    exact hconf
  · intro hconf
    exact ⟨ts, e, rfl, he, hconf⟩

/-- A word completes what it is the last value of. -/
theorem completed_word {ts : List Token} {w e : Token}
    (hw : w.type = .string ∨ w.type = .integer) (he : e.type = .eof)
    {ds : List ConfDefinition} :
    Completed (ts ++ [w, e]) ds ↔ Completed ts ds ∨ Configuration (ts ++ [w]) ds := by
  have hsep : ¬ IsListSep w := by
    rcases hw with hw | hw <;> exact not_isListSep_of_type hw (by decide) (by decide)
  have hassoc : ts ++ [w, e] = (ts ++ [w]) ++ [e] := by simp
  rw [hassoc, completed_eof he, completed_concat hsep]

theorem derivable_word {ts : List Token} {w e : Token} (he : e.type = .eof)
    {ds : List ConfDefinition} :
    Derivable (ts ++ [w, e]) ds ↔ Configuration (ts ++ [w]) ds := by
  have hassoc : ts ++ [w, e] = (ts ++ [w]) ++ [e] := by simp
  rw [hassoc, derivable_eof he]

/-! ## The parser -/

variable {σ : Type}

/-- The tokens in front of the end of the file. -/
def bodyOf (text : List Char) : List Token := (tokens .none text).dropLast

/-- The status and the calls are those of the text with a newline. -/
def NewlineIrrelevant (callback : ConfParserCallback σ) (text : List Char) (u : σ) : Prop :=
  a6oConfParserParse (traced callback) (some (text ++ ['\n'])) (u, []) =
    a6oConfParserParse (traced callback) (some text) (u, [])

/-- The text ends inside a word, it is a configuration with the word or
without it, and no call for a definition before the word fails. -/
def LosesWord (callback : ConfParserCallback σ) (text : List Char) (u : σ) : Prop :=
  ∃ w, finalWord .none text = some w ∧
    (∃ ds, Configuration (bodyOf text) ds ∨ Configuration (bodyOf text ++ [w]) ds) ∧
    ∀ ds, Completed (bodyOf text) ds → (feed callback ds u).2 = true

/-- The text ends inside the word `w`, behind the tokens `ts`. -/
structure BreaksOff (text : List Char) (ts : List Token) (w : Token) : Prop where
  word : w.type = .string ∨ w.type = .integer
  body : ∃ e, e.type = .eof ∧ tokens .none text = ts ++ [e]
  newline : ∃ e, e.type = .eof ∧ tokens .none (text ++ ['\n']) = ts ++ [w, e]

section BreaksOff

variable {text : List Char} {ts : List Token} {w : Token} {ds : List ConfDefinition}

theorem BreaksOff.completed (h : BreaksOff text ts w) :
    Completed (tokens .none text) ds ↔ Completed ts ds := by
  obtain ⟨e, he, htokens⟩ := h.body
  rw [htokens, completed_eof he]

theorem BreaksOff.derivable (h : BreaksOff text ts w) :
    Derivable (tokens .none text) ds ↔ Configuration ts ds := by
  obtain ⟨e, he, htokens⟩ := h.body
  rw [htokens, derivable_eof he]

theorem BreaksOff.completed_newline (h : BreaksOff text ts w) :
    Completed (tokens .none (text ++ ['\n'])) ds ↔
      Completed ts ds ∨ Configuration (ts ++ [w]) ds := by
  obtain ⟨e, he, htokens⟩ := h.newline
  rw [htokens, completed_word h.word he]

theorem BreaksOff.derivable_newline (h : BreaksOff text ts w) :
    Derivable (tokens .none (text ++ ['\n'])) ds ↔ Configuration (ts ++ [w]) ds := by
  obtain ⟨e, he, htokens⟩ := h.newline
  rw [htokens, derivable_word he]

variable (callback : ConfParserCallback σ) {u : σ}

/-- No token gets lost that a configuration could end in. -/
theorem BreaksOff.irrelevant_of_not_configuration (h : BreaksOff text ts w)
    (hts : ∀ ds, ¬ Configuration ts ds) (hword : ∀ ds, ¬ Configuration (ts ++ [w]) ds) :
    NewlineIrrelevant callback text u := by
  refine parse_congr (traced callback) (fun ds => ?_) (fun ds => ?_) (u, [])
  · rw [h.completed_newline, h.completed]
    exact or_iff_left (hword ds)
  · rw [h.derivable_newline, h.derivable]
    exact iff_of_false (hword ds) (hts ds)

/-- The parser is left at the same call. -/
theorem BreaksOff.irrelevant_of_failed (h : BreaksOff text ts w) (hds : Completed ts ds)
    (hfeed : ¬ (feed callback ds u).2 = true) : NewlineIrrelevant callback text u := by
  rw [← feed_traced_snd callback ds u []] at hfeed
  have htext := parse_failed (traced callback) (h.completed.mpr hds) hfeed
  have hmore := parse_failed (traced callback) (h.completed_newline.mpr (.inl hds)) hfeed
  rw [NewlineIrrelevant, hmore, htext]

/-- Without the word the text is a configuration, with it it is none. -/
theorem BreaksOff.not_irrelevant_of_configuration (h : BreaksOff text ts w)
    (hconf : Configuration ts ds) (hfeed : ∀ ds, Completed ts ds → (feed callback ds u).2 = true) :
    ¬ NewlineIrrelevant callback text u := by
  intro hsame
  have hderivable := h.derivable.mpr hconf
  have hret : (a6oConfParserParse (traced callback) (some text) (u, [])).1 = 0 := by
    rw [parse_derivable (traced callback) (u, []) hderivable, feed_traced_snd,
      if_pos (hfeed ds (h.completed.mp hderivable.completed))]
  rw [← hsame] at hret
  obtain ⟨ds', hds', -⟩ := (parse_eq_zero_iff (traced callback) _ _).mp hret
  exact not_configuration_both h.word hconf (h.derivable_newline.mp hds')

/-- Without the word the text is no configuration, so the status is not 0. -/
theorem BreaksOff.not_irrelevant_of_taken (h : BreaksOff text ts w)
    (hconf : Configuration (ts ++ [w]) ds) (hfeed : (feed callback ds u).2 = true) :
    ¬ NewlineIrrelevant callback text u := by
  intro hsame
  have hret : (a6oConfParserParse (traced callback) (some (text ++ ['\n'])) (u, [])).1 = 0 := by
    rw [parse_derivable (traced callback) (u, []) (h.derivable_newline.mpr hconf),
      feed_traced_snd, if_pos hfeed]
  rw [hsame] at hret
  obtain ⟨ds', hds', -⟩ := (parse_eq_zero_iff (traced callback) _ _).mp hret
  exact not_configuration_both h.word (h.derivable.mp hds') hconf

/-- The call for the definition that the word completes is made with the
newline only, even if it fails. -/
theorem BreaksOff.not_irrelevant_of_refused (h : BreaksOff text ts w)
    (hconf : Configuration (ts ++ [w]) ds) (hrefused : ¬ (feed callback ds u).2 = true)
    (hfeed : ∀ ds, Completed ts ds → (feed callback ds u).2 = true) :
    ¬ NewlineIrrelevant callback text u := by
  intro hsame
  obtain ⟨before, hbefore⟩ := exists_longest text
  obtain ⟨all, hall⟩ := exists_longest (text ++ ['\n'])
  obtain rfl := hall.derivable ds (h.derivable_newline.mpr hconf)
  have hcompleted : Completed ts before := h.completed.mp hbefore.completed
  have hok := hfeed before hcompleted
  obtain ⟨more, rfl⟩ := hall.longest before (h.completed_newline.mpr (.inl hcompleted))
  have hmore : more ≠ [] := by
    rintro rfl
    rw [List.append_nil] at hrefused
    exact hrefused hok
  obtain ⟨called, hcalled, -⟩ := feed_traced callback before u []
  obtain ⟨further, hfurther, -, hne⟩ :=
    feed_traced callback more (feed callback before u).1 ([] ++ called)
  have hfeeds : (feed (traced callback) (before ++ more) (u, [])).1.2 = called ++ further := by
    rw [feed_append, feed_traced_snd, if_pos hok, hcalled, hfurther]
    rfl
  have hcalls : (feed (traced callback) (before ++ more) (u, [])).1.2 = called := by
    rw [← parse_userData (traced callback) hall (u, []), hsame,
      parse_userData (traced callback) hbefore (u, []), hcalled]
    rfl
  rw [hfeeds] at hcalls
  exact hne hmore (by simpa using hcalls)

end BreaksOff

variable (callback : ConfParserCallback σ)

/-- A missing value is none that a configuration could end in. -/
theorem newlineIrrelevant_of_missing {text : List Char} {ts : List Token} {n e e' : Token}
    (hlast : (ts.getLast?.map (·.type)).getD .none = .equalSign) (hn : n.type = .none)
    (he : e.type = .eof) (he' : e'.type = .eof) (htokens : tokens .none text = ts ++ [e])
    (hnewline : tokens .none (text ++ ['\n']) = ts ++ [n, e']) (u : σ) :
    NewlineIrrelevant callback text u := by
  have hassoc : ts ++ [n, e'] = (ts ++ [n]) ++ [e'] := by simp
  have hsep : ¬ IsListSep n := not_isListSep_of_type hn (by decide) (by decide)
  have hwhole : ∀ ds, ¬ Configuration (ts ++ [n]) ds := fun ds =>
    not_configuration_of_type hn (by decide) (by decide) (by decide)
  have hbefore : ∀ ds, ¬ Configuration ts ds := by
    intro ds hconf
    rcases List.eq_nil_or_concat ts with rfl | ⟨first, last, rfl⟩
    · cases hlast
    · rw [List.concat_eq_append] at hconf hlast
      rw [List.getLast?_concat] at hlast
      exact not_configuration_of_type hlast (by decide) (by decide) (by decide) hconf
  refine parse_congr (traced callback) (fun ds => ?_) (fun ds => ?_) (u, [])
  · rw [htokens, hnewline, hassoc, completed_eof he', completed_concat hsep, completed_eof he]
    exact or_iff_left (hwhole ds)
  · rw [htokens, hnewline, hassoc, derivable_eof he', derivable_eof he]
    exact iff_of_false (hwhole ds) (hbefore ds)

/-- **A final newline changes nothing, unless the text loses a word that a
configuration could end in.** -/
theorem parse_newline_iff (text : List Char) (u : σ) :
    NewlineIrrelevant callback text u ↔ ¬ LosesWord callback text u := by
  obtain ⟨ts, e, he, htokens, hnewline⟩ := newlineTokens .none text
  have hbody : bodyOf text = ts := by
    rw [bodyOf, htokens, List.dropLast_concat]
  cases hnewline with
  | eof hword he' ht =>
    refine iff_of_true ?_ ?_
    · refine parse_congr (traced callback) (fun ds => ?_) (fun ds => ?_) (u, [])
      · rw [htokens, ht, completed_eof he, completed_eof he']
      · rw [htokens, ht, derivable_eof he, derivable_eof he']
    · rintro ⟨w, hw, -⟩
      rw [hword] at hw
      cases hw
  | missing hword hlast hn he' ht =>
    refine iff_of_true (newlineIrrelevant_of_missing callback hlast hn he he' htokens ht u) ?_
    rintro ⟨w, hw, -⟩
    rw [hword] at hw
    cases hw
  | @word w e' hword he' ht =>
    have hbreaks : BreaksOff text ts w :=
      ⟨finalWord_type hword, ⟨e, he, htokens⟩, ⟨e', he', ht⟩⟩
    constructor
    · rintro hsame ⟨w', hw', ⟨ds, hconf⟩, hfeed⟩
      obtain rfl : w = w' := Option.some.inj (hword.symm.trans hw')
      rw [hbody] at hconf hfeed
      rcases hconf with hconf | hconf
      · exact hbreaks.not_irrelevant_of_configuration callback hconf hfeed hsame
      · by_cases htaken : (feed callback ds u).2 = true
        · exact hbreaks.not_irrelevant_of_taken callback hconf htaken hsame
        · exact hbreaks.not_irrelevant_of_refused callback hconf htaken hfeed hsame
    · intro hkeeps
      by_cases hfeed : ∀ ds, Completed ts ds → (feed callback ds u).2 = true
      · have hnone : ¬ ∃ ds, Configuration ts ds ∨ Configuration (ts ++ [w]) ds := by
          intro hconf
          refine hkeeps ⟨w, hword, ?_, ?_⟩
          · rw [hbody]
            exact hconf
          · rw [hbody]
            exact hfeed
        exact hbreaks.irrelevant_of_not_configuration callback
          (fun ds h => hnone ⟨ds, .inl h⟩) fun ds h => hnone ⟨ds, .inr h⟩
      · push Not at hfeed
        obtain ⟨ds, hds, hfailed⟩ := hfeed
        exact hbreaks.irrelevant_of_failed callback hds hfailed

/-- A definition whose value is broken off. -/
def unfinishedFile : List Char := "[a]\nk = 1".toList

/-- The definition is lost, and the status says that the file is wrong. -/
theorem parse_unfinishedFile :
    a6oConfParserParse (traced record) (some unfinishedFile) ([], []) = (-2, [], []) ∧
      a6oConfParserParse (traced record) (some (unfinishedFile ++ ['\n'])) ([], []) =
        (0, [⟨"a".toList, "k".toList, .int 1⟩], [⟨"a".toList, "k".toList, .int 1⟩]) ∧
      ¬ NewlineIrrelevant record unfinishedFile [] := by
  have hlost : a6oConfParserParse (traced record) (some unfinishedFile) ([], []) =
      (-2, [], []) := by
    decide +kernel
  have hfound : a6oConfParserParse (traced record) (some (unfinishedFile ++ ['\n'])) ([], []) =
      (0, [⟨"a".toList, "k".toList, .int 1⟩], [⟨"a".toList, "k".toList, .int 1⟩]) := by
    decide +kernel
  refine ⟨hlost, hfound, fun hsame => ?_⟩
  rw [NewlineIrrelevant, hlost, hfound] at hsame
  cases hsame

end Armadito.Conf
