import Armadito.Conf.Lex

/-!
# Conf.Scanned

The scanner from the side of its tokens. What holds of the state, the text
so far and the rest of the input, and is kept by every character, says what
the token and the input behind it are.
-/

namespace Armadito.Conf

/-! ## One character -/

/-- What a character does between tokens. -/
inductive BareStep (prev : TokenType) (c : Char) : ScanStep → Prop where
  | skip {state : ScanState} (hstate : state = .initial ∨ state = .space) (hquote : c ≠ '"')
      (hcomment : c ≠ '#') (hpunct : punctuation c = none) : BareStep prev c (.goto state false)
  | comment (h : c = '#') : BareStep prev c (.goto .comment false)
  | quote (h : c = '"') : BareStep prev c (.goto .string false)
  | identifier (h : isFirstIdentifier c = true) : BareStep prev c (.goto .identifier true)
  | integer (h : c.isDigit = true) : BareStep prev c (.goto .integer true)
  | stuck {type : TokenType} (h : type.IsStuck) : BareStep prev c (.unget type)
  | accept {type : TokenType} (h : punctuation c = some type) : BareStep prev c (.accept type)

theorem ne_of_isSpace {c d : Char} (hc : isSpace c = true) (hd : isSpace d = false) : c ≠ d := by
  intro heq
  rw [heq, hd] at hc
  cases hc

theorem punctuation_of_isSpace {c : Char} (hc : isSpace c = true) : punctuation c = none := by
  rw [punctuation, if_neg (ne_of_isSpace hc (by decide)), if_neg (ne_of_isSpace hc (by decide)),
    if_neg (ne_of_isSpace hc (by decide)), if_neg (ne_of_isSpace hc (by decide)),
    if_neg (ne_of_isSpace hc (by decide))]

theorem bareStep_space (prev : TokenType) {c : Char} (hc : isSpace c = true) :
    BareStep prev c (.goto .space false) :=
  .skip (.inr rfl) (ne_of_isSpace hc (by decide)) (ne_of_isSpace hc (by decide))
    (punctuation_of_isSpace hc)

theorem bareStep_initial (prev : TokenType) (c : Char) :
    BareStep prev c (initialStep prev c) := by
  unfold initialStep
  split_ifs with hblank hcomment hquote hfirst hdigit hprev hnewline
  · exact bareStep_space prev (by rw [isSpace, hblank]; rfl)
  · exact .comment hcomment
  · exact .quote hquote
  · exact .identifier hfirst
  · exact .integer hdigit
  · exact .stuck (.inl rfl)
  · exact .stuck (.inr rfl)
  · cases hpunct : punctuation c with
    | some type => exact .accept hpunct
    | none => exact .skip (.inl rfl) hquote hcomment hpunct

/-- In both states between tokens. -/
theorem bareStep {state : ScanState} (hstate : state = .initial ∨ state = .space)
    (prev : TokenType) (c : Char) : BareStep prev c (scanStep prev state c) := by
  rcases hstate with rfl | rfl
  · exact bareStep_initial prev c
  · rw [scanStep]
    split_ifs with hspace
    · exact bareStep_space prev hspace
    · exact bareStep_initial prev c

theorem punctuation_type {c : Char} {type : TokenType} (h : punctuation c = some type) :
    type ≠ .string ∧ type ≠ .integer ∧ type ≠ .eof := by
  unfold punctuation at h
  split_ifs at h <;> cases h <;> decide

/-! ## One token -/

/-- What holds of the token text so far and the rest of the input, between
tokens and inside each kind of text. -/
structure Phases where
  bare : List Char → List Char → Prop
  comment : List Char → List Char → Prop
  identifier : List Char → List Char → Prop
  integer : List Char → List Char → Prop
  string : List Char → List Char → Prop

/-- What holds of the characters that are left, in each state. -/
def Phases.at (p : Phases) : ScanState → List Char → List Char → Prop
  | .initial | .space => p.bare
  | .comment => p.comment
  | .identifier => p.identifier
  | .integer => p.integer
  | .string => p.string

/-- Every character keeps the phases; `done` is what they say of a token
and the input behind it. -/
structure Phases.Kept (p : Phases) (done : Token → List Char → Prop) : Prop where
  skip : ∀ {text input : List Char} {c : Char}, p.bare text (c :: input) →
    c ≠ '"' → c ≠ '#' → punctuation c = none → p.bare text input
  hash : ∀ {text input : List Char}, p.bare text ('#' :: input) → p.comment text input
  quote : ∀ {text input : List Char}, p.bare text ('"' :: input) → p.string text input
  first : ∀ {text input : List Char} {c : Char}, p.bare text (c :: input) →
    isFirstIdentifier c = true → p.identifier (text ++ [c]) input
  digit : ∀ {text input : List Char} {c : Char}, p.bare text (c :: input) →
    c.isDigit = true → p.integer (text ++ [c]) input
  stuck : ∀ {text input : List Char} {c : Char} {type : TokenType}, p.bare text (c :: input) →
    type.IsStuck → done ⟨type, text⟩ (c :: input)
  accept : ∀ {text input : List Char} {c : Char} {type : TokenType}, p.bare text (c :: input) →
    punctuation c = some type → done ⟨type, text ++ [c]⟩ input
  inComment : ∀ {text input : List Char} {c : Char}, p.comment text (c :: input) →
    c ≠ '\n' → p.comment text input
  endOfLine : ∀ {text input : List Char}, p.comment text ('\n' :: input) → p.bare text input
  inIdentifier : ∀ {text input : List Char} {c : Char}, p.identifier text (c :: input) →
    isIdentifier c = true → p.identifier (text ++ [c]) input
  endIdentifier : ∀ {text input : List Char} {c : Char}, p.identifier text (c :: input) →
    isIdentifier c = false → done ⟨.string, text⟩ (c :: input)
  inInteger : ∀ {text input : List Char} {c : Char}, p.integer text (c :: input) →
    c.isDigit = true → p.integer (text ++ [c]) input
  endInteger : ∀ {text input : List Char} {c : Char}, p.integer text (c :: input) →
    c.isDigit = false → done ⟨.integer, text⟩ (c :: input)
  inString : ∀ {text input : List Char} {c : Char}, p.string text (c :: input) →
    c ≠ '"' → p.string (text ++ [c]) input
  endString : ∀ {text input : List Char}, p.string text ('"' :: input) →
    done ⟨.string, text⟩ input
  eof : ∀ {state : ScanState} {text : List Char}, p.at state text [] → done ⟨.eof, text⟩ []

/-- The phase that a character leads to, or what it says of the token. -/
def Phases.After (p : Phases) (done : Token → List Char → Prop) (text input : List Char)
    (c : Char) : ScanStep → Prop
  | .goto state append => p.at state (if append then text ++ [c] else text) input
  | .accept type => done ⟨type, acceptText type text c⟩ input
  | .unget type => done ⟨type, text⟩ (c :: input)

variable {p : Phases} {done : Token → List Char → Prop}

theorem Phases.Kept.bareStep (h : p.Kept done) {prev : TokenType} {text input : List Char}
    {c : Char} (hinv : p.bare text (c :: input)) {step : ScanStep}
    (hstep : BareStep prev c step) : p.After done text input c step := by
  cases hstep with
  | skip hstate hquote hcomment hpunct =>
    have hbare := h.skip hinv hquote hcomment hpunct
    rcases hstate with rfl | rfl
    · exact hbare
    · exact hbare
  | comment hc =>
    rw [hc] at hinv
    exact h.hash hinv
  | quote hc =>
    rw [hc] at hinv
    exact h.quote hinv
  | identifier hc => exact h.first hinv hc
  | integer hc => exact h.digit hinv hc
  | stuck hstuck => exact h.stuck hinv hstuck
  | @accept type hpunct =>
    show done ⟨type, acceptText type text c⟩ input
    rw [acceptText, if_neg (punctuation_type hpunct).1]
    exact h.accept hinv hpunct

theorem Phases.Kept.step (h : p.Kept done) (prev : TokenType) {state : ScanState}
    {text input : List Char} {c : Char} (hinv : p.at state text (c :: input)) :
    p.After done text input c (scanStep prev state c) := by
  cases state with
  | initial => exact h.bareStep hinv (Conf.bareStep (.inl rfl) prev c)
  | space => exact h.bareStep hinv (Conf.bareStep (.inr rfl) prev c)
  | comment =>
    rw [scanStep]
    split_ifs with hc
    · rw [hc] at hinv
      exact h.endOfLine hinv
    · exact h.inComment hinv hc
  | identifier =>
    rw [scanStep]
    split_ifs with hc
    · exact h.inIdentifier hinv hc
    · exact h.endIdentifier hinv (by simpa using hc)
  | integer =>
    rw [scanStep]
    split_ifs with hc
    · exact h.inInteger hinv hc
    · exact h.endInteger hinv (by simpa using hc)
  | string =>
    rw [scanStep]
    split_ifs with hc
    · exact h.inString hinv hc
    · rw [not_ne_iff] at hc
      rw [hc] at hinv
      exact h.endString hinv

theorem Phases.Kept.scan (h : p.Kept done) (prev : TokenType) {state : ScanState}
    {text input : List Char} (hinv : p.at state text input) :
    done (Conf.scan prev state text input).1 (Conf.scan prev state text input).2 := by
  induction input generalizing state text with
  | nil => exact h.eof hinv
  | cons c input ih =>
    have hafter := h.step prev hinv
    rw [Conf.scan]
    cases hstep : scanStep prev state c with
    | goto state' append =>
      rw [hstep] at hafter
      exact ih hafter
    | accept type =>
      rw [hstep] at hafter
      exact hafter
    | unget type =>
      rw [hstep] at hafter
      exact hafter

/-- The next token, from phases that hold at its beginning. -/
theorem Phases.Kept.next (h : p.Kept done) (prev : TokenType) {input : List Char}
    (hinv : p.bare [] input) :
    done (scannerGetNextToken prev input).1 (scannerGetNextToken prev input).2 := by
  have hinitial : p.at .initial [] input := hinv
  exact h.scan prev hinitial

/-! ## The text of a token -/

/-- A string has no quote, an integer is a string of digits. -/
structure TokenText (t : Token) : Prop where
  string : t.type = .string → '"' ∉ t.text
  integer : t.type = .integer → t.text ≠ [] ∧ ∀ c ∈ t.text, c.isDigit = true

theorem tokenText_of_type {type : TokenType} (hstring : type ≠ .string)
    (hinteger : type ≠ .integer) (text : List Char) : TokenText ⟨type, text⟩ :=
  ⟨fun h => absurd h hstring, fun h => absurd h hinteger⟩

/-- The text so far: no quote in it, and digits only in an integer. -/
def textPhases : Phases where
  bare text _ := text = []
  comment text _ := text = []
  identifier text _ := '"' ∉ text
  integer text _ := text ≠ [] ∧ ∀ c ∈ text, c.isDigit = true
  string text _ := '"' ∉ text

theorem quote_not_mem_concat {text : List Char} (h : '"' ∉ text) {c : Char} (hc : c ≠ '"') :
    '"' ∉ text ++ [c] := by
  rw [List.mem_append, List.mem_singleton, not_or]
  exact ⟨h, fun heq => hc heq.symm⟩

theorem ne_quote_of_isIdentifier {c : Char} (hc : isIdentifier c = true) : c ≠ '"' := by
  intro heq
  rw [heq] at hc
  exact absurd hc (by decide)

theorem isIdentifier_of_first {c : Char} (hc : isFirstIdentifier c = true) :
    isIdentifier c = true := by
  rw [isFirstIdentifier, Bool.or_eq_true] at hc
  rcases hc with hc | hc
  · simp [isIdentifier, Char.isAlphanum, hc]
  · simp [isIdentifier, hc]

theorem digits_concat {text : List Char} (h : ∀ c ∈ text, c.isDigit = true) {c : Char}
    (hc : c.isDigit = true) : text ++ [c] ≠ [] ∧ ∀ d ∈ text ++ [c], d.isDigit = true := by
  refine ⟨by simp, ?_⟩
  intro d hd
  rcases List.mem_append.mp hd with hd | hd
  · exact h d hd
  · rw [List.mem_singleton.mp hd]
    exact hc

theorem textPhases_kept : textPhases.Kept fun t _ => TokenText t where
  skip h _ _ _ := h
  hash h := h
  quote := by
    rintro text input rfl
    exact List.not_mem_nil
  first := by
    rintro text input c rfl hc
    exact quote_not_mem_concat List.not_mem_nil
      (ne_quote_of_isIdentifier (isIdentifier_of_first hc))
  digit := by
    rintro text input c rfl hc
    exact digits_concat (by simp) hc
  stuck := by
    intro text input c type _ hstuck
    rcases hstuck with rfl | rfl
    · exact tokenText_of_type (by decide) (by decide) text
    · exact tokenText_of_type (by decide) (by decide) text
  accept _ hpunct :=
    tokenText_of_type (punctuation_type hpunct).1 (punctuation_type hpunct).2.1 _
  inComment h _ := h
  endOfLine h := h
  inIdentifier h hc := quote_not_mem_concat h (ne_quote_of_isIdentifier hc)
  endIdentifier h _ := ⟨fun _ => h, fun h => by cases h⟩
  inInteger h hc := digits_concat h.2 hc
  endInteger h _ := ⟨fun h => (by cases h), fun _ => h⟩
  inString h hc := quote_not_mem_concat h hc
  endString h := ⟨fun _ => h, fun h => by cases h⟩
  eof _ := ⟨fun h => (by cases h), fun h => by cases h⟩

theorem scannerGetNextToken_text (prev : TokenType) (input : List Char) :
    TokenText (scannerGetNextToken prev input).1 :=
  textPhases_kept.next prev rfl

theorem tokens_text (prev : TokenType) (input : List Char) :
    ∀ t ∈ tokens prev input, TokenText t := by
  induction prev, input using tokens.induct with
  | case1 prev input next heof =>
    intro t ht
    rw [tokens, if_pos heof, List.mem_singleton] at ht
    rw [ht]
    exact scannerGetNextToken_text prev input
  | case2 prev input next hne ih =>
    intro t ht
    rw [tokens, if_neg hne] at ht
    rcases List.mem_cons.mp ht with rfl | ht
    · exact scannerGetNextToken_text prev input
    · exact ih t ht

end Armadito.Conf
