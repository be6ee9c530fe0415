import Armadito.Conf.Value

/-!
# Conf.Scanner

The lexical analyser of `confparser.c`. It is an automaton that reads one
character at a time; a character that does not belong to the token is put
back. The line and column it counts appear in log messages only and are
left out.
-/

namespace Armadito.Conf

/-- `enum token_type`; the punctuation tokens are their characters. -/
inductive TokenType where
  | eof
  | leftBrace
  | rightBrace
  | equalSign
  | comma
  | semiColon
  | none
  | string
  | integer
  | error
  deriving DecidableEq, Repr

/-- A token with its text. -/
structure Token where
  type : TokenType
  text : List Char
  deriving DecidableEq, Repr

/-! ## Character classes of the C locale -/

/-- `isblank`. -/
def isBlank (c : Char) : Bool := c == ' ' || c == '\t'

/-- `isspace`: also newline, vertical tab, form feed, carriage return. -/
def isSpace (c : Char) : Bool :=
  isBlank c || c == '\n' || c == Char.ofNat 11 || c == Char.ofNat 12 || c == '\r'

/-- `is_first_identifier`. -/
def isFirstIdentifier (c : Char) : Bool := c.isAlpha || c == '_'

/-- `is_identifier`. -/
def isIdentifier (c : Char) : Bool := c.isAlphanum || c == '-' || c == '_'

/-- The characters that are tokens by themselves. -/
def punctuation (c : Char) : Option TokenType :=
  if c = '[' then some .leftBrace
  else if c = ']' then some .rightBrace
  else if c = '=' then some .equalSign
  else if c = ',' then some .comma
  else if c = ';' then some .semiColon
  else .none

/-! ## The automaton -/

/-- The states of the scanner. -/
inductive ScanState where
  | initial
  | space
  | comment
  | identifier
  | integer
  | string
  deriving DecidableEq, Repr

/-- What one character does: go on in a state, with or without the
character appended to the token text, or return a token, with the character
used up or put back. -/
inductive ScanStep where
  | goto (state : ScanState) (append : Bool)
  | accept (type : TokenType)
  | unget (type : TokenType)

/-- The step of the scanner between two tokens. -/
def initialStep (previousToken : TokenType) (c : Char) : ScanStep :=
  if isBlank c then .goto .space false
  else if c = '#' then .goto .comment false
  else if c = '"' then .goto .string false
  else if isFirstIdentifier c then .goto .identifier true
  else if c.isDigit then .goto .integer true
  else if previousToken = .equalSign then .unget (if c = '\n' then .none else .error)
  else
    match punctuation c with
    | some type => .accept type
    | none => .goto .initial false

/-- Leaving `S_SPACE` puts the character back and reads it again in
`S_INITIAL`. -/
def scanStep (previousToken : TokenType) : ScanState → Char → ScanStep
  | .initial, c => initialStep previousToken c
  | .space, c => if isSpace c then .goto .space false else initialStep previousToken c
  | .comment, c => if c = '\n' then .goto .initial false else .goto .comment false
  | .string, c => if c ≠ '"' then .goto .string true else .accept .string
  | .identifier, c => if isIdentifier c then .goto .identifier true else .unget .string
  | .integer, c => if c.isDigit then .goto .integer true else .unget .integer

/-- The token text of a token that is its character. -/
def acceptText (type : TokenType) (text : List Char) (c : Char) : List Char :=
  if type = .string then text else text ++ [c]

/-- The loop: from a state with the text so far. The end of the input ends
any token, which is then lost. -/
def scan (previousToken : TokenType) : ScanState → List Char → List Char → Token × List Char
  | _, text, [] => (⟨.eof, text⟩, [])
  | state, text, c :: input =>
    match scanStep previousToken state c with
    | .goto state append =>
      scan previousToken state (if append then text ++ [c] else text) input
    | .accept type => (⟨type, acceptText type text c⟩, input)
    | .unget type => (⟨type, text⟩, c :: input)

/-- `scanner_get_next_token`. -/
def scannerGetNextToken (previousToken : TokenType) (input : List Char) : Token × List Char :=
  scan previousToken .initial [] input

/-! ## What is left of the input -/

/-- A token of the value position that was not understood: the character
stays in the input. -/
def TokenType.IsStuck (type : TokenType) : Prop := type = .none ∨ type = .error

theorem scan_length (prev : TokenType) (input : List Char) :
    ∀ (state : ScanState) (text : List Char),
      (scan prev state text input).2.length ≤ input.length := by
  induction input with
  | nil => intro state text; exact Nat.le_refl 0
  | cons c input ih =>
    intro state text
    rw [scan]
    split
    · exact Nat.le_succ_of_le (ih _ _)
    · exact Nat.le_succ input.length
    · exact Nat.le_refl _

theorem initialStep_unget {prev type : TokenType} {c : Char}
    (h : initialStep prev c = .unget type) : prev = .equalSign ∧ type.IsStuck := by
  unfold initialStep at h
  split_ifs at h with _ _ _ _ _ hprev
  · cases h
    exact ⟨hprev, .inl rfl⟩
  · cases h
    exact ⟨hprev, .inr rfl⟩
  · split at h <;> cases h

/-- A token takes at least one character off the input, but in the place of
a value that is not understood. -/
theorem scannerGetNextToken_length (prev : TokenType) (input : List Char) :
    (scannerGetNextToken prev input).1.type = .eof ∨
      (scannerGetNextToken prev input).2.length < input.length ∨
      (prev = .equalSign ∧ (scannerGetNextToken prev input).1.type.IsStuck ∧
        (scannerGetNextToken prev input).2.length ≤ input.length) := by
  cases input with
  | nil => exact .inl rfl
  | cons c input =>
    refine .inr ?_
    rw [scannerGetNextToken, scan]
    split
    · exact .inl (Nat.lt_succ_of_le (scan_length _ _ _ _))
    · exact .inl (Nat.lt_succ_self _)
    · next type hstep =>
      obtain ⟨hprev, hstuck⟩ := initialStep_unget hstep
      exact .inr ⟨hprev, hstuck, Nat.le_refl _⟩

/-- The measure of repeated calls, each given the token accepted before: the
one call that may take nothing off the input is in the place of a value. -/
theorem scannerGetNextToken_decreases {prev : TokenType} {input : List Char}
    (heof : (scannerGetNextToken prev input).1.type ≠ .eof) :
    2 * (scannerGetNextToken prev input).2.length +
        (if (scannerGetNextToken prev input).1.type = .equalSign then 1 else 0) <
      2 * input.length + (if prev = .equalSign then 1 else 0) := by
  rcases scannerGetNextToken_length prev input with hlen | hlen | ⟨hprev, hstuck, hlen⟩
  · exact absurd hlen heof
  · split <;> split <;> omega
  · have hne : (scannerGetNextToken prev input).1.type ≠ .equalSign := by
      rcases hstuck with h | h <;> rw [h] <;> decide
    rw [if_neg hne, if_pos hprev]
    omega

/-- What repeated calls deliver, each given the token accepted before, up
to the end of the file. -/
def tokens (previousToken : TokenType) (input : List Char) : List Token :=
  let next := scannerGetNextToken previousToken input
  if next.1.type = .eof then [next.1] else next.1 :: tokens next.1.type next.2
termination_by 2 * input.length + (if previousToken = .equalSign then 1 else 0)
decreasing_by
  next heof => exact scannerGetNextToken_decreases heof

end Armadito.Conf
