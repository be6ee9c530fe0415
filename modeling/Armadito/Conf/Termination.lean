import Armadito.Conf.Parser
import Armadito.Lib.Loop

/-!
# Conf.Termination

`scanner_get_next_token` as the endless loop that it is, and the recursive
descent parser with its stack of calls. Both return on every input.

A pass of the scanner may take nothing off the input, when it leaves
`S_SPACE`; the next pass then does or returns. The parser reads a token when
it accepts one, and the tokens it accepts took something off the input.
-/

namespace Armadito.Conf

open Loop

/-! ## The loop of the scanner -/

/-- What the loop of the scanner goes on with. -/
structure ScannerLoop where
  state : ScanState
  text : List Char
  input : List Char

/-- One pass of `while(1)`: the character that ends the spaces is put back,
and the loop goes on in `S_INITIAL`. -/
def scannerPass (previousToken : TokenType) (s : ScannerLoop) :
    ScannerLoop ⊕ (Token × List Char) :=
  match s.input with
  | [] => .inr (⟨.eof, s.text⟩, [])
  | c :: input =>
    if s.state = .space ∧ isSpace c = false then .inl { s with state := .initial }
    else
      match scanStep previousToken s.state c with
      | .goto state append =>
        .inl { state, text := if append then s.text ++ [c] else s.text, input }
      | .accept type => .inr (⟨type, acceptText type s.text c⟩, input)
      | .unget type => .inr (⟨type, s.text⟩, c :: input)

/-- What is left to read, and the pass that puts a character back. -/
def ScannerLoop.measure (s : ScannerLoop) : Nat :=
  2 * s.input.length + if s.state = .space then 1 else 0

/-- A pass that does not return puts back the character after spaces, or
takes it off the input. -/
theorem scannerPass_inl {prev : TokenType} {s s' : ScannerLoop}
    (h : scannerPass prev s = .inl s') :
    ∃ c input, s.input = c :: input ∧
      (s.state = .space ∧ isSpace c = false ∧ s' = { s with state := .initial } ∨
        ∃ append, scanStep prev s.state c = .goto s'.state append ∧ s'.input = input ∧
          s'.text = if append then s.text ++ [c] else s.text) := by
  obtain ⟨state, text, input⟩ := s
  cases input with
  | nil => cases h
  | cons c input =>
    refine ⟨c, input, rfl, ?_⟩
    simp only [scannerPass] at h
    split_ifs at h with hspace
    · cases h
      exact .inl ⟨hspace.1, hspace.2, rfl⟩
    · cases hstep : scanStep prev state c with
      | goto state' append =>
        rw [hstep] at h
        cases h
        exact .inr ⟨append, rfl, rfl, rfl⟩
      | accept type =>
        rw [hstep] at h
        cases h
      | unget type =>
        rw [hstep] at h
        cases h

theorem scannerPass_measure {prev : TokenType} {s s' : ScannerLoop}
    (h : scannerPass prev s = .inl s') : s'.measure < s.measure := by
  obtain ⟨c, input, hinput, ⟨hspace, -, rfl⟩ | ⟨append, -, hrest, -⟩⟩ := scannerPass_inl h
  · simp [ScannerLoop.measure, hspace]
  · simp only [ScannerLoop.measure, hinput, hrest, List.length_cons]
    split <;> split <;> omega

/-- The result of the loop from a pass on. -/
def ScannerLoop.result (prev : TokenType) (s : ScannerLoop) : Token × List Char :=
  scan prev s.state s.text s.input

theorem scannerPass_next {prev : TokenType} {s s' : ScannerLoop}
    (h : scannerPass prev s = .inl s') : s'.result prev = s.result prev := by
  obtain ⟨c, input, hinput, ⟨hspace, hc, rfl⟩ | ⟨append, hstep, hrest, htext⟩⟩ :=
    scannerPass_inl h
  · -- the character is read in the same way in both states
    have hstep : scanStep prev .space c = scanStep prev .initial c := by
      rw [scanStep, scanStep, if_neg (by simp [hc])]
    simp only [ScannerLoop.result, hinput, hspace, scan, hstep]
  · rw [ScannerLoop.result, ScannerLoop.result, hinput, scan, hstep, hrest, htext]

theorem scannerPass_ret {prev : TokenType} {s : ScannerLoop} {r : Token × List Char}
    (h : scannerPass prev s = .inr r) : s.result prev = r := by
  obtain ⟨state, text, input⟩ := s
  cases input with
  | nil =>
    cases h
    rfl
  | cons c input =>
    simp only [scannerPass] at h
    split_ifs at h
    rw [ScannerLoop.result, scan]
    cases hstep : scanStep prev state c with
    | goto state' append =>
      rw [hstep] at h
      cases h
    | accept type =>
      rw [hstep] at h
      exact Sum.inr.inj h
    | unget type =>
      rw [hstep] at h
      exact Sum.inr.inj h

/-- **The scanner returns**, after at most two passes for each character and
one more. -/
theorem scanner_returns (prev : TokenType) (input : List Char) :
    ∃ n ≤ 2 * input.length + 1,
      Returns (scannerPass prev) ⟨.initial, [], input⟩ n (scannerGetNextToken prev input) := by
  obtain ⟨n, hn, r, hret⟩ := exists_returns_le ScannerLoop.measure
    (fun _ _ => scannerPass_measure) ⟨.initial, [], input⟩
  have hr := hret.eq (f := ScannerLoop.result prev) (fun _ _ => scannerPass_next)
    fun _ _ => scannerPass_ret
  rw [hr] at hret
  exact ⟨n, hn, hret⟩

theorem scan_suffix (prev : TokenType) (input : List Char) :
    ∀ (state : ScanState) (text : List Char), (scan prev state text input).2 <:+ input := by
  induction input with
  | nil =>
    intro state text
    exact List.suffix_refl []
  | cons c input ih =>
    intro state text
    rw [scan]
    split
    · exact (ih _ _).trans (List.suffix_cons c input)
    · exact List.suffix_cons c input
    · exact List.suffix_refl _

/-! ## The calls of the parser -/

instance (type : TokenType) : Decidable type.IsStuck := inferInstanceAs (Decidable (_ ∨ _))

/-- A call on the stack of the parser. The tokens that are accepted are not
those of a value that was not understood. -/
inductive ParserCall where
  | rConfiguration
  | rSectionList
  | rSection
  | rSectionName
  | rDefinitionList
  | rDefinition
  | rKey
  | rValue
  | rIntValue
  | rStringValue
  | rOptStringList
  | rListSep
  | rListStringValue
  | callCallback
  | tokenAccept (token : TokenType) (h : ¬ token.IsStuck)

variable {σ : Type} (callback : ConfParserCallback σ)

/-- What a call does by itself, and then the calls it makes. -/
def ParserCall.enter : ParserCall → A6oConfParser σ → Flow σ × List ParserCall
  | .rConfiguration, cp => (.next cp, [.rSectionList])
  | .rSectionList, cp =>
    (.next cp, if cp.lookahead.type = .leftBrace then [.rSection, .rSectionList] else [])
  | .rSection, cp =>
    (.next cp, [.tokenAccept .leftBrace (by decide), .rSectionName,
      .tokenAccept .rightBrace (by decide), .rDefinitionList])
  | .rSectionName, cp =>
    (.next { cp with currentSection := some (osStrdup cp.lookahead.text) },
      [.tokenAccept .string (by decide)])
  | .rDefinitionList, cp =>
    (.next cp, if cp.lookahead.type = .string then [.rDefinition, .rDefinitionList] else [])
  | .rDefinition, cp =>
    (.next cp, [.rKey, .tokenAccept .equalSign (by decide), .rValue, .callCallback])
  | .rKey, cp =>
    (.next { cp with currentKey := some (osStrdup cp.lookahead.text) },
      [.tokenAccept .string (by decide)])
  | .rValue, cp =>
    if cp.lookahead.type = .integer then (.next cp, [.rIntValue])
    else if cp.lookahead.type = .string then (.next cp, [.rStringValue, .rOptStringList])
    else (.longjmp cp, [])
  | .rIntValue, cp =>
    (.next
      { cp with
        currentValueType := .int
        currentValueInt := atoi (osStrdup cp.lookahead.text) },
      [.tokenAccept .integer (by decide)])
  | .rStringValue, cp =>
    (.next
      { cp with
        currentValueType := .string
        currentValueString := some (osStrdup cp.lookahead.text) },
      [.tokenAccept .string (by decide)])
  | .rOptStringList, cp =>
    (.next cp,
      if cp.lookahead.type = .comma ∨ cp.lookahead.type = .semiColon then
        [.rListSep, .rListStringValue, .rOptStringList]
      else [])
  | .rListSep, cp =>
    (.next cp,
      if cp.lookahead.type = .comma then [.tokenAccept .comma (by decide)]
      else [.tokenAccept .semiColon (by decide)])
  | .rListStringValue, cp =>
    let cp := startList cp
    (.next { cp with currentValueList := cp.currentValueList ++ [osStrdup cp.lookahead.text] },
      [.tokenAccept .string (by decide)])
  | .callCallback, cp => (Conf.callCallback callback cp, [])
  | .tokenAccept token _, cp => (Conf.tokenAccept cp token, [])

/-- How many tokens the call itself takes from the scanner. -/
def ParserCall.reads : ParserCall → A6oConfParser σ → Nat
  | .tokenAccept token _, cp =>
    if cp.lookahead.type = token ∧ cp.lookahead.type ≠ .eof then 1 else 0
  | _, _ => 0

/-- `reads` is how often `scanner_get_next_token` has been called. -/
structure ParserLoop (σ : Type) where
  stack : List ParserCall
  cp : A6oConfParser σ
  reads : Nat

/-- The call on top of the stack is made; `longjmp` leaves all of them. What
is returned is the status, with the user data, and the number of tokens. -/
def parserPass (s : ParserLoop σ) : ParserLoop σ ⊕ (Int × σ) × Nat :=
  match s.stack with
  | [] => .inr ((0, s.cp.userData), s.reads)
  | call :: stack =>
    match call.enter callback s.cp with
    | (.next cp, calls) =>
      .inl { stack := calls ++ stack, cp, reads := s.reads + call.reads s.cp }
    | (.longjmp cp, _) => .inr ((-2, cp.userData), s.reads)

/-- `a6o_conf_parser_parse`, when the first token has been read. -/
def parserLoopStart (text : List Char) (userData : σ) : ParserLoop σ :=
  { stack := [.rConfiguration, .tokenAccept .eof (by decide)]
    cp := parserStart text userData
    reads := 1 }

theorem parserPass_inl {s s' : ParserLoop σ} (h : parserPass callback s = .inl s') :
    ∃ call stack cp calls, s.stack = call :: stack ∧
      call.enter callback s.cp = (.next cp, calls) ∧
      s' = { stack := calls ++ stack, cp, reads := s.reads + call.reads s.cp } := by
  rw [parserPass] at h
  split at h
  · cases h
  · next call stack hstack =>
    split at h
    · next cp calls henter =>
      cases h
      exact ⟨call, stack, cp, calls, hstack, henter, rfl⟩
    · cases h

/-! ## The calls are the functions -/

/-- The function that is called. -/
def ParserCall.run : ParserCall → A6oConfParser σ → Flow σ
  | .rConfiguration => Conf.rConfiguration callback
  | .rSectionList => Conf.rSectionList callback
  | .rSection => Conf.rSection callback
  | .rSectionName => Conf.rSectionName
  | .rDefinitionList => Conf.rDefinitionList callback
  | .rDefinition => Conf.rDefinition callback
  | .rKey => Conf.rKey
  | .rValue => Conf.rValue
  | .rIntValue => Conf.rIntValue
  | .rStringValue => Conf.rStringValue
  | .rOptStringList => Conf.rOptStringList
  | .rListSep => Conf.rListSep
  | .rListStringValue => Conf.rListStringValue
  | .callCallback => Conf.callCallback callback
  | .tokenAccept token _ => fun cp => Conf.tokenAccept cp token

/-- The calls that are on the stack, one after the other. -/
def runCalls : List ParserCall → A6oConfParser σ → Flow σ
  | [], cp => .next cp
  | call :: stack, cp => (call.run callback cp).bind (runCalls stack)

theorem runCalls_append (calls stack : List ParserCall) :
    ∀ cp : A6oConfParser σ, runCalls callback (calls ++ stack) cp =
      (runCalls callback calls cp).bind (runCalls callback stack) := by
  induction calls with
  | nil => exact fun cp => rfl
  | cons call calls ih =>
    intro cp
    rw [List.cons_append, runCalls, runCalls, Flow.bind_assoc]
    exact congrArg _ (funext ih)

theorem Flow.bind_next (x : Flow σ) : x.bind Flow.next = x := by
  cases x <;> rfl

theorem rSectionList_eq (cp : A6oConfParser σ) :
    rSectionList callback cp =
      if cp.lookahead.type = .leftBrace then (rSection callback cp).bind (rSectionList callback)
      else .next cp := by
  rw [rSectionList]
  cases rSection callback cp <;> rfl

theorem rDefinitionList_eq (cp : A6oConfParser σ) :
    rDefinitionList callback cp =
      if cp.lookahead.type = .string then
        (rDefinition callback cp).bind (rDefinitionList callback)
      else .next cp := by
  rw [rDefinitionList]
  cases rDefinition callback cp <;> rfl

theorem rOptStringList_eq (cp : A6oConfParser σ) :
    rOptStringList cp =
      if cp.lookahead.type = .comma ∨ cp.lookahead.type = .semiColon then
        (rListElement cp).bind rOptStringList
      else .next cp := by
  rw [rOptStringList]
  cases rListElement cp <;> rfl

/-- A function is what it does by itself, and then what it calls. -/
theorem ParserCall.run_eq (call : ParserCall) (cp : A6oConfParser σ) :
    call.run callback cp =
      (call.enter callback cp).1.bind (runCalls callback (call.enter callback cp).2) := by
  have hone : ∀ (c : ParserCall) (cp : A6oConfParser σ),
      runCalls callback [c] cp = c.run callback cp :=
    fun c cp => Flow.bind_next _
  cases call with
  | rConfiguration => exact (hone .rSectionList cp).symm
  | rSectionList =>
    simp only [run, enter, rSectionList_eq, Flow.next_bind]
    split
    · simp only [runCalls, run, Flow.bind_next]
    · rfl
  | rSection =>
    simp only [run, enter, Conf.rSection, rSectionHead, Flow.next_bind, runCalls,
      Flow.bind_assoc, Flow.bind_next]
  | rSectionName => exact (hone _ _).symm
  | rDefinitionList =>
    simp only [run, enter, rDefinitionList_eq, Flow.next_bind]
    split
    · simp only [runCalls, run, Flow.bind_next]
    · rfl
  | rDefinition =>
    simp only [run, enter, Conf.rDefinition, Flow.next_bind, runCalls, Flow.bind_next]
  | rKey => exact (hone _ _).symm
  | rValue =>
    simp only [run, enter, Conf.rValue]
    split
    · rw [Flow.next_bind, hone]
      rfl
    · split
      · simp only [Flow.next_bind, runCalls, run, Flow.bind_next]
      · rfl
  | rIntValue => exact (hone _ _).symm
  | rStringValue => exact (hone _ _).symm
  | rOptStringList =>
    simp only [run, enter, rOptStringList_eq, Flow.next_bind]
    split
    · simp only [runCalls, run, rListElement, Flow.bind_assoc, Flow.bind_next]
    · rfl
  | rListSep =>
    simp only [run, enter, Conf.rListSep, Flow.next_bind]
    split
    · rw [hone]
      rfl
    · rw [hone]
      rfl
  | rListStringValue => exact (hone _ _).symm
  | callCallback => exact (Flow.bind_next _).symm
  | tokenAccept token h => exact (Flow.bind_next _).symm

/-! ## Descent -/

/-- The characters that are left, and the lookahead when it can be accepted. -/
def potential (cp : A6oConfParser σ) : Nat :=
  cp.scanner.length +
    if cp.lookahead.type = .eof ∨ cp.lookahead.type.IsStuck then 0 else 1

/-- Reading a token of a text with `length` characters. -/
theorem potential_le {prev : TokenType} {input : List Char} {cp : A6oConfParser σ}
    (hlookahead : cp.lookahead = (scannerGetNextToken prev input).1)
    (hscanner : cp.scanner = (scannerGetNextToken prev input).2) :
    potential cp ≤ input.length := by
  have hle : (scannerGetNextToken prev input).2.length ≤ input.length := scan_length _ _ _ _
  rw [potential, hlookahead, hscanner]
  rcases scannerGetNextToken_length prev input with heof | hlt | ⟨-, hstuck, -⟩
  · rw [if_pos (.inl heof)]
    exact hle
  · split <;> omega
  · rw [if_pos (.inr hstuck)]
    exact hle

theorem potential_advance {cp : A6oConfParser σ} {token : TokenType}
    (hlookahead : cp.lookahead.type = token) (heof : token ≠ .eof) (hstuck : ¬ token.IsStuck) :
    potential (advance cp token) < potential cp := by
  have hle : potential (advance cp token) ≤ cp.scanner.length := potential_le rfl rfl
  have hnot : ¬ (cp.lookahead.type = .eof ∨ cp.lookahead.type.IsStuck) := by
    rw [hlookahead]
    exact not_or.mpr ⟨heof, hstuck⟩
  rw [potential.eq_def cp, if_neg hnot]
  omega

/-- Calls that accept a token, or leave the parser, before they return. -/
def ParserCall.accepts : ParserCall → Bool
  | .tokenAccept token _ => token ≠ .eof
  | .rConfiguration | .rSectionList | .rDefinitionList | .rOptStringList | .callCallback => false
  | _ => true

/-- More than the calls it leads to weigh, as far as the next token. -/
def ParserCall.weight : ParserCall → Nat
  | .tokenAccept _ _ | .callCallback => 1
  | .rDefinition | .rValue | .rSectionList | .rOptStringList => 3
  | .rConfiguration | .rDefinitionList => 4
  | _ => 2

/-- What lies on the stack before the next token is accepted. -/
def stackWeight : List ParserCall → Nat
  | [] => 0
  | call :: stack => call.weight + if call.accepts then 0 else stackWeight stack

theorem callCallback_scanner {cp cp' : A6oConfParser σ}
    (h : Conf.callCallback callback cp = .next cp') :
    cp'.scanner = cp.scanner ∧ cp'.lookahead = cp.lookahead := by
  have hafter : ∀ (cp : A6oConfParser σ) (ret : Int × σ), afterCallback cp ret = .next cp' →
      cp'.scanner = cp.scanner ∧ cp'.lookahead = cp.lookahead := by
    intro cp ret h
    unfold afterCallback at h
    split at h
    · cases h
    · cases h
      exact ⟨rfl, rfl⟩
  unfold Conf.callCallback at h
  split at h
  · exact hafter cp _ h
  · exact hafter { cp with currentValueString := none } _ h
  · exact hafter { cp with currentValueList := [] } _ h
  · exact hafter cp _ h

theorem startList_scanner (cp : A6oConfParser σ) :
    (startList cp).scanner = cp.scanner ∧ (startList cp).lookahead = cp.lookahead := by
  unfold startList
  split <;> exact ⟨rfl, rfl⟩

/-- A token that is accepted is used up, unless it is the end. -/
theorem tokenAccept_next {token : TokenType} (hstuck : ¬ token.IsStuck)
    {cp cp' : A6oConfParser σ} (h : Conf.tokenAccept cp token = .next cp') :
    cp.lookahead.type = token ∧
      (token = .eof ∧ cp' = cp ∨ token ≠ .eof ∧ potential cp' < potential cp) := by
  by_cases htoken : cp.lookahead.type = token
  · refine ⟨htoken, ?_⟩
    by_cases heof : token = .eof
    · rw [Conf.tokenAccept, if_pos htoken, if_neg (by simp [htoken, heof])] at h
      cases h
      exact .inl ⟨heof, rfl⟩
    · rw [(tokenAccept_of_eq htoken heof).1] at h
      cases h
      exact .inr ⟨heof, potential_advance htoken heof hstuck⟩
  · rw [tokenAccept_of_ne htoken] at h
    cases h

/-- A call accepts a token, or leads to lighter calls. -/
theorem ParserCall.enter_next {call : ParserCall} {cp cp' : A6oConfParser σ}
    {calls : List ParserCall} (h : call.enter callback cp = (.next cp', calls))
    (stack : List ParserCall) :
    potential cp' < potential cp ∧ call.reads cp = 1 ∨
      potential cp' = potential cp ∧ call.reads cp = 0 ∧
        stackWeight (calls ++ stack) < stackWeight (call :: stack) := by
  cases call with
  | tokenAccept token hstuck =>
    simp only [enter, Prod.mk.injEq] at h
    obtain ⟨haccept, rfl⟩ := h
    obtain ⟨htoken, ⟨heof, rfl⟩ | ⟨heof, hlt⟩⟩ := tokenAccept_next hstuck haccept
    · refine .inr ⟨rfl, ?_, ?_⟩
      · simp [reads, htoken, heof]
      · simp [stackWeight, weight, accepts, heof]
    · exact .inl ⟨hlt, by simp [reads, htoken, heof]⟩
  | callCallback =>
    simp only [enter, Prod.mk.injEq] at h
    obtain ⟨hcall, rfl⟩ := h
    obtain ⟨hscanner, hlookahead⟩ := callCallback_scanner callback hcall
    refine .inr ⟨by rw [potential, potential, hscanner, hlookahead], rfl, ?_⟩
    simp [stackWeight, weight, accepts]
  | rListStringValue =>
    cases h
    obtain ⟨hscanner, hlookahead⟩ := startList_scanner cp
    refine .inr ⟨?_, rfl, by simp [stackWeight, weight, accepts]⟩
    simp only [potential, hscanner, hlookahead]
  | rValue =>
    simp only [enter] at h
    split_ifs at h
    · cases h
      exact .inr ⟨rfl, rfl, by simp [stackWeight, weight, accepts]⟩
    · cases h
      exact .inr ⟨rfl, rfl, by simp [stackWeight, weight, accepts]⟩
    · cases h
  | rSectionList | rDefinitionList | rOptStringList =>
    cases h
    refine .inr ⟨rfl, rfl, ?_⟩
    split
    · simp [stackWeight, weight, accepts]
      omega
    · simp [stackWeight, weight, accepts]
  | rListSep =>
    cases h
    refine .inr ⟨rfl, rfl, ?_⟩
    split <;> simp [stackWeight, weight, accepts]
  | _ =>
    cases h
    exact .inr ⟨rfl, rfl, by simp [stackWeight, weight, accepts]⟩

/-- **One pass** of the parser reads a token and uses up what it stands for,
or leaves a lighter stack. -/
theorem parserPass_next {s s' : ParserLoop σ} (h : parserPass callback s = .inl s') :
    potential s'.cp < potential s.cp ∧ s'.reads = s.reads + 1 ∨
      potential s'.cp = potential s.cp ∧ s'.reads = s.reads ∧
        stackWeight s'.stack < stackWeight s.stack := by
  obtain ⟨call, stack, cp, calls, hstack, henter, rfl⟩ := parserPass_inl callback h
  rw [hstack]
  rcases call.enter_next callback henter stack with ⟨hlt, hreads⟩ | ⟨heq, hreads, hweight⟩
  · exact .inl ⟨hlt, by rw [hreads]⟩
  · exact .inr ⟨heq, by rw [hreads]; rfl, hweight⟩

/-- The result of the parser from a pass on. -/
def outcome (flow : Flow σ) : Int × σ :=
  match flow with
  | .next cp => (0, cp.userData)
  | .longjmp cp => (-2, cp.userData)

theorem parserPass_inl_outcome {s s' : ParserLoop σ} (h : parserPass callback s = .inl s') :
    outcome (runCalls callback s'.stack s'.cp) = outcome (runCalls callback s.stack s.cp) := by
  obtain ⟨call, stack, cp, calls, hstack, henter, rfl⟩ := parserPass_inl callback h
  rw [hstack, runCalls, call.run_eq, henter, Flow.next_bind, runCalls_append]

theorem parserPass_inr_outcome {s : ParserLoop σ} {r : (Int × σ) × Nat}
    (h : parserPass callback s = .inr r) :
    r = (outcome (runCalls callback s.stack s.cp), s.reads) := by
  obtain ⟨stack, cp, reads⟩ := s
  cases stack with
  | nil =>
    cases h
    rfl
  | cons call stack =>
    rw [runCalls, call.run_eq]
    simp only [parserPass] at h
    cases henter : call.enter callback cp with
    | mk flow calls =>
      rw [henter] at h
      cases flow with
      | next cp' => cases h
      | longjmp cp' =>
        cases h
        rfl

theorem outcome_parserLoopStart (text : List Char) (u : σ) :
    outcome (runCalls callback (parserLoopStart text u).stack (parserLoopStart text u).cp) =
      a6oConfParserParse callback (some text) u := by
  have hcalls : runCalls callback (parserLoopStart text u).stack (parserLoopStart text u).cp =
      (rConfiguration callback (parserStart text u)).bind fun cp => tokenAccept cp .eof := by
    simp only [parserLoopStart, runCalls, ParserCall.run, Flow.bind_next]
  rw [hcalls, a6oConfParserParse]
  cases (rConfiguration callback (parserStart text u)).bind fun cp => tokenAccept cp .eof <;> rfl

/-- The tokens read before a pass, and those that can still be. -/
def ReadsWithin (bound : Nat) (s : ParserLoop σ) : Prop := s.reads + potential s.cp ≤ bound

theorem parser_terminates (s : ParserLoop σ) : ∃ n r, Returns (parserPass callback) s n r := by
  refine exists_returns (R := InvImage (Prod.Lex (· < ·) (· < ·))
    fun s => (potential s.cp, stackWeight s.stack)) ?_ (I := fun _ => True) ?_ s trivial
  · exact InvImage.wf _ (Prod.lex Nat.lt_wfRel Nat.lt_wfRel).wf
  · intro s s' _ h
    refine ⟨trivial, ?_⟩
    show Prod.Lex _ _ (potential s'.cp, _) (potential s.cp, _)
    rcases parserPass_next callback h with ⟨hlt, -⟩ | ⟨heq, -, hweight⟩
    · exact .left _ _ hlt
    · rw [heq]
      exact .right _ hweight

/-- **The parser returns** what its functions return, and has read a token
for each character and one more, at most. -/
theorem parser_returns (text : List Char) (u : σ) :
    ∃ n, ∃ reads ≤ text.length + 1,
      Returns (parserPass callback) (parserLoopStart text u) n
        (a6oConfParserParse callback (some text) u, reads) := by
  obtain ⟨n, r, hret⟩ := parser_terminates callback (parserLoopStart text u)
  have houtcome : r.1 = a6oConfParserParse callback (some text) u := by
    refine hret.invariant
      (I := fun s => outcome (runCalls callback s.stack s.cp) =
        a6oConfParserParse callback (some text) u)
      (Q := fun r => r.1 = a6oConfParserParse callback (some text) u) ?_ ?_ ?_
    · intro s s' hs hpass
      rw [parserPass_inl_outcome callback hpass, hs]
    · intro s r hs hpass
      rw [parserPass_inr_outcome callback hpass, hs]
    · exact outcome_parserLoopStart callback text u
  have hreads : r.2 ≤ text.length + 1 := by
    refine hret.invariant (I := ReadsWithin (text.length + 1))
      (Q := fun r => r.2 ≤ text.length + 1) ?_ ?_ ?_
    · intro s s' hs hpass
      rw [ReadsWithin] at hs ⊢
      rcases parserPass_next callback hpass with ⟨hlt, hreads⟩ | ⟨heq, hreads, -⟩
      · omega
      · omega
    · intro s r hs hpass
      rw [parserPass_inr_outcome callback hpass]
      exact Nat.le_trans (Nat.le_add_right _ _) hs
    · have hstart : potential (parserStart text u) ≤ text.length := potential_le rfl rfl
      show 1 + potential (parserStart text u) ≤ _
      omega
  exact ⟨n, r.2, hreads, by rw [← houtcome]; exact hret⟩

/-- **The scanner and the parser return** on every input. The loop of the
scanner makes at most two passes for each character and one more; the rest
it leaves is the end of the input, and shorter than the input, but for the
end of the file and a value that was not understood. The parser takes at
most one token for each character and one more. -/
theorem scanner_parser_return :
    (∀ (prev : TokenType) (input : List Char),
      (∃ n ≤ 2 * input.length + 1, Returns (scannerPass prev) ⟨.initial, [], input⟩ n
        (scannerGetNextToken prev input)) ∧
      (scannerGetNextToken prev input).2 <:+ input ∧
      ((scannerGetNextToken prev input).1.type = .eof ∨
        (scannerGetNextToken prev input).1.type = .none ∨
        (scannerGetNextToken prev input).1.type = .error ∨
        (scannerGetNextToken prev input).2.length < input.length)) ∧
    ∀ (callback : ConfParserCallback σ) (text : List Char) (u : σ),
      ∃ n, ∃ reads ≤ text.length + 1,
        Returns (parserPass callback) (parserLoopStart text u) n
          (a6oConfParserParse callback (some text) u, reads) := by
  refine ⟨fun prev input => ⟨scanner_returns prev input, ?_, ?_⟩, parser_returns⟩
  · exact scan_suffix prev input .initial []
  · rcases scannerGetNextToken_length prev input with heof | hlt | ⟨-, hstuck, -⟩
    · exact .inl heof
    · exact .inr (.inr (.inr hlt))
    · rcases hstuck with hnone | herror
      · exact .inr (.inl hnone)
      · exact .inr (.inr (.inl herror))

end Armadito.Conf
