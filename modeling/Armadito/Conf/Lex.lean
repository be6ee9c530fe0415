import Armadito.Conf.Parser

/-!
# Conf.Lex

Pieces of text and the tokens the scanner makes of them. A piece is read
after some token and in front of any rest of the input that does not go on
with its last token; blanks stand at the beginning of a piece.
-/

namespace Armadito.Conf

/-- The scanner turns the input into the tokens `ts`, the last of type
`last`, and is left in front of `rest`. -/
def Lexes (prev : TokenType) (input : List Char) (ts : List Token) (last : TokenType)
    (rest : List Char) : Prop :=
  tokens prev input = ts ++ tokens last rest

theorem Lexes.trans {p q r : TokenType} {i j k : List Char} {ts ts' : List Token}
    (h : Lexes p i ts q j) (h' : Lexes q j ts' r k) : Lexes p i (ts ++ ts') r k := by
  rw [Lexes, List.append_assoc, ← h']
  exact h

theorem Lexes.of_next {prev : TokenType} {input rest : List Char} {t : Token}
    (h : scannerGetNextToken prev input = (t, rest)) (ht : t.type ≠ .eof) :
    Lexes prev input [t] t.type rest := by
  rw [Lexes, tokens]
  simp only [h]
  rw [if_neg ht]
  rfl

/-- Only the first call of the scanner sees the input. -/
theorem tokens_congr {prev : TokenType} {i j : List Char}
    (h : scannerGetNextToken prev i = scannerGetNextToken prev j) :
    tokens prev i = tokens prev j := by
  rw [tokens.eq_def prev i, tokens.eq_def prev j]
  simp only [h]

/-! ## Blanks -/

/-- A blank in front of another character is skipped. -/
theorem scannerGetNextToken_space {c : Char} (hc : isSpace c = false) (prev : TokenType)
    (rest : List Char) :
    scannerGetNextToken prev (' ' :: c :: rest) = scannerGetNextToken prev (c :: rest) := by
  have hspace : scanStep prev .initial ' ' = .goto .space false := rfl
  have hstep : scanStep prev .space c = scanStep prev .initial c := by
    show (if isSpace c then _ else _) = initialStep prev c
    rw [hc, if_neg Bool.false_ne_true]
  rw [scannerGetNextToken, scannerGetNextToken, scan, hspace]
  simp only [Bool.false_eq_true, if_false]
  rw [scan, scan, hstep]

theorem Lexes.space {prev last : TokenType} {c : Char} {rest rest' : List Char}
    {ts : List Token} (hc : isSpace c = false) (h : Lexes prev (c :: rest) ts last rest') :
    Lexes prev (' ' :: c :: rest) ts last rest' := by
  rw [Lexes, tokens_congr (scannerGetNextToken_space hc prev rest)]
  exact h

/-- A newline is skipped, but not behind an equal sign. -/
theorem Lexes.newline {prev : TokenType} (hprev : prev ≠ .equalSign) (rest : List Char) :
    Lexes prev ('\n' :: rest) [] prev rest := by
  refine tokens_congr ?_
  have hstep : scanStep prev .initial '\n' = .goto .initial false := by
    show initialStep prev '\n' = _
    simp [initialStep, hprev, isBlank, isFirstIdentifier, punctuation]
  rw [scannerGetNextToken, scan, hstep]
  rfl

/-! ## Tokens of one character -/

theorem Lexes.punctuation {prev type : TokenType} {c : Char} (hprev : prev ≠ .equalSign)
    (hc : punctuation c = some type) (rest : List Char) :
    Lexes prev (c :: rest) [⟨type, [c]⟩] type rest := by
  have hstep : scanStep prev .initial c = .accept type := by
    show initialStep prev c = _
    unfold Armadito.Conf.punctuation at hc
    split_ifs at hc with h1 h2 h3 h4 h5 <;> subst_vars <;> cases hc <;>
      simp [initialStep, hprev, isBlank, isFirstIdentifier, Armadito.Conf.punctuation]
  have hne : type ≠ .string ∧ type ≠ .eof := by
    unfold Armadito.Conf.punctuation at hc
    split_ifs at hc <;> cases hc <;> decide
  refine .of_next ?_ hne.2
  rw [scannerGetNextToken, scan, hstep]
  simp [acceptText, hne.1]

/-! ## Identifiers, integers and strings -/

/-- A loop of the automaton: characters that stay in the state and belong
to the token. -/
theorem scan_loop {prev : TokenType} {state : ScanState} {cs : List Char}
    (h : ∀ c ∈ cs, scanStep prev state c = .goto state true) (text rest : List Char) :
    scan prev state text (cs ++ rest) = scan prev state (text ++ cs) rest := by
  induction cs generalizing text with
  | nil => simp
  | cons c cs ih =>
    rw [List.cons_append, scan, h c List.mem_cons_self]
    simp only [if_true]
    rw [ih (fun d hd => h d (List.mem_cons_of_mem c hd)), List.append_assoc]
    rfl

/-- The name of a section or a key. -/
def isName : CString → Bool
  | [] => false
  | c :: cs => isFirstIdentifier c && cs.all isIdentifier

theorem initialStep_identifier {prev : TokenType} {c : Char} (hc : isFirstIdentifier c = true) :
    initialStep prev c = .goto .identifier true := by
  have hne : ∀ d : Char, isFirstIdentifier d = false → c ≠ d := by
    intro d hd heq
    rw [heq, hd] at hc
    cases hc
  have hblank : isBlank c = false := by
    simp [isBlank, hne ' ' (by decide), hne '\t' (by decide)]
  rw [initialStep, hblank, if_neg Bool.false_ne_true, if_neg (hne '#' (by decide)),
    if_neg (hne '"' (by decide)), if_pos hc]

theorem Lexes.identifier {prev : TokenType} {name : CString} (hname : isName name = true)
    {d : Char} (hd : isIdentifier d = false) (rest : List Char) :
    Lexes prev (name ++ d :: rest) [⟨.string, name⟩] .string (d :: rest) := by
  refine .of_next (t := ⟨.string, name⟩) ?_ (by simp)
  cases name with
  | nil => cases hname
  | cons c cs =>
    rw [isName, Bool.and_eq_true, List.all_eq_true] at hname
    have hstart : scanStep prev .initial c = .goto .identifier true :=
      initialStep_identifier hname.1
    have hgo : ∀ e ∈ cs, scanStep prev .identifier e = .goto .identifier true := by
      intro e he
      rw [scanStep, if_pos (hname.2 e he)]
    have hstop : scanStep prev .identifier d = .unget .string := by
      rw [scanStep, if_neg (by simp [hd])]
    rw [List.cons_append, scannerGetNextToken, scan, hstart]
    simp only [if_true]
    rw [scan_loop hgo, scan, hstop]
    rfl

theorem digit_not_alpha {c : Char} (hc : c.isDigit = true) : c.isAlpha = false := by
  rw [Bool.eq_false_iff]
  intro h
  change (decide (65 ≤ c.val ∧ c.val ≤ 90) ||
    (decide (97 ≤ c.val) && decide (c.val ≤ 122))) = true at h
  rw [Char.isDigit_iff_toNat] at hc
  simp only [Bool.or_eq_true, Bool.and_eq_true, decide_eq_true_eq,
    UInt32.le_iff_toNat_le] at h
  change 48 ≤ c.toNat ∧ c.toNat ≤ 57 at hc
  change (65 ≤ c.toNat ∧ c.toNat ≤ 90) ∨ (97 ≤ c.toNat ∧ c.toNat ≤ 122) at h
  omega

theorem digit_not_space {c : Char} (hc : c.isDigit = true) : isSpace c = false := by
  have hne : ∀ d : Char, d.isDigit = false → (c == d) = false := by
    intro d hd
    rw [beq_eq_false_iff_ne]
    intro heq
    rw [heq, hd] at hc
    cases hc
  simp [isSpace, isBlank, hne ' ' (by decide), hne '\t' (by decide), hne '\n' (by decide),
    hne '\r' (by decide), hne (Char.ofNat 11) (by decide), hne (Char.ofNat 12) (by decide)]

theorem initialStep_digit {prev : TokenType} {c : Char} (hc : c.isDigit = true) :
    initialStep prev c = .goto .integer true := by
  have hne : ∀ d : Char, d.isDigit = false → c ≠ d := by
    intro d hd heq
    rw [heq, hd] at hc
    cases hc
  have hblank : isBlank c = false := by
    simp [isBlank, hne ' ' (by decide), hne '\t' (by decide)]
  have hfirst : isFirstIdentifier c = false := by
    have hunder : (c == '_') = false := by simp [hne '_' (by decide)]
    rw [isFirstIdentifier, digit_not_alpha hc, hunder, Bool.or_self]
  rw [initialStep, hblank, if_neg Bool.false_ne_true, if_neg (hne '#' (by decide)),
    if_neg (hne '"' (by decide)), hfirst, if_neg Bool.false_ne_true, if_pos hc]

theorem Lexes.integer {prev : TokenType} {digits : List Char} (hdigits : digits ≠ [])
    (hall : ∀ c ∈ digits, c.isDigit = true) {d : Char} (hd : d.isDigit = false)
    (rest : List Char) :
    Lexes prev (digits ++ d :: rest) [⟨.integer, digits⟩] .integer (d :: rest) := by
  refine .of_next (t := ⟨.integer, digits⟩) ?_ (by simp)
  cases digits with
  | nil => exact absurd rfl hdigits
  | cons c cs =>
    have hstart : scanStep prev .initial c = .goto .integer true :=
      initialStep_digit (hall c List.mem_cons_self)
    have hgo : ∀ e ∈ cs, scanStep prev .integer e = .goto .integer true := by
      intro e he
      rw [scanStep, if_pos (hall e (List.mem_cons_of_mem c he))]
    have hstop : scanStep prev .integer d = .unget .integer := by
      rw [scanStep, if_neg (by simp [hd])]
    rw [List.cons_append, scannerGetNextToken, scan, hstart]
    simp only [if_true]
    rw [scan_loop hgo, scan, hstop]
    rfl

/-- Anything but a quote may stand between quotes. -/
theorem Lexes.string {prev : TokenType} {s : List Char} (hs : '"' ∉ s) (rest : List Char) :
    Lexes prev ('"' :: s ++ '"' :: rest) [⟨.string, s⟩] .string rest := by
  refine .of_next (t := ⟨.string, s⟩) ?_ (by simp)
  have hstart : scanStep prev .initial '"' = .goto .string false := rfl
  have hgo : ∀ e ∈ s, scanStep prev .string e = .goto .string true := by
    intro e he
    have hne : e ≠ '"' := by
      intro heq
      exact hs (heq ▸ he)
    show (if e ≠ '"' then _ else _) = _
    rw [if_pos hne]
  have hstop : scanStep prev .string '"' = .accept .string := rfl
  rw [List.cons_append, scannerGetNextToken, scan, hstart]
  simp only [Bool.false_eq_true, if_false]
  rw [scan_loop hgo, scan, hstop]
  rfl

/-! ## The end of the file -/

theorem tokens_nil (prev : TokenType) : tokens prev [] = [⟨.eof, []⟩] := by
  rw [tokens]
  rfl

end Armadito.Conf
