import Armadito.Conf.Loaded

/-!
# Conf.Written

A saved configuration under the scanner. Names are written without quotes
and values between quotes, so the scanner can be in two positions: outside,
where its quotes are those of the values, or inside, where it reads the
values as text and what lies between them as strings.

It gets inside only when a comment swallows a quote, and a comment begins
with a `#` of some name.
-/

namespace Armadito.Conf

/-- The names written. -/
abbrev Names := CString → Prop

/-- Some name has a `#`. -/
def Names.Hashed (names : Names) : Prop := ∃ n, names n ∧ '#' ∈ n

/-- A `#` of the text is in a name shorter than the text. -/
def ShorterName (names : Names) (text : List Char) : Prop :=
  '#' ∈ text → ∃ n, names n ∧ '#' ∈ n ∧ n.length < text.length

/-- The characters in front of a value, with the tokens they make. -/
def IsSep (sep : Char) (type : TokenType) : Prop :=
  (sep = '=' ∧ type = .equalSign) ∨ (sep = ';' ∧ type = .semiColon)

/-- Text without quotes, and values between quotes. -/
inductive Written (names : Names) : List Char → Prop where
  | nil : Written names []
  | plain {piece rest : List Char} (hquote : '"' ∉ piece) (hhash : ShorterName names piece)
      (hrest : Written names rest) : Written names (piece ++ rest)
  | value {sep : Char} {type : TokenType} {v rest : List Char} (hsep : IsSep sep type)
      (hv : '"' ∉ v) (hrest : Written names rest) :
      Written names ([sep, ' '] ++ '"' :: (v ++ '"' :: rest))

variable {names : Names}

theorem Written.append {a b : List Char} (ha : Written names a) (hb : Written names b) :
    Written names (a ++ b) := by
  induction ha with
  | nil => exact hb
  | plain hquote hhash _ ih =>
    rw [List.append_assoc]
    exact .plain hquote hhash ih
  | @value sep type v rest hsep hv _ ih =>
    have hvalue := Written.value hsep hv ih
    simpa using hvalue

theorem Written.flatMap {α : Type} {xs : List α} {f : α → List Char}
    (h : ∀ x ∈ xs, Written names (f x)) : Written names (xs.flatMap f) := by
  induction xs with
  | nil => exact .nil
  | cons x xs ih =>
    rw [List.flatMap_cons]
    exact (h x List.mem_cons_self).append (ih fun y hy => h y (List.mem_cons_of_mem x hy))

/-! ## Positions -/

/-- Behind the text `gap` that follows a value. -/
def Outside (names : Names) (gap input : List Char) : Prop :=
  '"' ∉ gap ∧ Written names (gap ++ input)

/-- Within a value. -/
def Inside (names : Names) (input : List Char) : Prop :=
  ∃ v rest, input = v ++ '"' :: rest ∧ '"' ∉ v ∧ Written names rest

theorem not_quote_sep {sep : Char} {type : TokenType} (hsep : IsSep sep type) :
    '"' ∉ [sep, ' '] := by
  rcases hsep with ⟨rfl, -⟩ | ⟨rfl, -⟩ <;> decide

/-- A quote that is met outside opens a value, with a separator in front. -/
structure Opens (names : Names) (gap input : List Char) : Prop where
  sep : ∃ sep type, IsSep sep type ∧ [sep, ' '] <:+ gap
  hash : ShorterName names gap
  inside : Inside names input

/-- Splitting a text in front of its first quote. -/
theorem append_quote_inj {u v a b : List Char} (hu : '"' ∉ u) (hv : '"' ∉ v)
    (h : u ++ '"' :: a = v ++ '"' :: b) : u = v ∧ a = b := by
  induction u generalizing v with
  | nil =>
    cases v with
    | nil => simpa using h
    | cons c v =>
      simp only [List.nil_append, List.cons_append, List.cons.injEq] at h
      exact absurd (h.1 ▸ List.mem_cons_self) hv
  | cons c u ih =>
    cases v with
    | nil =>
      simp only [List.nil_append, List.cons_append, List.cons.injEq] at h
      exact absurd (h.1 ▸ List.mem_cons_self) hu
    | cons d v =>
      simp only [List.cons_append, List.cons.injEq] at h
      rw [List.mem_cons, not_or] at hu hv
      obtain ⟨huv, hab⟩ := ih hu.2 hv.2 h.2
      exact ⟨by rw [h.1, huv], hab⟩

/-- A text without quotes is all in front of the first quote. -/
theorem append_before_quote {piece rest u b : List Char} (hpiece : '"' ∉ piece)
    (h : piece ++ rest = u ++ '"' :: b) : ∃ u', u = piece ++ u' ∧ rest = u' ++ '"' :: b := by
  rcases List.append_eq_append_iff.mp h with ⟨u', hu, hrest⟩ | ⟨b', hpiece', hb⟩
  · exact ⟨u', hu, hrest⟩
  · cases b' with
    | nil => exact ⟨[], by simpa using hpiece'.symm, by simpa using hb.symm⟩
    | cons c b' =>
      rw [List.cons_append, List.cons.injEq] at hb
      rw [hpiece', ← hb.1] at hpiece
      exact absurd (by simp) hpiece

theorem Written.opens {text gap input : List Char} (h : Written names text)
    (htext : text = gap ++ '"' :: input) (hgap : '"' ∉ gap) : Opens names gap input := by
  induction h generalizing gap with
  | nil => simp at htext
  | @plain piece rest hquote hhash hrest ih =>
    obtain ⟨gap', rfl, hrest'⟩ := append_before_quote hquote htext
    rw [List.mem_append, not_or] at hgap
    obtain ⟨⟨sep, type, hsep, hsuffix⟩, hgapHash, hinside⟩ := ih hrest' hgap.2
    refine ⟨⟨sep, type, hsep, hsuffix.trans (List.suffix_append piece gap')⟩, ?_, hinside⟩
    intro hmem
    rw [List.length_append]
    rcases List.mem_append.mp hmem with hmem | hmem
    · obtain ⟨n, hn, hnHash, hlen⟩ := hhash hmem
      exact ⟨n, hn, hnHash, by omega⟩
    · obtain ⟨n, hn, hnHash, hlen⟩ := hgapHash hmem
      exact ⟨n, hn, hnHash, by omega⟩
  | @value sep type v rest hsep hv hrest ih =>
    obtain ⟨rfl, rfl⟩ := append_quote_inj (not_quote_sep hsep) hgap htext
    refine ⟨⟨sep, type, hsep, List.suffix_rfl⟩, ?_, v, rest, rfl, hv, hrest⟩
    intro hmem
    rcases hsep with ⟨rfl, -⟩ | ⟨rfl, -⟩ <;> exact absurd hmem (by decide)

/-- A `#` that is met outside is in a name. -/
theorem Written.hashed {text gap input : List Char} (h : Written names text)
    (htext : text = gap ++ '#' :: input) (hgap : '"' ∉ gap) : names.Hashed := by
  induction h generalizing gap with
  | nil => simp at htext
  | @plain piece rest hquote hhash hrest ih =>
    rcases List.append_eq_append_iff.mp htext with ⟨gap', rfl, hrest'⟩ | ⟨b', hpiece, hb⟩
    · rw [List.mem_append, not_or] at hgap
      exact ih hrest' hgap.2
    · cases b' with
      | nil => exact ih (by simpa using hb.symm) (List.not_mem_nil)
      | cons c b' =>
        rw [List.cons_append, List.cons.injEq] at hb
        obtain ⟨n, hn, hnHash, -⟩ := hhash (by rw [hpiece, ← hb.1]; simp)
        exact ⟨n, hn, hnHash⟩
  | @value sep type v rest hsep hv hrest ih =>
    exfalso
    -- the `#` would have to be one of the two characters in front of the quote
    rcases List.append_eq_append_iff.mp htext with ⟨gap', rfl, hquote⟩ | ⟨b', hsepHash, hb⟩
    · cases gap' with
      | nil => simp at hquote
      | cons c gap' =>
        rw [List.cons_append, List.cons.injEq] at hquote
        rw [← hquote.1] at hgap
        exact hgap (by simp)
    · cases b' with
      | nil => simp at hb
      | cons c b' =>
        rw [List.cons_append, List.cons.injEq] at hb
        have hmem : '#' ∈ [sep, ' '] := by
          rw [hsepHash, ← hb.1]
          simp
        rcases hsep with ⟨rfl, -⟩ | ⟨rfl, -⟩ <;> exact absurd hmem (by decide)

theorem Outside.next {gap input : List Char} {c : Char} (h : Outside names gap (c :: input))
    (hc : c ≠ '"') : Outside names (gap ++ [c]) input := by
  refine ⟨quote_not_mem_concat h.1 hc, ?_⟩
  rw [← List.append_cons]
  exact h.2

theorem Outside.opens {gap input : List Char} (h : Outside names gap ('"' :: input)) :
    Opens names gap input :=
  h.2.opens rfl h.1

theorem Inside.next {input : List Char} {c : Char} (h : Inside names (c :: input))
    (hc : c ≠ '"') : Inside names input := by
  obtain ⟨v, rest, hinput, hv, hrest⟩ := h
  cases v with
  | nil =>
    rw [List.nil_append, List.cons.injEq] at hinput
    exact absurd hinput.1 hc
  | cons d v =>
    rw [List.cons_append, List.cons.injEq] at hinput
    rw [List.mem_cons, not_or] at hv
    exact ⟨v, rest, hinput.2, hv.2, hrest⟩

/-- A quote that is met inside closes the value. -/
theorem Inside.closes {input : List Char} (h : Inside names ('"' :: input)) :
    Outside names [] input := by
  obtain ⟨v, rest, hinput, hv, hrest⟩ := h
  have hnil : ([] : List Char) ++ '"' :: input = v ++ '"' :: rest := hinput
  obtain ⟨-, rfl⟩ := append_quote_inj List.not_mem_nil hv hnil
  exact ⟨List.not_mem_nil, hrest⟩

/-! ## One token -/

/-- Behind a separator, or a separator and a blank, the token before is
that separator. -/
def FollowsSep (prev : TokenType) (gap : List Char) : Prop :=
  ∀ sep type, IsSep sep type → [sep] <:+ gap ∨ [sep, ' '] <:+ gap → prev = type

/-- The scanner is outside with its last token in view, or it is inside,
and a name has a `#`. -/
def Place (names : Names) (prev : TokenType) (input : List Char) : Prop :=
  (∃ gap, Outside names gap input ∧ FollowsSep prev gap) ∨
    (names.Hashed ∧ Inside names input)

/-- A string that is neither a value nor an identifier is what lies between
two values. -/
def NameText (names : Names) (text : List Char) : Prop :=
  isName text = true ∨ (names.Hashed ∧ ShorterName names text)

/-- A string is a value, behind its separator, or a possible name. -/
def ReadAfter (names : Names) (prev : TokenType) (t : Token) : Prop :=
  t.type = .string → prev = .equalSign ∨ prev = .semiColon ∨ NameText names t.text

theorem followsSep_nil (prev : TokenType) : FollowsSep prev [] := by
  intro sep type _ hsuffix
  rcases hsuffix with h | h
  · exact absurd (List.suffix_nil.mp h) (by simp)
  · exact absurd (List.suffix_nil.mp h) (by simp)

theorem last_of_suffix {c d : Char} {gap : List Char} (h : [d] <:+ gap ++ [c]) : d = c := by
  obtain ⟨u, hu⟩ := h
  exact List.singleton_inj.mp (List.append_inj' hu rfl).2

theorem last_of_suffix_pair {c d e : Char} {gap : List Char} (h : [d, e] <:+ gap ++ [c]) :
    e = c ∧ [d] <:+ gap := by
  obtain ⟨u, hu⟩ := h
  rw [List.append_cons] at hu
  obtain ⟨hgap, hc⟩ := List.append_inj' hu rfl
  exact ⟨List.singleton_inj.mp hc, u, hgap⟩

/-- Behind a character that is no separator and no blank. -/
theorem followsSep_of_last (prev : TokenType) {c : Char} (hc : ∀ type, ¬ IsSep c type)
    (hblank : c ≠ ' ') (gap : List Char) : FollowsSep prev (gap ++ [c]) := by
  intro sep type hsep hsuffix
  rcases hsuffix with h | h
  · exact absurd (last_of_suffix h ▸ hsep) (hc type)
  · exact absurd (last_of_suffix_pair h).1.symm hblank

theorem not_isSep {c : Char} (hc : punctuation c = none) (type : TokenType) :
    ¬ IsSep c type := by
  rintro (⟨rfl, -⟩ | ⟨rfl, -⟩)
  · cases hc
  · cases hc

theorem punctuation_of_isIdentifier {c : Char} (hc : isIdentifier c = true) :
    punctuation c = none := by
  have hne : ∀ d : Char, isIdentifier d = false → c ≠ d := by
    intro d hd heq
    rw [heq, hd] at hc
    cases hc
  rw [punctuation, if_neg (hne '[' (by decide)), if_neg (hne ']' (by decide)),
    if_neg (hne '=' (by decide)), if_neg (hne ',' (by decide)), if_neg (hne ';' (by decide))]

theorem isIdentifier_of_digit {c : Char} (hc : c.isDigit = true) : isIdentifier c = true := by
  simp [isIdentifier, Char.isAlphanum, hc]

theorem followsSep_identifier (prev : TokenType) {c : Char} (hc : isIdentifier c = true)
    (gap : List Char) : FollowsSep prev (gap ++ [c]) := by
  refine followsSep_of_last prev (not_isSep (punctuation_of_isIdentifier hc)) ?_ gap
  rintro rfl
  cases hc

/-- A skipped character is no separator; a blank keeps the one in front. -/
theorem FollowsSep.skip {prev : TokenType} {gap : List Char} (h : FollowsSep prev gap)
    {c : Char} (hc : punctuation c = none) : FollowsSep prev (gap ++ [c]) := by
  intro sep type hsep hsuffix
  rcases hsuffix with hlast | hlast
  · exact absurd (last_of_suffix hlast ▸ hsep) (not_isSep hc type)
  · exact h sep type hsep (.inl (last_of_suffix_pair hlast).2)

theorem followsSep_accept {c : Char} {type : TokenType} (hc : punctuation c = some type)
    (gap : List Char) : FollowsSep type (gap ++ [c]) := by
  intro sep sepType hsep hsuffix
  rcases hsuffix with hlast | hlast
  · have heq := last_of_suffix hlast
    rw [← heq] at hc
    rcases hsep with ⟨rfl, rfl⟩ | ⟨rfl, rfl⟩
    · cases hc
      rfl
    · cases hc
      rfl
  · rw [← (last_of_suffix_pair hlast).1] at hc
    cases hc

/-- A character that keeps the scanner where it is. -/
theorem Place.next {prev prev' : TokenType} {input : List Char} {c : Char}
    (h : Place names prev (c :: input)) (hc : c ≠ '"')
    (hnext : ∀ gap, FollowsSep prev gap → FollowsSep prev' (gap ++ [c])) :
    Place names prev' input := by
  rcases h with ⟨gap, hout, hsep⟩ | ⟨hhashed, hin⟩
  · exact .inl ⟨gap ++ [c], hout.next hc, hnext gap hsep⟩
  · exact .inr ⟨hhashed, hin.next hc⟩

/-- The phases of a token behind one of type `prev`. -/
def placePhases (names : Names) (prev : TokenType) : Phases where
  bare text input := text = [] ∧ Place names prev input
  comment text input :=
    text = [] ∧ names.Hashed ∧ ((∃ gap, Outside names gap input) ∨ Inside names input)
  identifier text input := isName text = true ∧ Place names .string input
  integer _ input := Place names .integer input
  string text input :=
    ((prev = .equalSign ∨ prev = .semiColon) ∧ Inside names input) ∨
      (names.Hashed ∧ Outside names text input)

/-- What a token that is understood leaves behind. -/
def Delivers (names : Names) (prev : TokenType) (t : Token) (rest : List Char) : Prop :=
  ¬ t.type.IsStuck → t.type ≠ .eof → Place names t.type rest ∧ ReadAfter names prev t

theorem isName_concat {text : List Char} (h : isName text = true) {c : Char}
    (hc : isIdentifier c = true) : isName (text ++ [c]) = true := by
  cases text with
  | nil => cases h
  | cons d text =>
    rw [isName, Bool.and_eq_true] at h
    rw [List.cons_append, isName, List.all_append, h.1, h.2]
    simp [hc]

theorem ne_quote_of_punctuation {c : Char} {type : TokenType}
    (hc : punctuation c = some type) : c ≠ '"' := by
  rintro rfl
  cases hc

theorem placePhases_kept (prev : TokenType) :
    (placePhases names prev).Kept (Delivers names prev) where
  skip h hquote _ hpunct := ⟨h.1, h.2.next hquote fun _ hsep => hsep.skip hpunct⟩
  hash := by
    rintro text input ⟨htext, hplace⟩
    rcases hplace with ⟨gap, hout, -⟩ | ⟨hhashed, hin⟩
    · have hhashed : names.Hashed := hout.2.hashed rfl hout.1
      exact ⟨htext, hhashed, .inl ⟨_, hout.next (by decide)⟩⟩
    · exact ⟨htext, hhashed, .inr (hin.next (by decide))⟩
  quote := by
    rintro text input ⟨rfl, hplace⟩
    rcases hplace with ⟨gap, hout, hfollows⟩ | ⟨hhashed, hin⟩
    -- the quote opens a value, and its separator is the last token
    · obtain ⟨⟨sep, type, hsep, hsuffix⟩, -, hinside⟩ := hout.opens
      have hprev := hfollows sep type hsep (.inr hsuffix)
      refine .inl ⟨?_, hinside⟩
      rcases hsep with ⟨-, rfl⟩ | ⟨-, rfl⟩
      · exact .inl hprev
      · exact .inr hprev
    · exact .inr ⟨hhashed, hin.closes⟩
  first := by
    rintro text input c ⟨rfl, hplace⟩ hc
    have hident := isIdentifier_of_first hc
    refine ⟨by simp [isName, hc], ?_⟩
    exact hplace.next (ne_quote_of_isIdentifier hident) fun gap _ =>
      followsSep_identifier _ hident gap
  digit := by
    rintro text input c ⟨-, hplace⟩ hc
    have hident := isIdentifier_of_digit hc
    exact hplace.next (ne_quote_of_isIdentifier hident) fun gap _ =>
      followsSep_identifier _ hident gap
  stuck _ hstuck := fun hnot => absurd hstuck hnot
  accept := by
    rintro text input c type ⟨-, hplace⟩ hpunct _ _
    refine ⟨hplace.next (ne_quote_of_punctuation hpunct) fun gap _ =>
      followsSep_accept hpunct gap, ?_⟩
    intro hstring
    exact absurd hstring (punctuation_type hpunct).1
  inComment := by
    rintro text input c ⟨htext, hhashed, hplace⟩ _
    refine ⟨htext, hhashed, ?_⟩
    by_cases hc : c = '"'
    · subst hc
      rcases hplace with ⟨gap, hout⟩ | hin
      · exact .inr hout.opens.inside
      · exact .inl ⟨_, hin.closes⟩
    · rcases hplace with ⟨gap, hout⟩ | hin
      · exact .inl ⟨_, hout.next hc⟩
      · exact .inr (hin.next hc)
  endOfLine := by
    rintro text input ⟨htext, hhashed, hplace⟩
    refine ⟨htext, ?_⟩
    rcases hplace with ⟨gap, hout⟩ | hin
    · exact .inl ⟨_, hout.next (by decide),
        followsSep_of_last _ (not_isSep (by decide)) (by decide) gap⟩
    · exact .inr ⟨hhashed, hin.next (by decide)⟩
  inIdentifier := by
    rintro text input c ⟨hname, hplace⟩ hc
    exact ⟨isName_concat hname hc, hplace.next (ne_quote_of_isIdentifier hc) fun gap _ =>
      followsSep_identifier _ hc gap⟩
  endIdentifier h _ := fun _ _ => ⟨h.2, fun _ => .inr (.inr (.inl h.1))⟩
  inInteger h hc :=
    h.next (ne_quote_of_isIdentifier (isIdentifier_of_digit hc)) fun gap _ =>
      followsSep_identifier _ (isIdentifier_of_digit hc) gap
  endInteger h _ := fun _ _ => ⟨h, fun hstring => by cases hstring⟩
  inString := by
    rintro text input c h hc
    rcases h with ⟨hprev, hin⟩ | ⟨hhashed, hout⟩
    · exact .inl ⟨hprev, hin.next hc⟩
    · exact .inr ⟨hhashed, hout.next hc⟩
  endString := by
    rintro text input h _ _
    rcases h with ⟨hprev, hin⟩ | ⟨hhashed, hout⟩
    · refine ⟨.inl ⟨[], hin.closes, followsSep_nil _⟩, fun _ => ?_⟩
      rcases hprev with hprev | hprev
      · exact .inl hprev
      · exact .inr (.inl hprev)
    · obtain ⟨-, hhash, hinside⟩ := hout.opens
      exact ⟨.inr ⟨hhashed, hinside⟩, fun _ => .inr (.inr (.inr ⟨hhashed, hhash⟩))⟩
  eof _ := fun _ hne => absurd rfl hne

/-! ## All tokens -/

/-- Every string is a value behind its separator, or a possible name. -/
def ReadsNames (names : Names) : TokenType → List Token → Prop
  | _, [] => True
  | prev, t :: ts => ReadAfter names prev t ∧ ReadsNames names t.type ts

theorem readsNames_tokens {prev : TokenType} {input : List Char}
    (hplace : Place names prev input) (hstuck : ∀ t ∈ tokens prev input, ¬ t.type.IsStuck) :
    ReadsNames names prev (tokens prev input) := by
  induction prev, input using tokens.induct with
  | case1 prev input next heof =>
    rw [tokens, if_pos heof]
    refine ⟨?_, trivial⟩
    intro hstring
    have : next.1.type = .string := hstring
    rw [heof] at this
    cases this
  | case2 prev input next hne ih =>
    rw [tokens, if_neg hne] at hstuck ⊢
    rw [List.forall_mem_cons] at hstuck
    have hkept : (placePhases names prev).Kept (Delivers names prev) := placePhases_kept prev
    have hdeliver := hkept.next prev ⟨rfl, hplace⟩
    obtain ⟨hrest, hread⟩ := hdeliver hstuck.1 hne
    exact ⟨hread, ih hrest hstuck.2⟩

end Armadito.Conf
