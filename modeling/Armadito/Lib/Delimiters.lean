import Mathlib.Data.List.Infix

/-!
# Lib.Delimiters

Texts of three fields with two delimiters between them. The delimiters are
words that begin and end with one letter, and two of them overlap in this
letter at most. Such a text has one reading if and only if no delimiter
occurs in a field, that letter put back where the field touches a delimiter.
-/

namespace Armadito.Delimiters

variable {α : Type*}

/-! ## Occurrences -/

/-- The word is in the text, at the position. -/
def OccursAt (t text : List α) (i : Nat) : Prop := ∃ a b, text = a ++ t ++ b ∧ a.length = i

theorem OccursAt.drop {t text : List α} {i : Nat} (h : OccursAt t text i) :
    t <+: text.drop i := by
  obtain ⟨a, b, rfl, rfl⟩ := h
  rw [List.append_assoc, List.drop_left]
  exact List.prefix_append t b

/-- A word in a part of the text. -/
theorem occursAt_of_infix {t a w b : List α} (h : t <:+: w) :
    ∃ i, OccursAt t (a ++ w ++ b) i ∧ a.length ≤ i ∧
      i + t.length ≤ a.length + w.length := by
  obtain ⟨u, v, rfl⟩ := h
  refine ⟨(a ++ u).length, ⟨a ++ u, v ++ b, ?_, rfl⟩, ?_, ?_⟩
  · simp only [List.append_assoc]
  · simp
  · simp only [List.length_append]
    omega

theorem OccursAt.isInfix {t a w b : List α} {i : Nat} (h : OccursAt t (a ++ w ++ b) i)
    (hlow : a.length ≤ i) (hhigh : i + t.length ≤ a.length + w.length) : t <:+: w := by
  obtain ⟨k, rfl⟩ := Nat.exists_eq_add_of_le hlow
  have ht := h.drop
  rw [List.append_assoc, ← List.drop_drop, List.drop_left,
    List.drop_append_of_le_length (by omega)] at ht
  -- what is left of the part is long enough for the word
  have hw : t <+: w.drop k := by
    refine List.prefix_of_prefix_length_le ht (List.prefix_append _ b) ?_
    rw [List.length_drop]
    omega
  exact hw.isInfix.trans (List.drop_suffix k w).isInfix

theorem isInfix_iff_occursAt (a b : List α) {t w : List α} :
    t <:+: w ↔ ∃ i, OccursAt t (a ++ w ++ b) i ∧ a.length ≤ i ∧
      i + t.length ≤ a.length + w.length := by
  constructor
  · exact occursAt_of_infix
  · rintro ⟨i, hi, hlow, hhigh⟩
    exact hi.isInfix hlow hhigh

theorem OccursAt.length_le {t text : List α} {i : Nat} (h : OccursAt t text i) :
    i + t.length ≤ text.length := by
  obtain ⟨a, b, rfl, rfl⟩ := h
  simp only [List.length_append]
  omega

/-- The text cut at two words that do not overlap. -/
theorem OccursAt.cut {t t' text : List α} {i j : Nat} (h : OccursAt t text i)
    (h' : OccursAt t' text j) (hij : i + t.length ≤ j) :
    ∃ p m r, text = p ++ t ++ m ++ t' ++ r ∧ p.length = i ∧ i + t.length + m.length = j := by
  obtain ⟨p, b, rfl, rfl⟩ := h
  obtain ⟨a, r, htext, rfl⟩ := h'
  have ha : p ++ t <+: a := by
    have hp : p ++ t <+: a ++ t' ++ r := htext ▸ List.prefix_append (p ++ t) b
    rw [List.append_assoc] at hp
    refine List.prefix_of_prefix_length_le hp (List.prefix_append a _) ?_
    rw [List.length_append]
    omega
  obtain ⟨m, rfl⟩ := ha
  refine ⟨p, m, r, htext, rfl, ?_⟩
  simp only [List.length_append]

/-! ## Delimiters -/

/-- Words that begin and end with `q`. None of them begins another, or where
another one has begun, unless with its last letter. -/
structure Delimiting (q : α) (Word : List α → Prop) : Prop where
  shape : ∀ t, Word t → ∃ u, t = q :: (u ++ [q])
  eq_of_prefix : ∀ t t', Word t → Word t' → t <+: t' → t = t'
  overlap : ∀ t t', Word t → Word t' → ∀ k, 0 < k → k + 1 < t.length →
    ¬ (t.drop k <+: t') ∧ ¬ (t' <+: t.drop k)

section Words

variable {q : α} {Word : List α → Prop} (h : Delimiting q Word) {t t' text : List α}
  {i j : Nat}

include h

theorem Delimiting.two_le (ht : Word t) : 2 ≤ t.length := by
  obtain ⟨u, rfl⟩ := h.shape t ht
  simp

/-- One word at a position. -/
theorem Delimiting.eq_of_occursAt (ht : Word t) (ht' : Word t') (hi : OccursAt t text i)
    (hi' : OccursAt t' text i) : t = t' := by
  rcases List.prefix_or_prefix_of_prefix hi.drop hi'.drop with hp | hp
  · exact h.eq_of_prefix t t' ht ht' hp
  · exact (h.eq_of_prefix t' t ht' ht hp).symm

/-- Two words at different positions share a letter at most. -/
theorem Delimiting.separated (ht : Word t) (ht' : Word t') (hi : OccursAt t text i)
    (hj : OccursAt t' text j) (hij : i < j) : i + t.length ≤ j + 1 := by
  by_contra hlong
  obtain ⟨k, rfl⟩ := Nat.exists_eq_add_of_lt hij
  have hnot := h.overlap t t' ht ht' (k + 1) (by omega) (by omega)
  have htail : t.drop (k + 1) <+: text.drop (i + k + 1) := by
    have hdrop : t.drop (k + 1) <+: (text.drop i).drop (k + 1) := by
      obtain ⟨b, hb⟩ := hi.drop
      rw [← hb, List.drop_append_of_le_length (by omega)]
      exact List.prefix_append _ b
    rwa [List.drop_drop, ← Nat.add_assoc] at hdrop
  rcases List.prefix_or_prefix_of_prefix htail hj.drop with hp | hp
  · exact hnot.1 hp
  · exact hnot.2 hp

end Words

/-! ## A check on lists of words -/

section Check

variable [DecidableEq α]

/-- No word of two letters or more that ends the text agrees with a head. -/
def clearOf (heads : List (List α)) : List α → Bool
  | c :: c' :: text =>
    heads.all (fun head => !(c :: c' :: text).isPrefixOf head &&
      !head.isPrefixOf (c :: c' :: text)) && clearOf heads (c' :: text)
  | _ => true

theorem clearOf_drop {heads : List (List α)} {text : List α} (h : clearOf heads text = true) :
    ∀ k, k + 1 < text.length → ∀ head ∈ heads,
      ¬ text.drop k <+: head ∧ ¬ head <+: text.drop k := by
  induction text with
  | nil => simp
  | cons c text ih =>
    cases text with
    | nil => simp
    | cons c' text =>
      rw [clearOf, Bool.and_eq_true, List.all_eq_true] at h
      obtain ⟨hfirst, hrest⟩ := h
      intro k hk head hhead
      cases k with
      | zero =>
        have hagree := hfirst head hhead
        rw [Bool.and_eq_true, Bool.not_eq_true', Bool.not_eq_true'] at hagree
        simp only [← List.isPrefixOf_iff_prefix, List.drop_zero]
        rw [hagree.1, hagree.2]
        decide
      | succ k =>
        simp only [List.length_cons] at hk
        exact ih hrest k (by simp only [List.length_cons]; omega) head hhead

/-- Each word begins with a head, and nothing in it does. -/
theorem Delimiting.of_heads {q : α} {Word : List α → Prop} (heads : List (List α))
    (hends : ∀ t, Word t → t.head? = some q ∧ t.tail.getLast? = some q)
    (hhead : ∀ t, Word t → ∃ head ∈ heads, head <+: t)
    (hclear : ∀ t, Word t → clearOf heads t.tail = true)
    (hstart : ∀ t t', Word t → Word t' → t <+: t' → t = t') :
    Delimiting q Word where
  shape := by
    intro t ht
    obtain ⟨hfirst, hlast⟩ := hends t ht
    cases t with
    | nil => cases hfirst
    | cons c t =>
      cases hfirst
      obtain ⟨u, rfl⟩ := List.getLast?_eq_some_iff.mp hlast
      exact ⟨u, rfl⟩
  eq_of_prefix := hstart
  overlap := by
    intro t t' ht ht' k hk hlong
    obtain ⟨head, hmem, hhead⟩ := hhead t' ht'
    obtain ⟨k, rfl⟩ : ∃ j, k = j + 1 := ⟨k - 1, by omega⟩
    have hnot := clearOf_drop (hclear t ht) k (by rw [List.length_tail]; omega) head hmem
    rw [List.drop_tail] at hnot
    refine ⟨fun hp => ?_, fun hp => hnot.2 (hhead.trans hp)⟩
    rcases List.prefix_or_prefix_of_prefix hp hhead with hp' | hp'
    · exact hnot.1 hp'
    · exact hnot.2 hp'

end Check

/-! ## The fields of a text -/

/-- No delimiter is in a field, with the letter of the delimiter that it
touches. -/
structure Free (q : α) (Opening : List α → Prop) (closing p m r : List α) : Prop where
  left : ∀ d, Opening d → ¬ d <:+: p ++ [q]
  opening_middle : ∀ d, Opening d → ¬ d <:+: q :: m
  closing_middle : ¬ closing <:+: m ++ [q]
  right : ¬ closing <:+: q :: r

/-- The text has no other fields. -/
def OneReading (Opening : List α → Prop) (closing p d m r : List α) : Prop :=
  ∀ p' d' m' r', Opening d' →
    p' ++ d' ++ m' ++ closing ++ r' = p ++ d ++ m ++ closing ++ r →
    p' = p ∧ d' = d ∧ m' = m ∧ r' = r

section Fields

variable {q : α} {p d m closing r t : List α}

/-- A word in the first field, or up to the letter after it. -/
theorem isInfix_left_iff {u : List α} (hd : d = q :: u) :
    t <:+: p ++ [q] ↔
      ∃ i, OccursAt t (p ++ d ++ m ++ closing ++ r) i ∧ i + t.length ≤ p.length + 1 := by
  have htext : p ++ d ++ m ++ closing ++ r = [] ++ (p ++ [q]) ++ (u ++ m ++ closing ++ r) := by
    simp [hd]
  rw [htext, isInfix_iff_occursAt [] (u ++ m ++ closing ++ r)]
  simp

theorem isInfix_cons_middle_iff {u : List α} (hd : d = u ++ [q]) :
    t <:+: q :: m ↔ ∃ i, OccursAt t (p ++ d ++ m ++ closing ++ r) i ∧
      p.length + d.length ≤ i + 1 ∧ i + t.length ≤ p.length + d.length + m.length := by
  have htext : p ++ d ++ m ++ closing ++ r = (p ++ u) ++ (q :: m) ++ (closing ++ r) := by
    simp [hd]
  rw [htext, isInfix_iff_occursAt (p ++ u) (closing ++ r)]
  refine exists_congr fun i => and_congr_right fun _ => ?_
  simp only [hd, List.length_append, List.length_cons, List.length_nil]
  omega

theorem isInfix_middle_iff {u : List α} (hclosing : closing = q :: u) :
    t <:+: m ++ [q] ↔ ∃ i, OccursAt t (p ++ d ++ m ++ closing ++ r) i ∧
      p.length + d.length ≤ i ∧ i + t.length ≤ p.length + d.length + m.length + 1 := by
  have htext : p ++ d ++ m ++ closing ++ r = (p ++ d) ++ (m ++ [q]) ++ (u ++ r) := by
    simp [hclosing]
  rw [htext, isInfix_iff_occursAt (p ++ d) (u ++ r)]
  refine exists_congr fun i => and_congr_right fun _ => ?_
  simp only [List.length_append, List.length_cons, List.length_nil]
  omega

theorem isInfix_right_iff {u : List α} (hclosing : closing = u ++ [q]) :
    t <:+: q :: r ↔ ∃ i, OccursAt t (p ++ d ++ m ++ closing ++ r) i ∧
      p.length + d.length + m.length + closing.length ≤ i + 1 := by
  have htext : p ++ d ++ m ++ closing ++ r = (p ++ d ++ m ++ u) ++ (q :: r) ++ [] := by
    simp [hclosing]
  rw [htext, isInfix_iff_occursAt (p ++ d ++ m ++ u) []]
  refine exists_congr fun i => and_congr_right fun hi => ?_
  have hlen := hi.length_le
  simp only [hclosing, List.length_append, List.length_cons, List.length_nil] at hlen ⊢
  omega

end Fields

section Reading

variable {q : α} {Opening : List α → Prop} {closing : List α}
  (h : Delimiting q fun t => Opening t ∨ t = closing)
  {p d m r : List α} (hd : Opening d)

include h hd

/-- Where the delimiters are not, in a text with free fields. -/
theorem free_iff :
    Free q Opening closing p m r ↔
      (∀ d' i, Opening d' → OccursAt d' (p ++ d ++ m ++ closing ++ r) i →
        p.length + 1 < i + d'.length ∧
          (p.length + d.length ≤ i + 1 → p.length + d.length + m.length < i + d'.length)) ∧
      ∀ j, OccursAt closing (p ++ d ++ m ++ closing ++ r) j →
        (p.length + d.length ≤ j →
          p.length + d.length + m.length + 1 < j + closing.length) ∧
          j + 1 < p.length + d.length + m.length + closing.length := by
  obtain ⟨u, hu⟩ := h.shape d (.inl hd)
  obtain ⟨v, hv⟩ := h.shape closing (.inr rfl)
  constructor
  · intro hfree
    refine ⟨fun d' i hd' hi => ⟨?_, fun hlow => ?_⟩, fun j hj => ⟨fun hlow => ?_, ?_⟩⟩
    · by_contra hle
      exact hfree.left d' hd' ((isInfix_left_iff hu).mpr ⟨i, hi, by omega⟩)
    · by_contra hle
      exact hfree.opening_middle d' hd'
        ((isInfix_cons_middle_iff (u := q :: u) hu).mpr ⟨i, hi, hlow, by omega⟩)
    · by_contra hle
      exact hfree.closing_middle ((isInfix_middle_iff hv).mpr ⟨j, hj, hlow, by omega⟩)
    · by_contra hle
      exact hfree.right ((isInfix_right_iff (u := q :: v) hv).mpr ⟨j, hj, by omega⟩)
  · rintro ⟨hopening, hclosing⟩
    constructor
    case left =>
      intro d' hd' hinfix
      obtain ⟨i, hi, hhigh⟩ := (isInfix_left_iff hu).mp hinfix
      have hnot := (hopening d' i hd' hi).1
      omega
    case opening_middle =>
      intro d' hd' hinfix
      obtain ⟨i, hi, hlow, hhigh⟩ := (isInfix_cons_middle_iff (u := q :: u) hu).mp hinfix
      have hnot := (hopening d' i hd' hi).2 hlow
      omega
    case closing_middle =>
      intro hinfix
      obtain ⟨j, hj, hlow, hhigh⟩ := (isInfix_middle_iff hv).mp hinfix
      have hnot := (hclosing j hj).1 hlow
      omega
    case right =>
      intro hinfix
      obtain ⟨j, hj, hlow⟩ := (isInfix_right_iff (u := q :: v) hv).mp hinfix
      have hnot := (hclosing j hj).2
      omega

theorem Free.oneReading (hfree : Free q Opening closing p m r) :
    OneReading Opening closing p d m r := by
  intro p' d' m' r' hd' htext
  obtain ⟨hopening, hclose⟩ := (free_iff h hd).mp hfree
  have hi : OccursAt d (p ++ d ++ m ++ closing ++ r) p.length :=
    ⟨p, m ++ closing ++ r, by simp, rfl⟩
  have hj : OccursAt closing (p ++ d ++ m ++ closing ++ r)
      (p.length + d.length + m.length) := ⟨p ++ d ++ m, r, rfl, by simp [Nat.add_assoc]⟩
  have hi' : OccursAt d' (p ++ d ++ m ++ closing ++ r) p'.length :=
    ⟨p', m' ++ closing ++ r', by rw [← htext]; simp, rfl⟩
  have hj' : OccursAt closing (p ++ d ++ m ++ closing ++ r)
      (p'.length + d'.length + m'.length) :=
    ⟨p' ++ d' ++ m', r', htext.symm, by simp [Nat.add_assoc]⟩
  have hdlen := h.two_le (.inl hd)
  obtain ⟨hleft, hmiddle⟩ := hopening d' _ hd' hi'
  obtain ⟨hmiddle', hright⟩ := hclose _ hj'
  -- the closing delimiter is not further right
  have hle : p'.length + d'.length + m'.length ≤ p.length + d.length + m.length := by
    by_contra hlt
    have hsep := h.separated (.inr rfl) (.inr rfl) hj hj' (by omega)
    omega
  have hsamei : p'.length = p.length := by
    rcases Nat.lt_trichotomy p'.length p.length with hlt | heq | hgt
    · have hsep := h.separated (.inl hd') (.inl hd) hi' hi hlt
      omega
    · exact heq
    · -- an opening delimiter after the first one reaches into the closing one
      have hsep := h.separated (.inl hd) (.inl hd') hi hi' hgt
      have hinside := hmiddle (by omega)
      omega
  have hd'd : d' = d := h.eq_of_occursAt (.inl hd') (.inl hd) (hsamei ▸ hi') hi
  have hsamej : m'.length = m.length := by
    by_contra hne
    have hsep := h.separated (.inr rfl) (.inr rfl) hj' hj (by rw [hd'd] at hle ⊢; omega)
    rw [hd'd] at hsep hmiddle'
    omega
  subst hd'd
  obtain ⟨hrest, hr⟩ := List.append_inj htext (by simp [hsamei, hsamej])
  obtain ⟨hrest, -⟩ := List.append_inj hrest (by simp [hsamei, hsamej])
  obtain ⟨hrest, hm⟩ := List.append_inj hrest (by simp [hsamei])
  obtain ⟨hp, -⟩ := List.append_inj hrest hsamei
  exact ⟨hp, rfl, hm, hr⟩

theorem OneReading.free (hone : OneReading Opening closing p d m r) :
    Free q Opening closing p m r := by
  have hdlen := h.two_le (.inl hd)
  have hclen := h.two_le (.inr rfl)
  rw [free_iff h hd]
  have hi : OccursAt d (p ++ d ++ m ++ closing ++ r) p.length :=
    ⟨p, m ++ closing ++ r, by simp, rfl⟩
  have hj : OccursAt closing (p ++ d ++ m ++ closing ++ r)
      (p.length + d.length + m.length) := ⟨p ++ d ++ m, r, rfl, by simp [Nat.add_assoc]⟩
  -- two delimiters that do not overlap give a reading
  have hreading : ∀ d' i j, Opening d' → OccursAt d' (p ++ d ++ m ++ closing ++ r) i →
      OccursAt closing (p ++ d ++ m ++ closing ++ r) j → i + d'.length ≤ j →
      i = p.length ∧ d' = d ∧ j = p.length + d.length + m.length := by
    intro d' i j hd' hi hj hij
    obtain ⟨p', m', r', htext, rfl, rfl⟩ := hi.cut hj hij
    obtain ⟨rfl, rfl, rfl, -⟩ := hone p' d' m' r' hd' htext.symm
    exact ⟨rfl, rfl, rfl⟩
  refine ⟨fun d' i hd' hi' => ⟨?_, fun hlow => ?_⟩, fun j hj' => ⟨fun hlow => ?_, ?_⟩⟩
  · by_contra hle
    obtain ⟨rfl, rfl, -⟩ := hreading d' i _ hd' hi' hj (by omega)
    omega
  · by_contra hle
    obtain ⟨rfl, -, -⟩ := hreading d' i _ hd' hi' hj (by omega)
    omega
  · by_contra hle
    obtain ⟨-, -, rfl⟩ := hreading d _ j hd hi hj' hlow
    omega
  · by_contra hle
    obtain ⟨-, -, rfl⟩ := hreading d _ j hd hi hj' (by omega)
    omega

/-- **One reading**, exactly when the fields are free of delimiters. -/
theorem oneReading_iff :
    OneReading Opening closing p d m r ↔ Free q Opening closing p m r :=
  ⟨OneReading.free h hd, Free.oneReading h hd⟩

omit hd in
/-- Fields without the letter are free. -/
theorem Free.of_not_mem [DecidableEq α] (hp : q ∉ p) (hm : q ∉ m) (hr : q ∉ r) :
    Free q Opening closing p m r := by
  have htwice : ∀ t, Opening t ∨ t = closing → ∀ w, w.count q ≤ 1 → ¬ t <:+: w := by
    intro t ht w hw hinfix
    obtain ⟨u, rfl⟩ := h.shape t ht
    have hcount := hinfix.sublist.count_le q
    simp only [List.count_cons_self, List.count_append, List.count_nil] at hcount
    omega
  constructor
  case left => exact fun d hd => htwice d (.inl hd) _ (by simp [List.count_eq_zero_of_not_mem hp])
  case opening_middle =>
    exact fun d hd => htwice d (.inl hd) _ (by simp [List.count_eq_zero_of_not_mem hm])
  case closing_middle => exact htwice _ (.inr rfl) _ (by simp [List.count_eq_zero_of_not_mem hm])
  case right => exact htwice _ (.inr rfl) _ (by simp [List.count_eq_zero_of_not_mem hr])

end Reading

end Armadito.Delimiters
