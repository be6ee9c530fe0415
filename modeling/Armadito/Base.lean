import Mathlib.Algebra.Group.Int.Defs
import Mathlib.Algebra.Group.Nat.Defs
import Mathlib.Data.List.Basic

/-!
# Base

The strings of the sources and the ways a call can go wrong.

A `const char *` is the list of its characters before the terminating
NUL; one `Char` stands for one byte, so a file of bytes is a list of
`Char`s as well. A pointer that may be NULL is an `Option`.

The repository compares a path with a directory prefix in two places
(`scanconf.c` and the Linux `file.c`). Both copies run the same loop and
differ in the characters they accept after the prefix; the loop and its
characterisation are here, each copy keeps its own definition.
-/

namespace Armadito

/-- A C string, without its terminating NUL. -/
abbrev CString := List Char

/-- The ways a call of the modelled code ends the process. -/
inductive Fault where
  | assertFailed
  | nullDeref
  | nullCall
  | useAfterFree
  deriving DecidableEq, Repr

theorem pure_eq_ok {ε α : Type} {a b : α} : (pure a : Except ε α) = .ok b ↔ a = b := by
  show Except.ok a = Except.ok b ↔ a = b
  rw [Except.ok.injEq]

/-- A sequence of calls succeeds when each of them does. -/
theorem bind_eq_ok {ε α β : Type} {x : Except ε α} {f : α → Except ε β} {b : β} :
    (x >>= f) = .ok b ↔ ∃ a, x = .ok a ∧ f a = .ok b := by
  cases x with
  | error e => simp [Bind.bind, Except.bind]
  | ok a => simp [Bind.bind, Except.bind]

/-- It fails when one of them does. -/
theorem bind_eq_error {ε α β : Type} {x : Except ε α} {f : α → Except ε β} {e : ε} :
    (x >>= f) = .error e ↔ x = .error e ∨ ∃ a, x = .ok a ∧ f a = .error e := by
  cases x with
  | error e' => simp [Bind.bind, Except.bind]
  | ok a => simp [Bind.bind, Except.bind]

/-! ## Comparing a path with a prefix -/

/-- `while (*prefix && *s && *prefix++ == *s++) ;` — the two pointers when
the loop stops. Both have moved past a pair of different characters, but
neither moves when one of the strings is at its end. -/
def strprefixLoop : CString → CString → CString × CString
  | s, [] => (s, [])
  | [], p :: ps => ([], p :: ps)
  | c :: s, p :: ps => if p = c then strprefixLoop s ps else (s, ps)

/-- The body of both `strprefix`es; `seps` are the characters that may
follow the prefix. -/
def strprefixWith (seps : List Char) (s pre : CString) : Bool :=
  match strprefixLoop s pre with
  | (s, []) => match s with
    | [] => true
    | c :: _ => c ∈ seps
  | (_, _ :: _) => false

/-! ## What the loop decides -/

/-- `rest` is empty or goes on with a separator. -/
def AtBoundary (seps : List Char) (rest : CString) : Prop :=
  rest = [] ∨ ∃ c ∈ seps, ∃ r, rest = c :: r

/-- `path` is the directory `d`, or begins with `d` immediately followed
by a separator. -/
def UnderDirectory (seps : List Char) (d path : CString) : Prop :=
  path = d ∨ ∃ c ∈ seps, ∃ r, path = d ++ c :: r

/-- `path` agrees with `d` on all but the last character of `d`, has
another character there, and then ends or goes on with a separator. -/
def NearMiss (seps : List Char) (d path : CString) : Prop :=
  ∃ stem a b rest, a ≠ b ∧ d = stem ++ [a] ∧ path = stem ++ b :: rest ∧
    AtBoundary seps rest

theorem atBoundary_nil (seps : List Char) : AtBoundary seps [] := .inl rfl

theorem atBoundary_cons (seps : List Char) (c : Char) (r : CString) :
    AtBoundary seps (c :: r) ↔ c ∈ seps := by
  simp [AtBoundary]

theorem underDirectory_iff (seps : List Char) (d path : CString) :
    UnderDirectory seps d path ↔ ∃ rest, path = d ++ rest ∧ AtBoundary seps rest := by
  constructor
  · rintro (rfl | ⟨c, hc, r, rfl⟩)
    · exact ⟨[], (List.append_nil path).symm, .inl rfl⟩
    · exact ⟨c :: r, rfl, .inr ⟨c, hc, r, rfl⟩⟩
  · rintro ⟨rest, rfl, rfl | ⟨c, hc, r, rfl⟩⟩
    · exact .inl (List.append_nil d)
    · exact .inr ⟨c, hc, r, rfl⟩

theorem underDirectory_nil (seps : List Char) (path : CString) :
    UnderDirectory seps [] path ↔ AtBoundary seps path := by
  simp [underDirectory_iff]

theorem underDirectory_cons (seps : List Char) (p c : Char) (d path : CString) :
    UnderDirectory seps (p :: d) (c :: path) ↔
      p = c ∧ UnderDirectory seps d path := by
  simp only [underDirectory_iff]
  constructor
  · rintro ⟨rest, h, hb⟩
    obtain ⟨rfl, rfl⟩ := List.cons.inj h
    exact ⟨rfl, rest, rfl, hb⟩
  · rintro ⟨rfl, rest, rfl, hb⟩
    exact ⟨rest, rfl, hb⟩

theorem not_underDirectory_cons_nil (seps : List Char) (p : Char) (d : CString) :
    ¬ UnderDirectory seps (p :: d) [] := by
  rw [underDirectory_iff]
  rintro ⟨rest, h, -⟩
  simp at h

theorem not_nearMiss_nil (seps : List Char) (path : CString) :
    ¬ NearMiss seps [] path := by
  rintro ⟨stem, a, b, rest, -, h, -⟩
  simp at h

theorem not_nearMiss_cons_nil (seps : List Char) (p : Char) (d : CString) :
    ¬ NearMiss seps (p :: d) [] := by
  rintro ⟨stem, a, b, rest, -, -, h, -⟩
  simp at h

/-- One character of a near miss: either both sides go on alike, or the
mismatch is here and the prefix ends with it. -/
theorem nearMiss_cons (seps : List Char) (p c : Char) (d path : CString) :
    NearMiss seps (p :: d) (c :: path) ↔
      (p = c ∧ NearMiss seps d path) ∨ (p ≠ c ∧ d = [] ∧ AtBoundary seps path) := by
  constructor
  · rintro ⟨stem, a, b, rest, hab, hd, hp, hb⟩
    cases stem with
    | nil =>
      simp only [List.nil_append, List.cons.injEq] at hd hp
      obtain ⟨rfl, rfl⟩ := hd
      obtain ⟨rfl, rfl⟩ := hp
      exact .inr ⟨hab, rfl, hb⟩
    | cons x stem =>
      simp only [List.cons_append, List.cons.injEq] at hd hp
      obtain ⟨rfl, rfl⟩ := hd
      obtain ⟨rfl, rfl⟩ := hp
      exact .inl ⟨rfl, stem, a, b, rest, hab, rfl, rfl, hb⟩
  · rintro (⟨rfl, stem, a, b, rest, hab, rfl, rfl, hb⟩ | ⟨hne, rfl, hb⟩)
    · exact ⟨p :: stem, a, b, rest, hab, rfl, rfl, hb⟩
    · exact ⟨[], p, c, path, hne, rfl, rfl, hb⟩

/-- The loop accepts the directory law and, because the comparison has
moved both pointers when it fails, the near misses too. -/
theorem strprefixWith_iff (seps : List Char) (s pre : CString) :
    strprefixWith seps s pre = true ↔
      UnderDirectory seps pre s ∨ NearMiss seps pre s := by
  induction pre generalizing s with
  | nil =>
    rw [underDirectory_nil, or_iff_left (not_nearMiss_nil seps s)]
    cases s with
    | nil => simp [strprefixWith, strprefixLoop, atBoundary_nil]
    | cons c s => simp [strprefixWith, strprefixLoop, atBoundary_cons]
  | cons p pre ih =>
    cases s with
    | nil =>
      simp [strprefixWith, strprefixLoop, not_underDirectory_cons_nil,
        not_nearMiss_cons_nil]
    | cons c s =>
      rw [underDirectory_cons, nearMiss_cons]
      by_cases hpc : p = c
      · have hstep : strprefixWith seps (c :: s) (p :: pre)
            = strprefixWith seps s pre := by
          simp [strprefixWith, strprefixLoop, hpc]
        rw [hstep, ih s]
        simp [hpc]
      · -- the mismatch: the pointers stand behind it, at `s` and `pre`
        cases pre with
        | nil =>
          cases s with
          | nil => simp [strprefixWith, strprefixLoop, hpc, atBoundary_nil]
          | cons c' s =>
            simp [strprefixWith, strprefixLoop, hpc, atBoundary_cons]
        | cons p' pre => simp [strprefixWith, strprefixLoop, hpc]

/-- A list of directories decides the paths below it correctly unless a
near miss is taken for a match. -/
def DecidesExactly (seps : List Char) (dirs : List CString) (path : CString) : Prop :=
  (∃ d ∈ dirs, UnderDirectory seps d path) ∨ ∀ d ∈ dirs, ¬ NearMiss seps d path

theorem any_strprefixWith_iff (seps : List Char) (dirs : List CString) (path : CString) :
    (dirs.any fun d => strprefixWith seps path d) = true ↔
      (∃ d ∈ dirs, UnderDirectory seps d path) ∨ ∃ d ∈ dirs, NearMiss seps d path := by
  simp only [List.any_eq_true, strprefixWith_iff, and_or_left, exists_or]

/-- One direction of the law is the one at stake: a path below a listed
directory is always accepted. -/
theorem any_strprefixWith_imp_iff (seps : List Char) (dirs : List CString)
    (path : CString) :
    ((dirs.any fun d => strprefixWith seps path d) = true →
        ∃ d ∈ dirs, UnderDirectory seps d path) ↔
      DecidesExactly seps dirs path := by
  rw [any_strprefixWith_iff, DecidesExactly]
  constructor
  · intro h
    by_cases hnear : ∃ d ∈ dirs, NearMiss seps d path
    · exact .inl (h (.inr hnear))
    · exact .inr fun d hd hn => hnear ⟨d, hd, hn⟩
  · rintro (hunder | hnone) h
    · exact hunder
    · exact h.resolve_right fun ⟨d, hd, hn⟩ => hnone d hd hn

theorem any_strprefixWith_exact_iff (seps : List Char) (dirs : List CString)
    (path : CString) :
    ((dirs.any fun d => strprefixWith seps path d) = true ↔
        ∃ d ∈ dirs, UnderDirectory seps d path) ↔
      DecidesExactly seps dirs path := by
  rw [← any_strprefixWith_imp_iff]
  constructor
  · intro h
    exact h.mp
  · intro h
    exact ⟨h, fun hunder => (any_strprefixWith_iff seps dirs path).mpr (.inl hunder)⟩

end Armadito
