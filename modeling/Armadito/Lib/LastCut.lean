import Mathlib.Data.List.Basic

/-!
# Lib.LastCut

A list cut at the last place where an element occurs, as `strrchr` cuts a
string.
-/

namespace LastCut

variable {α : Type*} [DecidableEq α]

/-- What is before the last occurrence, and what is behind it. -/
def cutLast (c : α) : List α → Option (List α × List α)
  | [] => none
  | a :: l =>
    match cutLast c l with
    | some (before, behind) => some (a :: before, behind)
    | none => if a = c then some ([], l) else none

theorem cutLast_eq_none {c : α} {l : List α} : cutLast c l = none ↔ c ∉ l := by
  induction l with
  | nil => simp [cutLast]
  | cons a l ih =>
    rw [cutLast]
    cases hl : cutLast c l with
    | some cut =>
      have hmem : c ∈ l := by
        by_contra hnot
        rw [ih.mpr hnot] at hl
        cases hl
      simp [hmem]
    | none =>
      have hnot := ih.mp hl
      by_cases hac : a = c
      · simp [hac]
      · simp [hac, hnot, Ne.symm hac]

theorem cutLast_append {c : α} {behind : List α} (hbehind : c ∉ behind) (before : List α) :
    cutLast c (before ++ c :: behind) = some (before, behind) := by
  induction before with
  | nil =>
    rw [List.nil_append, cutLast, cutLast_eq_none.mpr hbehind]
    simp
  | cons a before ih => rw [List.cons_append, cutLast, ih]

/-- The last occurrences of two equal lists are at the same place. -/
theorem append_cons_inj {c : α} {a a' b b' : List α} (hb : c ∉ b) (hb' : c ∉ b')
    (h : a ++ c :: b = a' ++ c :: b') : a = a' ∧ b = b' := by
  have hcut := cutLast_append hb a
  rw [h, cutLast_append hb' a', Option.some.injEq, Prod.mk.injEq] at hcut
  exact ⟨hcut.1.symm, hcut.2.symm⟩

end LastCut
