import Mathlib.Data.List.Infix

/-!
# Lib.Overlay

A table of things that are put over the part of a tree below a point, the
newest first. A path belongs to the newest of them whose point is a prefix
of it.
-/

namespace Overlay

variable {ε α : Type*} [DecidableEq α] (point : ε → List α)

/-- What the path belongs to; none for the tree itself. -/
def top (table : List ε) (path : List α) : Option ε :=
  table.find? fun e => decide (point e <+: path)

variable {point}

theorem top_mem {table : List ε} {path : List α} {e : ε} (h : top point table path = some e) :
    e ∈ table :=
  List.mem_of_find?_eq_some h

theorem top_below {table : List ε} {path : List α} {e : ε}
    (h : top point table path = some e) : point e <+: path := by
  simpa using List.find?_some h

theorem top_eq_none {table : List ε} {path : List α} :
    top point table path = none ↔ ∀ e ∈ table, ¬ point e <+: path := by
  simp [top]

/-- The newest one. -/
theorem top_cons_below {e : ε} (table : List ε) {path : List α} (h : point e <+: path) :
    top point (e :: table) path = some e := by
  rw [top, List.find?_cons, decide_eq_true h]

theorem top_cons_of_not {e : ε} (table : List ε) {path : List α} (h : ¬ point e <+: path) :
    top point (e :: table) path = top point table path := by
  rw [top, List.find?_cons, decide_eq_false h]
  rfl

/-- Something is at the path as long as there is something at its point. -/
theorem top_isSome_of_mem {table : List ε} {e : ε} (h : e ∈ table) {path : List α}
    (hpath : point e <+: path) : (top point table path).isSome = true := by
  cases htop : top point table path with
  | some e' => rfl
  | none => exact absurd hpath (top_eq_none.mp htop e h)

/-- What is taken away was not what the path belongs to. -/
theorem top_eraseIdx {e : ε} {path : List α} : ∀ {table : List ε} {i : Nat},
    top point table path = some e → table[i]? ≠ some e →
      top point (table.eraseIdx i) path = some e := by
  intro table
  induction table with
  | nil =>
    intro i h _
    cases h
  | cons e' table ih =>
    intro i h hne
    by_cases hprefix : point e' <+: path
    · rw [top_cons_below table hprefix, Option.some.injEq] at h
      subst h
      cases i with
      | zero => exact absurd rfl hne
      | succ i => exact top_cons_below _ hprefix
    · rw [top_cons_of_not table hprefix] at h
      cases i with
      | zero => exact h
      | succ i =>
        rw [List.eraseIdx_cons_succ, top_cons_of_not _ hprefix]
        exact ih h hne

end Overlay
