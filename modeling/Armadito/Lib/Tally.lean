import Mathlib.Algebra.BigOperators.Group.List.Basic

/-!
# Lib.Tally

Parties kept in a list, each contributing to a shared total: what the total
becomes when one of them moves, or when another joins. The contributions
are numbers, multisets, or anything else that adds up.
-/

namespace Tally

variable {α M : Type*} [AddCommMonoid M]

/-- The sum of the contributions. -/
def total (f : α → M) (parties : List α) : M := (parties.map f).sum

@[simp] theorem total_nil (f : α → M) : total f [] = 0 := rfl

@[simp] theorem total_cons (f : α → M) (a : α) (as : List α) :
    total f (a :: as) = f a + total f as := by
  simp [total]

theorem total_append (f : α → M) (as bs : List α) :
    total f (as ++ bs) = total f as + total f bs := by
  simp [total]

/-- One party moves from `a` to `b`. -/
theorem total_set_add (f : α → M) {a : α} (b : α) :
    ∀ {parties : List α} {i : Nat}, parties[i]? = some a →
      total f (parties.set i b) + f a = total f parties + f b := by
  intro parties
  induction parties with
  | nil => intro i h; simp at h
  | cons p ps ih =>
    intro i h
    cases i with
    | zero =>
      obtain rfl : p = a := by simpa using h
      rw [List.set_cons_zero, total_cons, total_cons]
      exact add_right_comm _ _ _ |>.trans (by rw [add_comm (f b), add_right_comm])
    | succ i =>
      have hps : ps[i]? = some a := by simpa using h
      rw [List.set_cons_succ, total_cons, total_cons, add_assoc, ih hps, add_assoc]

theorem total_le_total {f g : α → Nat} (parties : List α) (h : ∀ a, f a ≤ g a) :
    total f parties ≤ total g parties := by
  induction parties with
  | nil => simp
  | cons a as ih =>
    rw [total_cons, total_cons]
    have := h a
    omega

theorem total_add (f g : α → M) (parties : List α) :
    total (fun a => f a + g a) parties = total f parties + total g parties := by
  induction parties with
  | nil => simp
  | cons a as ih => rw [total_cons, total_cons, total_cons, ih, add_add_add_comm]

end Tally
