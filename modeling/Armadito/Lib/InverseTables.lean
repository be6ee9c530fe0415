import Mathlib.Logic.Function.Basic

/-!
# Lib.InverseTables

Tables as functions with at most one value for a key: what a change of one
entry leaves, and two tables that are inverse to each other, as long as an
entry goes into both for a key and a value that are in none, and is taken
out of both.
-/

variable {α β : Type*}

/-! ## One table -/

section

variable [DecidableEq α] {f : α → Option β} {a x : α} {b y : β}

theorem update_some_cases (h : Function.update f a (some b) x = some y) :
    x = a ∧ y = b ∨ x ≠ a ∧ f x = some y := by
  by_cases hx : x = a
  · rw [hx, Function.update_self] at h
    injection h with h
    exact .inl ⟨hx, h.symm⟩
  · rw [Function.update_of_ne hx] at h
    exact .inr ⟨hx, h⟩

theorem update_none_cases (h : Function.update f a none x = some y) : x ≠ a ∧ f x = some y := by
  by_cases hx : x = a
  · rw [hx, Function.update_self] at h
    cases h
  · rw [Function.update_of_ne hx] at h
    exact ⟨hx, h⟩

/-- A new key leaves the old entries. -/
theorem update_of_some (ha : f a = none) (c : Option β) (h : f x = some y) :
    Function.update f a c x = some y := by
  rw [Function.update_of_ne, h]
  rintro rfl
  rw [ha] at h
  cases h

/-- A new value leaves the keys of a value unique. -/
theorem update_some_inj (h : ∀ x x' y, f x = some y → f x' = some y → x = x')
    (hb : ∀ x, f x ≠ some b) :
    ∀ x x' y, Function.update f a (some b) x = some y →
      Function.update f a (some b) x' = some y → x = x' := by
  intro x x' y hx hx'
  rcases update_some_cases hx with ⟨rfl, rfl⟩ | ⟨-, hold⟩
  · rcases update_some_cases hx' with ⟨rfl, -⟩ | ⟨-, hold'⟩
    · rfl
    · exact absurd hold' (hb x')
  · rcases update_some_cases hx' with ⟨-, rfl⟩ | ⟨-, hold'⟩
    · exact absurd hold (hb x)
    · exact h x x' y hold hold'

end

/-! ## Two tables -/

/-- `f` has `b` at `a` where `g` has `a` at `b`. -/
def InverseTables (f : α → Option β) (g : β → Option α) : Prop :=
  ∀ a b, f a = some b ↔ g b = some a

namespace InverseTables

variable [DecidableEq α] [DecidableEq β] {f : α → Option β} {g : β → Option α} {a : α} {b : β}

omit [DecidableEq α] [DecidableEq β] in
theorem left_inj (h : InverseTables f g) {a' : α} (ha : f a = some b) (ha' : f a' = some b) :
    a = a' :=
  Option.some.inj (((h a b).mp ha).symm.trans ((h a' b).mp ha'))

theorem insert (h : InverseTables f g) (ha : f a = none) (hb : g b = none) :
    InverseTables (Function.update f a (some b)) (Function.update g b (some a)) := by
  intro x y
  by_cases hx : x = a
  · subst hx
    by_cases hy : y = b
    · subst hy
      simp
    · rw [Function.update_self, Function.update_of_ne hy, ← h, ha]
      simp [Ne.symm hy]
  · by_cases hy : y = b
    · subst hy
      rw [Function.update_self, Function.update_of_ne hx, h, hb]
      simp [Ne.symm hx]
    · rw [Function.update_of_ne hx, Function.update_of_ne hy, h]

theorem erase (h : InverseTables f g) (ha : f a = some b) :
    InverseTables (Function.update f a none) (Function.update g b none) := by
  intro x y
  by_cases hx : x = a
  · subst hx
    by_cases hy : y = b
    · subst hy
      simp
    · rw [Function.update_self, Function.update_of_ne hy, ← h, ha]
      simp [Ne.symm hy]
  · by_cases hy : y = b
    · subst hy
      rw [Function.update_self, Function.update_of_ne hx]
      simp only [reduceCtorEq, iff_false]
      exact fun hxy => hx (h.left_inj hxy ha)
    · rw [Function.update_of_ne hx, Function.update_of_ne hy, h]

end InverseTables
