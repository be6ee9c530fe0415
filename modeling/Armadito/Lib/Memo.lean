import Mathlib.Logic.Basic

/-!
# Lib.Memo

A cache in front of a function that may fail. The cache remembers the
values, not the failures. While every entry is a value of the function, a
look-up answers what the function answers, whatever was looked up before.
-/

namespace Memo

variable {ε α β : Type} [BEq α]

/-- The value from the cache, or else from the function. -/
def lookUp (f : α → Except ε β) (cache : List (α × β)) (k : α) :
    Except ε (β × List (α × β)) :=
  match cache.lookup k with
  | some v => .ok (v, cache)
  | none => do
    let v ← f k
    return (v, (k, v) :: cache)

/-- Look-ups one after the other, with the last cache. -/
def lookUps (f : α → Except ε β) : List (α × β) → List α → Except ε (List β × List (α × β))
  | cache, [] => .ok ([], cache)
  | cache, k :: ks => do
    let (v, cache) ← lookUp f cache k
    let (vs, cache) ← lookUps f cache ks
    return (v :: vs, cache)

/-- Every entry is a value of the function. -/
def Sound (f : α → Except ε β) (cache : List (α × β)) : Prop :=
  ∀ k v, cache.lookup k = some v → f k = .ok v

variable {f : α → Except ε β} {cache cache' : List (α × β)} {k : α} {v : β}

theorem Sound.nil (f : α → Except ε β) : Sound f [] := by
  intro k v h
  cases h

theorem Sound.insert [LawfulBEq α] (h : Sound f cache) (hk : f k = .ok v) :
    Sound f ((k, v) :: cache) := by
  intro k' v' hlookup
  by_cases heq : k' = k
  · subst heq
    obtain rfl : v = v' := by simpa using hlookup
    exact hk
  · have hne : (k' == k) = false := by simpa using heq
    rw [List.lookup_cons, hne] at hlookup
    exact h k' v' hlookup

/-- **A look-up answers what the function answers.** -/
theorem lookUp_eq (h : Sound f cache) (k : α) : (lookUp f cache k).map Prod.fst = f k := by
  rw [lookUp]
  split
  · next v hv => exact (h k v hv).symm
  · cases f k <;> rfl

theorem lookUp_sound [LawfulBEq α] (h : Sound f cache) (hk : lookUp f cache k = .ok (v, cache')) :
    Sound f cache' := by
  rw [lookUp] at hk
  split at hk
  · cases hk
    exact h
  · cases hf : f k with
    | error e =>
      rw [hf] at hk
      cases hk
    | ok v' =>
      rw [hf] at hk
      cases hk
      exact h.insert hf

/-- A sequence of look-ups answers what the function answers to each. -/
theorem lookUps_eq [LawfulBEq α] (ks : List α) :
    ∀ {cache : List (α × β)}, Sound f cache → (lookUps f cache ks).map Prod.fst = ks.mapM f := by
  induction ks with
  | nil =>
    intro cache _
    rfl
  | cons k ks ih =>
    intro cache h
    have hhead := lookUp_eq h k
    rw [List.mapM_cons, ← hhead, lookUps]
    cases hk : lookUp f cache k with
    | error e => rfl
    | ok r =>
      have htail := ih (lookUp_sound h hk)
      show Except.map Prod.fst (lookUps f r.2 ks >>= _) = (ks.mapM f >>= _)
      rw [← htail]
      cases lookUps f r.2 ks <;> rfl

end Memo
