import Mathlib.Order.Basic

/-!
# Lib.Loop

Loops whose body goes on in a new state or returns: `Returns` counts the
passes. A loop whose passes descend in a well-founded relation returns;
what every pass keeps holds of what is returned.
-/

namespace Loop

variable {σ ρ : Type*}

/-- The loop returns in its `n`-th pass. -/
inductive Returns (body : σ → σ ⊕ ρ) : σ → Nat → ρ → Prop where
  | ret {s : σ} {r : ρ} (h : body s = .inr r) : Returns body s 1 r
  | next {s s' : σ} {n : Nat} {r : ρ} (h : body s = .inl s') (hrest : Returns body s' n r) :
      Returns body s (n + 1) r

variable {body : σ → σ ⊕ ρ}

/-- Every pass descends, as long as an invariant holds. -/
theorem exists_returns {R : σ → σ → Prop} (wf : WellFounded R) {I : σ → Prop}
    (hpass : ∀ s s', I s → body s = .inl s' → I s' ∧ R s' s) (s : σ) (hs : I s) :
    ∃ n r, Returns body s n r := by
  induction s using wf.induction with
  | _ s ih =>
    cases hbody : body s with
    | inr r => exact ⟨1, r, .ret hbody⟩
    | inl s' =>
      obtain ⟨hs', hdesc⟩ := hpass s s' hs hbody
      obtain ⟨n, r, hrest⟩ := ih s' hdesc hs'
      exact ⟨n + 1, r, .next hbody hrest⟩

/-- A measure that every pass decreases bounds the number of passes. -/
theorem exists_returns_le (m : σ → Nat) (hpass : ∀ s s', body s = .inl s' → m s' < m s)
    (s : σ) : ∃ n ≤ m s + 1, ∃ r, Returns body s n r := by
  induction hk : m s using Nat.strongRecOn generalizing s with
  | _ k ih =>
    cases hbody : body s with
    | inr r => exact ⟨1, by omega, r, .ret hbody⟩
    | inl s' =>
      have hlt := hpass s s' hbody
      obtain ⟨n, hn, r, hrest⟩ := ih (m s') (by omega) s' rfl
      exact ⟨n + 1, by omega, r, .next hbody hrest⟩

theorem Returns.invariant {I : σ → Prop} {Q : ρ → Prop}
    (hnext : ∀ s s', I s → body s = .inl s' → I s') (hret : ∀ s r, I s → body s = .inr r → Q r)
    {s : σ} {n : Nat} {r : ρ} (h : Returns body s n r) (hs : I s) : Q r := by
  induction h with
  | ret h => exact hret _ _ hs h
  | next h hrest ih => exact ih (hnext _ _ hs h)

/-- A value that no pass changes is the one returned. -/
theorem Returns.eq {f : σ → ρ} (hnext : ∀ s s', body s = .inl s' → f s' = f s)
    (hret : ∀ s r, body s = .inr r → f s = r) {s : σ} {n : Nat} {r : ρ}
    (h : Returns body s n r) : r = f s := by
  refine h.invariant (I := fun s' => f s' = f s) (Q := fun r => r = f s) ?_ ?_ rfl
  · intro t t' ht hbody
    rw [hnext t t' hbody, ht]
  · intro t r ht hbody
    rw [← hret t r hbody, ht]

end Loop
