import Mathlib.Logic.Function.Basic

/-!
# Lib.Run

Runs of a labelled transition system given by a partial step function: a
label that is not enabled in a state has no successor there. An invariant
of every step is an invariant of every run; `run_history` is the rule for
invariants that also speak about the labels taken so far, `run_of_allSteps`
the one for steps that are well behaved under a condition.
-/

namespace Transition

variable {σ α : Type*}

/-- The state after a list of labels, when each is enabled in its turn. -/
def run (step : σ → α → Option σ) : σ → List α → Option σ
  | s, [] => some s
  | s, a :: as => (step s a).bind fun s' => run step s' as

@[simp] theorem run_nil (step : σ → α → Option σ) (s : σ) : run step s [] = some s := rfl

theorem run_cons_eq_some {step : σ → α → Option σ} {s t : σ} {a : α} {as : List α} :
    run step s (a :: as) = some t ↔ ∃ s', step s a = some s' ∧ run step s' as = some t := by
  rw [run, Option.bind_eq_some_iff]

theorem run_append {step : σ → α → Option σ} (as bs : List α) :
    ∀ s : σ, run step s (as ++ bs) = (run step s as).bind fun s' => run step s' bs := by
  induction as with
  | nil => intro s; rfl
  | cons a as ih =>
    intro s
    rw [List.cons_append, run, run]
    cases step s a with
    | none => rfl
    | some s' => exact ih s'

theorem run_map {β : Type*} (step : σ → β → Option σ) (g : α → β) (as : List α) :
    ∀ s : σ, run step s (as.map g) = run (fun s a => step s (g a)) s as := by
  induction as with
  | nil => intro s; rfl
  | cons a as ih =>
    intro s
    rw [List.map_cons, run, run]
    exact congrArg _ (funext ih)

/-- Steps that are taken in a fold, which stays without a state once it has
none. -/
theorem foldl_bind_eq_run (step : σ → α → Option σ) (as : List α) :
    ∀ o : Option σ, as.foldl (fun o a => o.bind fun s => step s a) o =
      o.bind fun s => run step s as := by
  induction as with
  | nil => intro o; cases o <;> rfl
  | cons a as ih =>
    intro o
    rw [List.foldl_cons, ih]
    cases o with
    | none => rfl
    | some s => rfl

/-- What every step preserves, every run preserves. -/
theorem run_invariant {step : σ → α → Option σ} {P : σ → Prop}
    (hstep : ∀ s a s', P s → step s a = some s' → P s') :
    ∀ (as : List α) (s s' : σ), P s → run step s as = some s' → P s' := by
  intro as
  induction as with
  | nil =>
    intro s s' hs h
    cases h
    exact hs
  | cons a as ih =>
    intro s s' hs h
    obtain ⟨t, ht, h⟩ := run_cons_eq_some.mp h
    exact ih t s' (hstep s a t hs ht) h

/-- The same for an invariant that relates the state to the labels taken so
far. -/
theorem run_history {step : σ → α → Option σ} {P : List α → σ → Prop}
    (hstep : ∀ as s a s', P as s → step s a = some s' → P (as ++ [a]) s') :
    ∀ (as past : List α) (s s' : σ), P past s → run step s as = some s' →
      P (past ++ as) s' := by
  intro as
  induction as with
  | nil =>
    intro past s s' hs h
    cases h
    rwa [List.append_nil]
  | cons a as ih =>
    intro past s s' hs h
    obtain ⟨t, ht, h⟩ := run_cons_eq_some.mp h
    have := ih (past ++ [a]) t s' (hstep past s a t hs ht) h
    rwa [List.append_assoc] at this

/-- Each step of a run meets the condition, in the state it is taken in. -/
def AllSteps (step : σ → α → Option σ) (ok : σ → α → Prop) : σ → List α → Prop
  | _, [] => True
  | s, a :: as => ok s a ∧ ∀ s', step s a = some s' → AllSteps step ok s' as

instance AllSteps.decidable {step : σ → α → Option σ} {ok : σ → α → Prop}
    [∀ s a, Decidable (ok s a)] : ∀ (as : List α) (s : σ), Decidable (AllSteps step ok s as)
  | [], _ => .isTrue trivial
  | a :: as, s =>
    match h : step s a with
    | none => decidable_of_iff (ok s a)
        ⟨fun hok => ⟨hok, fun s' hs' => by rw [h] at hs'; cases hs'⟩, And.left⟩
    | some t =>
      have : Decidable (AllSteps step ok t as) := AllSteps.decidable as t
      decidable_of_iff (ok s a ∧ AllSteps step ok t as)
        ⟨fun ⟨hok, hrest⟩ => ⟨hok, fun s' hs' => by rw [h] at hs'; cases hs'; exact hrest⟩,
          fun ⟨hok, hrest⟩ => ⟨hok, hrest t h⟩⟩

theorem AllSteps.of_append {step : σ → α → Option σ} {ok : σ → α → Prop} (as bs : List α) :
    ∀ s : σ, AllSteps step ok s (as ++ bs) → AllSteps step ok s as := by
  induction as with
  | nil =>
    intro s _
    trivial
  | cons a as ih =>
    intro s hall
    exact ⟨hall.1, fun s' hs' => ih s' (hall.2 s' hs')⟩

theorem AllSteps.cons {step : σ → α → Option σ} {ok : σ → α → Prop} {s t : σ} {a : α}
    {as : List α} (hok : ok s a) (hstep : step s a = some t) (h : AllSteps step ok t as) :
    AllSteps step ok s (a :: as) := by
  refine ⟨hok, fun t' ht' => ?_⟩
  obtain rfl : t = t' := Option.some.inj (hstep.symm.trans ht')
  exact h

/-- Labels that meet the condition in every state. -/
theorem AllSteps.of_forall {step : σ → α → Option σ} {ok : σ → α → Prop} (as : List α) :
    ∀ s : σ, (∀ a ∈ as, ∀ s, ok s a) → AllSteps step ok s as := by
  induction as with
  | nil =>
    intro s _
    trivial
  | cons a as ih =>
    intro s h
    exact ⟨h a List.mem_cons_self s,
      fun s' _ => ih s' fun b hb => h b (List.mem_cons_of_mem a hb)⟩

theorem AllSteps.and {step : σ → α → Option σ} {ok ok' : σ → α → Prop} {as : List α} :
    ∀ {s : σ}, AllSteps step ok s as → AllSteps step ok' s as →
      AllSteps step (fun s a => ok s a ∧ ok' s a) s as := by
  induction as with
  | nil =>
    intro s _ _
    trivial
  | cons a as ih =>
    intro s h h'
    exact ⟨⟨h.1, h'.1⟩, fun s' hs' => ih (h.2 s' hs') (h'.2 s' hs')⟩

/-- Steps that meet the condition are enabled and preserve `P`, and so do
runs of such steps. -/
theorem run_of_allSteps {step : σ → α → Option σ} {P : σ → Prop} {ok : σ → α → Prop}
    (hstep : ∀ s a, P s → ok s a → ∃ s', step s a = some s' ∧ P s') :
    ∀ (as : List α) (s : σ), P s → AllSteps step ok s as →
      ∃ s', run step s as = some s' ∧ P s' := by
  intro as
  induction as with
  | nil =>
    intro s hs _
    exact ⟨s, rfl, hs⟩
  | cons a as ih =>
    intro s hs hall
    obtain ⟨t, ht, hPt⟩ := hstep s a hs hall.1
    obtain ⟨s', hrun, hs'⟩ := ih t hPt (hall.2 t ht)
    exact ⟨s', run_cons_eq_some.mpr ⟨t, ht, hrun⟩, hs'⟩

/-- What steps that meet the condition preserve, runs of such steps
preserve. -/
theorem run_invariant_of_allSteps {step : σ → α → Option σ} {P : σ → Prop} {ok : σ → α → Prop}
    (hstep : ∀ s a s', P s → ok s a → step s a = some s' → P s') :
    ∀ (as : List α) (s s' : σ), P s → AllSteps step ok s as → run step s as = some s' →
      P s' := by
  intro as
  induction as with
  | nil =>
    intro s s' hs _ h
    cases h
    exact hs
  | cons a as ih =>
    intro s s' hs hall h
    obtain ⟨t, ht, h⟩ := run_cons_eq_some.mp h
    exact ih t s' (hstep s a t hs hall.1 ht) (hall.2 t ht) h

/-- Steps that meet the condition preserve `I`, which implies `P`, and the
others end `P`. So `P` holds in every state of a run if and only if all steps
of the run meet the condition. -/
theorem reached_iff_allSteps {step : σ → α → Option σ} {I P : σ → Prop} {ok : σ → α → Prop}
    (hI : ∀ s, I s → P s) (hgood : ∀ s a s', I s → step s a = some s' → ok s a → I s')
    (hbad : ∀ s a s', I s → step s a = some s' → ¬ ok s a → ¬ P s') :
    ∀ (as : List α) (s t : σ), I s → run step s as = some t →
      ((∀ before after u, as = before ++ after → run step s before = some u → P u) ↔
        AllSteps step ok s as) := by
  intro as
  induction as with
  | nil =>
    intro s t hs _
    refine ⟨fun _ => trivial, fun _ before after u hsplit hu => ?_⟩
    rw [(List.append_eq_nil_iff.mp hsplit.symm).1, run_nil] at hu
    exact Option.some.inj hu ▸ hI s hs
  | cons a as ih =>
    intro s t hs hrun
    obtain ⟨s', hstep, hrest⟩ := run_cons_eq_some.mp hrun
    constructor
    · intro hall
      have hok : ok s a := by
        by_contra hnot
        have hone : run step s [a] = some s' := run_cons_eq_some.mpr ⟨s', hstep, rfl⟩
        exact hbad s a s' hs hstep hnot (hall [a] as s' rfl hone)
      refine .cons hok hstep ((ih s' t (hgood s a s' hs hstep hok) hrest).mp ?_)
      intro before after u hsplit hu
      exact hall (a :: before) after u (by rw [hsplit, List.cons_append])
        (run_cons_eq_some.mpr ⟨s', hstep, hu⟩)
    · rintro ⟨hok, hall⟩ before after u hsplit hu
      cases before with
      | nil =>
        rw [run_nil] at hu
        exact Option.some.inj hu ▸ hI s hs
      | cons b before =>
        obtain ⟨rfl, htail⟩ := List.cons.inj hsplit
        obtain ⟨s'', hstep', hu⟩ := run_cons_eq_some.mp hu
        obtain rfl : s' = s'' := Option.some.inj (hstep.symm.trans hstep')
        exact (ih s' t (hgood s a s' hs hstep hok) hrest).mpr (hall s' hstep) before after u
          htail hu

/-! ## Two systems -/

/-- Each step of one system is some steps of another, from related states to
related states, and has no successor where these have none: then the runs
of the two are related in the same way. -/
theorem run_rel {τ β : Type*} {step : σ → α → Option σ} {step' : τ → β → Option τ}
    {R : σ → τ → Prop} {g : α → List β}
    (hstep : ∀ s t a, R s t → Option.Rel R (step s a) (run step' t (g a))) (as : List α) :
    ∀ s t, R s t → Option.Rel R (run step s as) (run step' t (as.flatMap g)) := by
  induction as with
  | nil =>
    intro s t h
    exact .some h
  | cons a as ih =>
    intro s t h
    rw [List.flatMap_cons, run_append, run]
    have hfirst := hstep s t a h
    generalize step s a = o at hfirst ⊢
    generalize run step' t (g a) = o' at hfirst ⊢
    cases hfirst with
    | some h => exact ih _ _ h
    | none => exact .none

/-- Forward simulation: each step of one system is some steps of another. -/
theorem run_simulation {τ β : Type*} {step : σ → α → Option σ} {step' : τ → β → Option τ}
    {R : σ → τ → Prop} {g : α → List β}
    (hstep : ∀ s t a s', R s t → step s a = some s' →
      ∃ t', run step' t (g a) = some t' ∧ R s' t') (as : List α) :
    ∀ s t s', R s t → run step s as = some s' →
      ∃ t', run step' t (as.flatMap g) = some t' ∧ R s' t' := by
  induction as with
  | nil =>
    intro s t s' h hrun
    cases hrun
    exact ⟨t, rfl, h⟩
  | cons a as ih =>
    intro s t s' h hrun
    obtain ⟨u, hu, hrest⟩ := run_cons_eq_some.mp hrun
    obtain ⟨v, hv, hR⟩ := hstep s t a u h hu
    obtain ⟨t', ht', hR'⟩ := ih u v s' hR hrest
    refine ⟨t', ?_, hR'⟩
    rw [List.flatMap_cons, run_append, hv]
    exact ht'

/-! ## Runs of good steps -/

/-- The labels lead from `s` to `s'`, and each of their steps meets the
condition. -/
def Reaches (step : σ → α → Option σ) (ok : σ → α → Prop) (s : σ) (as : List α)
    (s' : σ) : Prop :=
  run step s as = some s' ∧ AllSteps step ok s as

theorem Reaches.refl {step : σ → α → Option σ} {ok : σ → α → Prop} (s : σ) :
    Reaches step ok s [] s :=
  ⟨rfl, trivial⟩

theorem Reaches.cons {step : σ → α → Option σ} {ok : σ → α → Prop} {s t s' : σ} {a : α}
    {as : List α} (hok : ok s a) (hstep : step s a = some t)
    (h : Reaches step ok t as s') : Reaches step ok s (a :: as) s' := by
  exact ⟨run_cons_eq_some.mpr ⟨t, hstep, h.1⟩, h.2.cons hok hstep⟩

theorem Reaches.append {step : σ → α → Option σ} {ok : σ → α → Prop} {as bs : List α} :
    ∀ {s t s' : σ}, Reaches step ok s as t → Reaches step ok t bs s' →
      Reaches step ok s (as ++ bs) s' := by
  induction as with
  | nil =>
    rintro s t s' ⟨hrun, -⟩ h
    cases hrun
    exact h
  | cons a as ih =>
    rintro s t s' ⟨hrun, hok, hall⟩ h
    obtain ⟨u, hu, hrun⟩ := run_cons_eq_some.mp hrun
    exact .cons hok hu (ih ⟨hrun, hall u hu⟩ h)

end Transition
