import Mathlib.Data.List.Basic

/-!
# Lib.Probe

Linear probing in a table of `n` slots: from a start slot on, around the end
of the table, up to the first slot that stops the search. `Way` says that a
slot is reached from a start through slots of some kind; a table that keeps
such ways is one in which searches find what was put there.

`exists_perm_set` is for invariants of the table that do not depend on the
order of its slots.
-/

namespace Probe

variable {n h w : Nat}

/-- The slots in the order they are visited from slot `h`. -/
def order (n h : Nat) : List Nat := (List.range n).map fun i => (h + i) % n

/-- The first slot that stops the search. -/
def first (n h : Nat) (stop : Nat → Bool) : Option Nat := (order n h).find? stop

/-- On the way from `h` to the slot all slots are `busy`. -/
def Way (n h : Nat) (busy : Nat → Prop) (w : Nat) : Prop :=
  ∃ before after, order n h = before ++ w :: after ∧ ∀ u ∈ before, busy u

theorem lt_of_mem_order (hw : w ∈ order n h) : w < n := by
  obtain ⟨i, hi, rfl⟩ := List.mem_map.mp hw
  exact Nat.mod_lt _ (Nat.zero_lt_of_lt (List.mem_range.mp hi))

/-- Every slot is visited. -/
theorem mem_order (h : Nat) (hw : w < n) : w ∈ order n h := by
  have hlt : h % n < n := Nat.mod_lt h (Nat.zero_lt_of_lt hw)
  refine List.mem_map.mpr ⟨(w + (n - h % n)) % n, ?_, ?_⟩
  · exact List.mem_range.mpr (Nat.mod_lt _ (Nat.zero_lt_of_lt hw))
  · have hsum : h % n + (w + (n - h % n)) = w + n := by omega
    rw [Nat.add_mod_mod, ← Nat.mod_add_mod, hsum, Nat.add_mod_right, Nat.mod_eq_of_lt hw]

theorem Way.mono {busy busy' : Nat → Prop} (hway : Way n h busy w)
    (hbusy : ∀ u, busy u → busy' u) : Way n h busy' w := by
  obtain ⟨before, after, horder, hbefore⟩ := hway
  exact ⟨before, after, horder, fun u hu => hbusy u (hbefore u hu)⟩

theorem first_eq_some {stop : Nat → Bool} (hfirst : first n h stop = some w) :
    w < n ∧ stop w = true ∧ Way n h (fun u => stop u = false) w := by
  obtain ⟨hstop, before, after, horder, hbefore⟩ := List.find?_eq_some_iff_append.mp hfirst
  refine ⟨?_, hstop, before, after, horder, ?_⟩
  · exact lt_of_mem_order (List.mem_of_find?_eq_some hfirst)
  · intro u hu
    simpa using hbefore u hu

theorem exists_first (stop : Nat → Bool) (hw : w < n) (hstop : stop w = true) :
    ∃ u, first n h stop = some u := by
  rw [← Option.isSome_iff_exists, first, List.find?_isSome]
  exact ⟨w, mem_order h hw, hstop⟩

/-- A search for something at the end of a way stops there or on the way. -/
theorem Way.first {busy : Nat → Prop} (hway : Way n h busy w) (stop : Nat → Bool)
    (hstop : stop w = true) : ∃ u, first n h stop = some u ∧ (u = w ∨ busy u) := by
  obtain ⟨before, after, horder, hbefore⟩ := hway
  rw [Probe.first, horder, List.find?_append]
  cases hfind : before.find? stop with
  | some u => exact ⟨u, rfl, .inr (hbefore u (List.mem_of_find?_eq_some hfind))⟩
  | none => exact ⟨w, by rw [List.find?_cons_of_pos hstop]; rfl, .inl rfl⟩

/-! ## By the number of slots passed -/

theorem order_length : (order n h).length = n := by
  rw [order, List.length_map, List.length_range]

theorem order_getElem {i : Nat} (hi : i < (order n h).length) : (order n h)[i] = (h + i) % n := by
  simp [order]

/-- The slots on a way, counted from the start. -/
theorem Way.index {busy : Nat → Prop} (hway : Way n h busy w) :
    ∃ d < n, w = (h + d) % n ∧ ∀ j < d, busy ((h + j) % n) := by
  obtain ⟨before, after, horder, hbefore⟩ := hway
  have hlen : before.length + after.length + 1 = n := by
    have := congrArg List.length horder
    rw [order_length, List.length_append, List.length_cons] at this
    omega
  refine ⟨before.length, by omega, ?_, ?_⟩
  · rw [← order_getElem (by rw [order_length]; omega)]
    simp [horder]
  · intro j hj
    rw [← order_getElem (by rw [order_length]; omega)]
    simp only [horder, List.getElem_append_left hj]
    exact hbefore _ (List.getElem_mem hj)

/-- How many slots a search passes, at most all of them. -/
theorem first_index (n h : Nat) (stop : Nat → Bool) :
    ∃ d ≤ n, (∀ j < d, stop ((h + j) % n) = false) ∧ (d < n → stop ((h + d) % n) = true) ∧
      first n h stop = if d < n then some ((h + d) % n) else none := by
  have hfirst : first n h stop =
      ((List.range n).find? fun i => stop ((h + i) % n)).map fun i => (h + i) % n := by
    rw [first, order, List.find?_map]
    rfl
  cases hfind : (List.range n).find? fun i => stop ((h + i) % n) with
  | none =>
    rw [List.find?_range_eq_none] at hfind
    refine ⟨n, Nat.le_refl n, fun j hj => by simpa using hfind j hj, fun hn => ?_, ?_⟩
    · exact absurd hn (Nat.lt_irrefl n)
    · rw [hfirst, if_neg (Nat.lt_irrefl n), List.find?_range_eq_none.mpr hfind]
      rfl
  | some d =>
    obtain ⟨hstop, hd, hpassed⟩ := List.find?_range_eq_some.mp hfind
    have hd := List.mem_range.mp hd
    refine ⟨d, Nat.le_of_lt hd, fun j hj => by simpa using hpassed j hj, fun _ => hstop, ?_⟩
    rw [hfirst, if_pos hd, hfind]
    rfl

/-! ## Up to the order of the slots -/

/-- Setting a slot exchanges one element. -/
theorem exists_perm_set {α : Type*} {l : List α} (hw : w < l.length) (a : α) :
    ∃ rest, l.Perm (l[w] :: rest) ∧ (l.set w a).Perm (a :: rest) := by
  refine ⟨l.take w ++ l.drop (w + 1), ?_, ?_⟩
  · have hsplit : l = l.take w ++ l[w] :: l.drop (w + 1) := by
      rw [List.getElem_cons_drop, List.take_append_drop]
    exact (List.Perm.of_eq hsplit).trans List.perm_middle
  · rw [List.set_eq_take_append_cons_drop, if_pos hw]
    exact List.perm_middle

end Probe
