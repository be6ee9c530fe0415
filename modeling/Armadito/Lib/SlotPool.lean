import Mathlib.Data.Finset.Card
import Mathlib.Data.Fintype.Card

/-!
# Lib.SlotPool

A pool of slots and the owners that occupy them, one slot each. `Assigned`
says that no two owners share a slot and that the slots in use are the ones
that have an owner; an owner may come to a free slot, and leaves a free slot
when it goes.
-/

namespace SlotPool

variable {α ι : Type*} {used : ι → Prop} {slot : α → ι}

/-- The owners have different slots, and these are the slots in use. -/
structure Assigned (used : ι → Prop) (slot : α → ι) (owners : List α) : Prop where
  nodup : (owners.map slot).Nodup
  used_iff : ∀ i, used i ↔ ∃ a ∈ owners, slot a = i

theorem assigned_nil (hfree : ∀ i, ¬ used i) : Assigned used slot [] := by
  refine ⟨List.nodup_nil, fun i => ?_⟩
  simp [hfree i]

/-- The order of the owners is of no interest. -/
theorem Assigned.perm {owners owners' : List α} (h : Assigned used slot owners)
    (hperm : owners.Perm owners') : Assigned used slot owners' := by
  refine ⟨(hperm.map slot).nodup_iff.mp h.nodup, fun i => ?_⟩
  rw [h.used_iff i]
  simp only [hperm.mem_iff]

theorem Assigned.congr {used' : ι → Prop} {owners : List α} (h : Assigned used slot owners)
    (hused : ∀ i, used' i ↔ used i) : Assigned used' slot owners :=
  ⟨h.nodup, fun i => (hused i).trans (h.used_iff i)⟩

/-- An owner is replaced by one with the same slot. -/
theorem Assigned.replace {owners : List α} {a b : α} (h : Assigned used slot (a :: owners))
    (hslot : slot b = slot a) : Assigned used slot (b :: owners) := by
  have hnodup := h.nodup
  rw [List.map_cons, ← hslot, ← List.map_cons] at hnodup
  refine ⟨hnodup, fun i => ?_⟩
  rw [h.used_iff i, List.exists_mem_cons_iff, List.exists_mem_cons_iff, hslot]

/-- An owner takes a free slot. -/
theorem Assigned.store {owners : List α} (h : Assigned used slot owners) {a : α}
    (hfree : ¬ used (slot a)) :
    Assigned (fun i => i = slot a ∨ used i) slot (a :: owners) := by
  have hnew : slot a ∉ owners.map slot := by
    rw [List.mem_map]
    exact fun hmem => hfree ((h.used_iff _).mpr hmem)
  refine ⟨List.nodup_cons.mpr ⟨hnew, h.nodup⟩, fun i => ?_⟩
  simp only [h.used_iff i, List.exists_mem_cons_iff, eq_comm]

/-- An owner leaves, and so does its slot the slots in use. -/
theorem Assigned.release {owners : List α} {a : α} (h : Assigned used slot (a :: owners)) :
    Assigned (fun i => i ≠ slot a ∧ used i) slot owners := by
  obtain ⟨hnew, hnodup⟩ := List.nodup_cons.mp h.nodup
  refine ⟨hnodup, fun i => ?_⟩
  rw [h.used_iff i, List.exists_mem_cons_iff]
  constructor
  · rintro ⟨hne, rfl | hmem⟩
    · exact absurd rfl hne
    · exact hmem
  · rintro ⟨b, hb, rfl⟩
    refine ⟨fun heq => hnew ?_, .inr ⟨b, hb, rfl⟩⟩
    rw [← heq]
    exact List.mem_map_of_mem hb

/-- A slot in use cannot be taken by another owner. -/
theorem Assigned.not_nodup {owners : List α} (h : Assigned used slot owners) {a : α}
    (hused : used (slot a)) : ¬ ((a :: owners).map slot).Nodup := by
  rw [List.map_cons, List.nodup_cons, List.mem_map]
  exact fun hnodup => hnodup.1 ((h.used_iff _).mp hused)

/-- As many slots are in use as there are owners. -/
theorem Assigned.card_used [Fintype ι] [DecidableEq ι] [DecidablePred used] {owners : List α}
    (h : Assigned used slot owners) :
    (Finset.univ.filter used).card = owners.length := by
  have hused : Finset.univ.filter used = (owners.map slot).toFinset := by
    ext i
    simp [h.used_iff i]
  rw [hused, List.toFinset_card_of_nodup h.nodup, List.length_map]

theorem Assigned.length_le [Fintype ι] {owners : List α} (h : Assigned used slot owners) :
    owners.length ≤ Fintype.card ι := by
  have hle := h.nodup.length_le_card
  rwa [List.length_map] at hle

end SlotPool
