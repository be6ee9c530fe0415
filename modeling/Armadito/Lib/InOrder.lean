import Mathlib.Data.Set.Insert

/-!
# Lib.InOrder

Parties that read a rising level, hold what they have read, and publish it
later. While each publishes only what no other holds less than, the
published values never fall, and they stay between a floor that the level
had when it was first read and the level.
-/

namespace InOrder

variable {α : Type*} [Preorder α]

/-- What has been published is below everything that is still held. -/
structure Published (floor level : α) (held : Set α) (sent : List α) : Prop where
  sorted : sent.Pairwise (· ≤ ·)
  sent_le_held : ∀ v ∈ sent, ∀ q ∈ held, v ≤ q
  sent_mem : ∀ v ∈ sent, floor ≤ v ∧ v ≤ level
  held_mem : ∀ q ∈ held, floor ≤ q ∧ q ≤ level

variable {floor level level' : α} {held held' : Set α} {sent : List α}

theorem Published.empty (floor level : α) : Published floor level ∅ [] := by
  refine ⟨List.Pairwise.nil, ?_, ?_, ?_⟩ <;> simp

theorem Published.raise (h : Published floor level held sent) (hle : level ≤ level') :
    Published floor level' held sent where
  sorted := h.sorted
  sent_le_held := h.sent_le_held
  sent_mem v hv := ⟨(h.sent_mem v hv).1, (h.sent_mem v hv).2.trans hle⟩
  held_mem q hq := ⟨(h.held_mem q hq).1, (h.held_mem q hq).2.trans hle⟩

/-- Parties read the level, or drop what they have read. -/
theorem Published.read (h : Published floor level held sent) (hfloor : floor ≤ level)
    (hsub : held' ⊆ insert level held) : Published floor level held' sent := by
  refine ⟨h.sorted, ?_, h.sent_mem, ?_⟩
  · intro v hv q hq
    rcases hsub hq with rfl | hold
    · exact (h.sent_mem v hv).2
    · exact h.sent_le_held v hv q hold
  · intro q hq
    rcases hsub hq with rfl | hold
    · exact ⟨hfloor, le_refl q⟩
    · exact h.held_mem q hold

/-- A party publishes a least one of the values held. -/
theorem Published.send (h : Published floor level held sent) {p : α} (hp : p ∈ held)
    (hleast : ∀ q ∈ held, p ≤ q) (hsub : held' ⊆ held) :
    Published floor level held' (sent ++ [p]) := by
  refine ⟨?_, ?_, ?_, fun q hq => h.held_mem q (hsub hq)⟩
  · rw [List.pairwise_append]
    refine ⟨h.sorted, List.pairwise_singleton _ p, ?_⟩
    intro v hv w hw
    rw [List.mem_singleton.mp hw]
    exact h.sent_le_held v hv p hp
  · intro v hv q hq
    rcases List.mem_append.mp hv with hold | hnew
    · exact h.sent_le_held v hold q (hsub hq)
    · rw [List.mem_singleton.mp hnew]
      exact hleast q (hsub hq)
  · intro v hv
    rcases List.mem_append.mp hv with hold | hnew
    · exact h.sent_mem v hold
    · rw [List.mem_singleton.mp hnew]
      exact h.held_mem p hp

end InOrder
