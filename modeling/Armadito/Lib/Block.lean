import Mathlib.Data.List.Basic

/-!
# Lib.Block

Blocks of allocated memory, cell by cell; a cell that was never written is
`none`. Access outside of the block has no result. `Begins` says what a
block starts with, which is all that a buffer that is filled from the front
has to know about its memory.
-/

namespace Block

variable {α : Type*}

/-- A block of `n` cells, as `malloc` returns it. -/
def fresh (n : Nat) : List (Option α) := List.replicate n none

/-- `realloc` to `n` cells. -/
def resize (n : Nat) (mem : List (Option α)) : List (Option α) :=
  mem.take n ++ fresh (n - mem.length)

/-- `memcpy` of the first `size` cells of `data` to the cells from `start`
on. -/
def copy (mem : List (Option α)) (start : Nat) (data : List α) (size : Nat) :
    Option (List (Option α)) :=
  if size ≤ data.length ∧ start + size ≤ mem.length then
    some (mem.take start ++ (data.take size).map some ++ mem.drop (start + size))
  else none

/-- The first `size` cells, for a function that reads all of them. -/
def read (mem : List (Option α)) (size : Nat) : Option (List (Option α)) :=
  if size ≤ mem.length then some (mem.take size) else none

/-- The block starts with the data. -/
def Begins (mem : List (Option α)) (data : List α) : Prop := data.map some <+: mem

@[simp] theorem length_fresh (n : Nat) : (fresh n : List (Option α)).length = n :=
  List.length_replicate

@[simp] theorem length_resize (n : Nat) (mem : List (Option α)) :
    (resize n mem).length = n := by
  simp only [resize, List.length_append, List.length_take, length_fresh]
  omega

theorem begins_nil (mem : List (Option α)) : Begins mem [] := List.nil_prefix

theorem Begins.length_le {mem : List (Option α)} {data : List α} (h : Begins mem data) :
    data.length ≤ mem.length := by
  have hle := List.IsPrefix.length_le h
  rwa [List.length_map] at hle

/-- The data is what the first cells hold. -/
theorem Begins.take_eq {mem : List (Option α)} {data : List α} (h : Begins mem data) :
    mem.take data.length = data.map some := by
  obtain ⟨rest, rfl⟩ := h
  rw [← List.length_map some, List.take_left]

/-- What a block starts with survives a `realloc` that leaves room for it. -/
theorem Begins.resize {mem : List (Option α)} {data : List α} (h : Begins mem data) {n : Nat}
    (hroom : data.length ≤ n) : Begins (resize n mem) data := by
  have hfirst : data.map some <+: mem.take n := by
    rw [← h.take_eq]
    exact List.take_prefix_take_left hroom
  exact hfirst.trans (List.prefix_append _ _)

/-- A copy behind the data, inside of the block. -/
theorem Begins.copy {mem : List (Option α)} {data : List α} (h : Begins mem data)
    (source : List α) {size : Nat} (hsource : size ≤ source.length)
    (hroom : data.length + size ≤ mem.length) :
    ∃ mem', copy mem data.length source size = some mem' ∧ mem'.length = mem.length ∧
      Begins mem' (data ++ source.take size) := by
  refine ⟨_, if_pos ⟨hsource, hroom⟩, ?_, ?_⟩
  · simp only [List.length_append, List.length_take, List.length_map, List.length_drop]
    omega
  · rw [h.take_eq, Begins, List.map_append]
    exact List.prefix_append _ _

theorem Begins.read {mem : List (Option α)} {data rest : List α}
    (h : Begins mem (data ++ rest)) : read mem data.length = some (data.map some) := by
  have hdata : Begins mem data := by
    rw [Begins, List.map_append] at h
    exact (List.prefix_append _ _).trans h
  rw [Block.read, if_pos hdata.length_le, hdata.take_eq]

end Block
