import Mathlib.Data.List.Basic

/-!
# Lib.Terminated

Strings in blocks of memory, each ended by a terminator. A block that was
allocated with `calloc` has terminators in all cells. Reading or writing
outside of a block has no result.
-/

namespace Terminated

variable {α : Type*}

/-! ## Blocks -/

/-- `calloc`. -/
def calloc (z : α) (n : Nat) : List α := List.replicate n z

/-- `memcpy` of the first `size` cells of `source` to the cells from `start`
on. -/
def copy (block : List α) (start : Nat) (source : List α) (size : Nat) : Option (List α) :=
  if size ≤ source.length ∧ start + size ≤ block.length then
    some (block.take start ++ source.take size ++ block.drop (start + size))
  else none

@[simp] theorem length_calloc (z : α) (n : Nat) : (calloc z n).length = n :=
  List.length_replicate

theorem drop_calloc (z : α) (m n : Nat) : (calloc z n).drop m = calloc z (n - m) :=
  List.drop_replicate

/-- The last cell of a block is set to what it is. -/
theorem set_calloc (z : α) (m n : Nat) : (calloc z n).set m z = calloc z n :=
  List.set_replicate_self

/-- A copy behind the data of a block. -/
theorem copy_append (data rest source : List α) (size : Nat) (hsource : size ≤ source.length)
    (hroom : size ≤ rest.length) :
    copy (data ++ rest) data.length source size =
      some (data ++ source.take size ++ rest.drop size) := by
  have hfits : data.length + size ≤ (data ++ rest).length := by
    rw [List.length_append]
    omega
  rw [copy, if_pos ⟨hsource, hfits⟩, List.take_left, List.drop_append]
  simp

/-- A copy that fills a block. -/
theorem copy_whole (block source : List α) (hsource : block.length ≤ source.length) :
    copy block 0 source block.length = some (source.take block.length) := by
  have hcopy := copy_append [] block source block.length hsource (Nat.le_refl _)
  simpa using hcopy

/-! ## Strings -/

section

variable [DecidableEq α] (z : α)

/-- The string at the start of a block. -/
def string : List α → Option (List α)
  | [] => none
  | c :: block => if c = z then some [] else (string block).map (c :: ·)

/-- `strnlen`: the terminator is looked for in the first `n` cells. -/
def strnlen : Nat → List α → Option Nat
  | 0, _ => some 0
  | _ + 1, [] => none
  | n + 1, c :: block => if c = z then some 0 else (strnlen n block).map (· + 1)

variable {z}

theorem string_append {s : List α} (hs : z ∉ s) (rest : List α) :
    string z (s ++ z :: rest) = some s := by
  induction s with
  | nil => simp [string]
  | cons c s ih =>
    rw [List.mem_cons, not_or] at hs
    rw [List.cons_append, string, if_neg (Ne.symm hs.1), ih hs.2, Option.map_some]

theorem string_eq_none {block : List α} (h : z ∉ block) : string z block = none := by
  induction block with
  | nil => rfl
  | cons c block ih =>
    rw [List.mem_cons, not_or] at h
    rw [string, if_neg (Ne.symm h.1), ih h.2, Option.map_none]

/-- A string has no terminator inside. -/
theorem notMem_of_string {block s : List α} (h : string z block = some s) : z ∉ s := by
  induction block generalizing s with
  | nil => cases h
  | cons c block ih =>
    rw [string] at h
    split_ifs at h with hc
    · cases h
      exact List.not_mem_nil
    · obtain ⟨s', hs', rfl⟩ := Option.map_eq_some_iff.mp h
      rw [List.mem_cons, not_or]
      exact ⟨Ne.symm hc, ih hs'⟩

theorem notMem_of_mapM_string {blocks strings : List (List α)}
    (h : blocks.mapM (string z) = some strings) : ∀ s ∈ strings, z ∉ s := by
  induction blocks generalizing strings with
  | nil =>
    cases h
    simp
  | cons block blocks ih =>
    simp only [List.mapM_cons, Option.bind_eq_bind, Option.bind_eq_some_iff,
      Option.pure_def, Option.some.injEq] at h
    obtain ⟨s, hs, strings', hstrings', rfl⟩ := h
    exact List.forall_mem_cons.mpr ⟨notMem_of_string hs, ih hstrings'⟩

/-- A string within the limit. -/
theorem strnlen_append {s : List α} (hs : z ∉ s) {n : Nat} (hn : s.length ≤ n)
    (rest : List α) : strnlen z n (s ++ z :: rest) = some s.length := by
  induction s generalizing n with
  | nil =>
    cases n with
    | zero => rfl
    | succ n => simp [strnlen]
  | cons c s ih =>
    rw [List.mem_cons, not_or] at hs
    obtain ⟨n, rfl⟩ : ∃ m, n = m + 1 := ⟨n - 1, by simp only [List.length_cons] at hn; omega⟩
    rw [List.cons_append, strnlen, if_neg (Ne.symm hs.1),
      ih hs.2 (Nat.le_of_succ_le_succ hn), Option.map_some, List.length_cons]

/-- A string beyond the limit. -/
theorem strnlen_long {s : List α} (hs : z ∉ s) {n : Nat} (hn : n ≤ s.length) (rest : List α) :
    strnlen z n (s ++ rest) = some n := by
  induction s generalizing n with
  | nil =>
    obtain rfl : n = 0 := Nat.le_zero.mp hn
    rfl
  | cons c s ih =>
    rw [List.mem_cons, not_or] at hs
    cases n with
    | zero => rfl
    | succ n =>
      rw [List.cons_append, strnlen, if_neg (Ne.symm hs.1),
        ih hs.2 (Nat.le_of_succ_le_succ hn), Option.map_some]

theorem strnlen_eq_min {s : List α} (hs : z ∉ s) (n : Nat) (rest : List α) :
    strnlen z n (s ++ z :: rest) = some (min s.length n) := by
  rcases Nat.le_total s.length n with hn | hn
  · rw [strnlen_append hs hn, Nat.min_eq_left hn]
  · rw [strnlen_long hs hn, Nat.min_eq_right hn]

/-! ## Strings one after the other -/

variable (z)

/-- Where the strings of a block start, up to an empty one; the end of each
is looked for with the limit `n`. -/
def starts (n : Nat) (block : List α) : Option (List (List α)) :=
  match block with
  | [] => none
  | c :: block =>
    if c = z then some []
    else (strnlen z n (c :: block)).bind fun len =>
      (starts n (block.drop len)).map ((c :: block) :: ·)
  termination_by block.length

variable {z}

@[simp] theorem starts_empty (n : Nat) (block : List α) : starts z n (z :: block) = some [] := by
  simp [starts]

/-- A string within the limit is followed by the others. -/
theorem starts_append {s : List α} (hs : z ∉ s) (hne : s ≠ []) {n : Nat} (hn : s.length ≤ n)
    (rest : List α) :
    starts z n (s ++ z :: rest) = (starts z n rest).map ((s ++ z :: rest) :: ·) := by
  have hlen := strnlen_append hs hn rest
  cases s with
  | nil => exact absurd rfl hne
  | cons c s =>
    rw [List.mem_cons, not_or] at hs
    rw [List.cons_append] at hlen ⊢
    have hdrop : (s ++ z :: rest).drop (c :: s).length = rest := by
      rw [List.length_cons, ← List.drop_drop, List.drop_left]
      rfl
    rw [starts, if_neg (Ne.symm hs.1), hlen, Option.bind_some, hdrop]

/-- A string beyond the limit has a start. -/
theorem starts_long {s : List α} (hs : z ∉ s) (hne : s ≠ []) {n : Nat} (hn : n ≤ s.length)
    (rest : List α) :
    ∃ later : Option (List (List α)),
      starts z n (s ++ rest) = later.map ((s ++ rest) :: ·) := by
  have hlen := strnlen_long hs hn rest
  cases s with
  | nil => exact absurd rfl hne
  | cons c s =>
    rw [List.mem_cons, not_or] at hs
    rw [List.cons_append] at hlen ⊢
    refine ⟨starts z n ((s ++ rest).drop n), ?_⟩
    rw [starts, if_neg (Ne.symm hs.1), hlen, Option.bind_some]

end

end Terminated
