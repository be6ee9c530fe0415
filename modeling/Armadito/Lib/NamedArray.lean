import Mathlib.Data.List.Nodup

/-!
# Lib.NamedArray

Arrays whose elements have a name, searched from the front and changed in
place. A search finds the first element of a name; a change of that element
that keeps its name is seen by searches for it and by no other.
-/

namespace NamedArray

variable {ε ν : Type*} [DecidableEq ν] (name : ε → ν)

/-- The first element with the name. -/
def search (arr : List ε) (n : ν) : Option ε := arr.find? fun e => name e = n

/-- The array after a change of the element that `search` finds. -/
def modify (n : ν) (f : ε → ε) : List ε → List ε
  | [] => []
  | e :: arr => if name e = n then f e :: arr else e :: modify n f arr

variable {name}

theorem search_eq_none {arr : List ε} {n : ν} :
    search name arr n = none ↔ n ∉ arr.map name := by
  simp [search, List.find?_eq_none]

theorem search_isSome {arr : List ε} {n : ν} :
    (search name arr n).isSome ↔ n ∈ arr.map name := by
  rw [Option.isSome_iff_ne_none, ne_eq, search_eq_none, not_not]

theorem mem_of_search {arr : List ε} {n : ν} {e : ε} (h : search name arr n = some e) :
    e ∈ arr :=
  List.mem_of_find?_eq_some h

theorem search_cons_of_eq {e : ε} {arr : List ε} {n : ν} (h : name e = n) :
    search name (e :: arr) n = some e :=
  List.find?_cons_of_pos (by simpa using h)

theorem search_cons_of_ne {e : ε} {arr : List ε} {n : ν} (h : name e ≠ n) :
    search name (e :: arr) n = search name arr n :=
  List.find?_cons_of_neg (by simpa using h)

/-- Where names are distinct, every element is the one of its name. -/
theorem search_of_mem {arr : List ε} (h : (arr.map name).Nodup) {e : ε} (he : e ∈ arr) :
    search name arr (name e) = some e := by
  induction arr with
  | nil => cases he
  | cons x arr ih =>
    rw [List.map_cons, List.nodup_cons] at h
    rcases List.mem_cons.mp he with rfl | he
    · exact search_cons_of_eq rfl
    · have hne : name x ≠ name e := fun heq => h.1 (heq ▸ List.mem_map_of_mem he)
      rw [search_cons_of_ne hne, ih h.2 he]

/-- A new name is found at the end, the others where they were. -/
theorem search_concat {arr : List ε} {n : ν} (h : search name arr n = none) {e : ε}
    (he : name e = n) (n' : ν) :
    search name (arr ++ [e]) n' = if n' = n then some e else search name arr n' := by
  rw [search] at h ⊢
  rw [List.find?_append]
  split
  · next heq =>
    rw [heq, h, Option.none_or]
    exact search_cons_of_eq he
  · next hne =>
    have hlast : List.find? (fun e => decide (name e = n')) [e] = none :=
      search_cons_of_ne fun heq => hne (heq.symm.trans he)
    rw [hlast, Option.or_none]
    rfl

/-- Where names are distinct, going through the elements with a name is a
search. -/
theorem flatMap_of_name {β : Type*} {arr : List ε} (h : (arr.map name).Nodup) (n : ν)
    (f : ε → List β) :
    (arr.flatMap fun e => if name e = n then f e else [])
      = ((search name arr n).map f).getD [] := by
  induction arr with
  | nil => rfl
  | cons e arr ih =>
    rw [List.map_cons, List.nodup_cons] at h
    rw [List.flatMap_cons, ih h.2]
    by_cases he : name e = n
    · have hnone : search name arr n = none := search_eq_none.mpr (he ▸ h.1)
      rw [if_pos he, search_cons_of_eq he, hnone]
      simp
    · rw [if_neg he, search_cons_of_ne he, List.nil_append]

/-- Where names are distinct, a fold that changes a part of its state at one
name only is a search, as far as that part goes. -/
theorem foldl_of_name {δ β : Type*} {p : δ → β} {f : δ → ε → δ} {n : ν} {g : ε → β → β}
    {arr : List ε} (h : (arr.map name).Nodup)
    (hf : ∀ e ∈ arr, ∀ d, p (f d e) = if name e = n then g e (p d) else p d) (d : δ) :
    p (arr.foldl f d) = ((search name arr n).map fun e => g e (p d)).getD (p d) := by
  induction arr generalizing d with
  | nil => rfl
  | cons e arr ih =>
    rw [List.map_cons, List.nodup_cons] at h
    rw [List.forall_mem_cons] at hf
    rw [List.foldl_cons, ih h.2 hf.2, hf.1]
    by_cases he : name e = n
    · have hnone : search name arr n = none := search_eq_none.mpr (he ▸ h.1)
      rw [if_pos he, search_cons_of_eq he, hnone]
      rfl
    · rw [if_neg he, search_cons_of_ne he]

theorem search_modify {f : ε → ε} (hf : ∀ e, name (f e) = name e) (arr : List ε) (n n' : ν) :
    search name (modify name n f arr) n' =
      if n' = n then (search name arr n).map f else search name arr n' := by
  induction arr with
  | nil => simp [modify, search]
  | cons e arr ih =>
    rw [modify]
    by_cases he : name e = n
    · rw [if_pos he]
      by_cases hn : n' = n
      · rw [if_pos hn, search_cons_of_eq he, hn, search_cons_of_eq (by rw [hf, he])]
        rfl
      · have hne : name e ≠ n' := fun h => hn (h ▸ he)
        rw [if_neg hn, search_cons_of_ne hne, search_cons_of_ne (by rw [hf]; exact hne)]
    · rw [if_neg he]
      by_cases he' : name e = n'
      · have hne : n' ≠ n := fun h => he (he'.trans h)
        rw [if_neg hne, search_cons_of_eq he', search_cons_of_eq he']
      · rw [search_cons_of_ne he', search_cons_of_ne he', search_cons_of_ne he, ih]

/-- The elements in front of the one that is found stay. -/
theorem modify_append {n : ν} {before : List ε} (h : n ∉ before.map name) (f : ε → ε)
    (after : List ε) : modify name n f (before ++ after) = before ++ modify name n f after := by
  induction before with
  | nil => rfl
  | cons e before ih =>
    rw [List.map_cons, List.mem_cons, not_or] at h
    rw [List.cons_append, modify, if_neg (fun heq => h.1 heq.symm), ih h.2, List.cons_append]

theorem map_name_modify {f : ε → ε} (hf : ∀ e, name (f e) = name e) (n : ν) (arr : List ε) :
    (modify name n f arr).map name = arr.map name := by
  induction arr with
  | nil => rfl
  | cons e arr ih =>
    rw [modify]
    split
    · rw [List.map_cons, List.map_cons, hf]
    · rw [List.map_cons, List.map_cons, ih]

theorem mem_modify {f : ε → ε} {n : ν} {arr : List ε} {e : ε}
    (h : e ∈ modify name n f arr) :
    e ∈ arr ∨ ∃ e', search name arr n = some e' ∧ e = f e' := by
  induction arr with
  | nil => cases h
  | cons x arr ih =>
    rw [modify] at h
    by_cases hx : name x = n
    · rw [if_pos hx] at h
      rcases List.mem_cons.mp h with h | h
      · exact .inr ⟨x, search_cons_of_eq hx, h⟩
      · exact .inl (List.mem_cons_of_mem x h)
    · rw [if_neg hx] at h
      rw [search_cons_of_ne hx]
      rcases List.mem_cons.mp h with h | h
      · exact .inl (h ▸ List.mem_cons_self)
      · exact (ih h).imp_left (List.mem_cons_of_mem x)

/-- Names stay distinct when a new one is added. -/
theorem nodup_concat {arr : List ε} (h : (arr.map name).Nodup) {n : ν}
    (hnew : search name arr n = none) {e : ε} (he : name e = n) :
    ((arr ++ [e]).map name).Nodup := by
  rw [search_eq_none, ← he] at hnew
  rw [List.map_append, List.map_singleton]
  exact h.append (List.nodup_singleton _) (List.disjoint_singleton.mpr hnew)

/-- Reading the elements through an injection of names. -/
theorem search_map {ε' ν' : Type*} [DecidableEq ν'] {name' : ε' → ν'} {view : ε → ε'}
    {viewName : ν → ν'} (hview : ∀ e, name' (view e) = viewName (name e))
    (hinj : Function.Injective viewName) (arr : List ε) (n : ν) :
    search name' (arr.map view) (viewName n) = (search name arr n).map view := by
  induction arr with
  | nil => rfl
  | cons e arr ih =>
    rw [List.map_cons]
    by_cases he : name e = n
    · rw [search_cons_of_eq he, search_cons_of_eq (by rw [hview, he])]
      rfl
    · rw [search_cons_of_ne he, search_cons_of_ne, ih]
      rw [hview]
      exact fun h => he (hinj h)

/-- A change of the viewed elements is a view of the changed ones. -/
theorem modify_map {ε' ν' : Type*} [DecidableEq ν'] {name' : ε' → ν'} {view : ε → ε'}
    {viewName : ν → ν'} (hview : ∀ e, name' (view e) = viewName (name e))
    (hinj : Function.Injective viewName) {f : ε → ε} {f' : ε' → ε'}
    (hf : ∀ e, f' (view e) = view (f e)) (n : ν) (arr : List ε) :
    modify name' (viewName n) f' (arr.map view) = (modify name n f arr).map view := by
  induction arr with
  | nil => rfl
  | cons e arr ih =>
    rw [List.map_cons, modify, modify, hview]
    by_cases he : name e = n
    · rw [if_pos he, if_pos (congrArg viewName he), hf, List.map_cons]
    · rw [if_neg he, if_neg (fun h => he (hinj h)), ih, List.map_cons]

/-! ## Changes that add what is missing -/

/-- A change of the element of a name, which is added if there is none. -/
def upsert (name : ε → ν) (new : ε) (f : ε → ε) (arr : List ε) : List ε :=
  if (search name arr (name new)).isNone then arr ++ [f new]
  else modify name (name new) f arr

theorem upsert_new {new : ε} {arr : List ε} (h : name new ∉ arr.map name) (f : ε → ε) :
    upsert name new f arr = arr ++ [f new] := by
  rw [upsert, search_eq_none.mpr h]
  rfl

/-- The last element. -/
theorem upsert_last {new e : ε} {arr : List ε} (h : name new ∉ arr.map name)
    (he : name e = name new) (f : ε → ε) :
    upsert name new f (arr ++ [e]) = arr ++ [f e] := by
  have hfound : (search name (arr ++ [e]) (name new)).isNone = false := by
    rw [search_concat (search_eq_none.mpr h) he, if_pos rfl]
    rfl
  rw [upsert, hfound, if_neg Bool.false_ne_true]
  induction arr with
  | nil => rw [List.nil_append, modify, if_pos he, List.nil_append]
  | cons x arr ih =>
    rw [List.map_cons, List.mem_cons, not_or] at h
    have hrest : (search name (arr ++ [e]) (name new)).isNone = false := by
      rw [search_concat (search_eq_none.mpr h.2) he, if_pos rfl]
      rfl
    rw [List.cons_append, modify, if_neg (Ne.symm h.1), ih h.2 hrest, List.cons_append]

theorem mem_upsert {new e : ε} {f : ε → ε} {arr : List ε} (h : e ∈ upsert name new f arr) :
    e ∈ arr ∨ e = f new ∨ ∃ e' ∈ arr, e = f e' := by
  unfold upsert at h
  split_ifs at h
  · rcases List.mem_append.mp h with h | h
    · exact .inl h
    · exact .inr (.inl (List.mem_singleton.mp h))
  · rcases mem_modify h with h | ⟨e', he', heq⟩
    · exact .inl h
    · exact .inr (.inr ⟨e', mem_of_search he', heq⟩)

theorem nodup_upsert {f : ε → ε} (hf : ∀ e, name (f e) = name e) {arr : List ε}
    (h : (arr.map name).Nodup) (new : ε) : ((upsert name new f arr).map name).Nodup := by
  unfold upsert
  split_ifs with hnone
  · exact nodup_concat h (Option.isNone_iff_eq_none.mp hnone) (hf new)
  · rw [map_name_modify hf]
    exact h

/-- Two elements with one name are the same. -/
theorem eq_of_name {arr : List ε} (h : (arr.map name).Nodup) {e e' : ε} (he : e ∈ arr)
    (he' : e' ∈ arr) (heq : name e = name e') : e = e' := by
  have hsearch := search_of_mem h he
  rw [heq, search_of_mem h he'] at hsearch
  exact (Option.some.inj hsearch).symm

end NamedArray
