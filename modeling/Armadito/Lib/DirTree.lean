import Mathlib.Data.List.Basic
import Mathlib.Logic.Function.Basic
import Mathlib.Logic.Relation

/-!
# Lib.DirTree

Directories that hold named entries for directories. A directory is a
number, so that it stays the same directory when its entry moves; a path is
walked one name at a time.

A walk depends on the entries it uses only: what happens to directories
that are not on its trail does not change where it leads.
-/

/-- The entries of each directory; numbers from `next` on are not in use. -/
structure DirTree (ν : Type*) where
  entries : Nat → List (ν × Nat)
  next : Nat

namespace DirTree

variable {ν : Type*} [DecidableEq ν]

/-! ## Walks -/

/-- The directory of a name in another. -/
def lookup (t : DirTree ν) (dir : Nat) (name : ν) : Option Nat :=
  (t.entries dir).lookup name

/-- The names in a directory. -/
def names (t : DirTree ν) (dir : Nat) : List ν :=
  (t.entries dir).map Prod.fst

/-- The directory at the end of a path. -/
def walk (t : DirTree ν) : Nat → List ν → Option Nat
  | dir, [] => some dir
  | dir, name :: ns => (t.lookup dir name).bind fun sub => walk t sub ns

/-- The directories that a walk comes to. -/
def trail (t : DirTree ν) : Nat → List ν → List Nat
  | dir, [] => [dir]
  | dir, name :: ns =>
    dir :: match t.lookup dir name with
      | none => []
      | some sub => trail t sub ns

theorem mem_of_lookup {l : List (ν × Nat)} {sub : Nat} {name : ν}
    (h : l.lookup name = some sub) : (name, sub) ∈ l := by
  obtain ⟨l₁, l₂, rfl, -⟩ := List.lookup_eq_some_iff.mp h
  exact List.mem_append_right l₁ List.mem_cons_self

theorem mem_names {t : DirTree ν} {dir sub : Nat} {name : ν}
    (h : t.lookup dir name = some sub) : name ∈ t.names dir :=
  List.mem_map_of_mem (f := Prod.fst) (mem_of_lookup h)

theorem walk_cons (t : DirTree ν) (dir : Nat) (name : ν) (ns : List ν) :
    t.walk dir (name :: ns) = (t.lookup dir name).bind fun sub => t.walk sub ns := rfl

theorem walk_append (t : DirTree ν) (ns ns' : List ν) :
    ∀ dir, t.walk dir (ns ++ ns') = (t.walk dir ns).bind fun sub => t.walk sub ns' := by
  induction ns with
  | nil => intro dir; rfl
  | cons name ns ih =>
    intro dir
    rw [List.cons_append, walk_cons, walk_cons]
    cases t.lookup dir name with
    | none => rfl
    | some sub => exact ih sub

theorem walk_concat (t : DirTree ν) (dir : Nat) (ns : List ν) (name : ν) :
    t.walk dir (ns ++ [name]) = (t.walk dir ns).bind fun sub => t.lookup sub name := by
  rw [walk_append]
  congr 1
  funext sub
  rw [walk_cons]
  cases t.lookup sub name <;> rfl

theorem start_mem_trail (t : DirTree ν) (dir : Nat) (ns : List ν) : dir ∈ t.trail dir ns := by
  cases ns <;> simp [trail]

theorem end_mem_trail {t : DirTree ν} {d : Nat} (ns : List ν) :
    ∀ dir, t.walk dir ns = some d → d ∈ t.trail dir ns := by
  induction ns with
  | nil =>
    intro dir h
    cases h
    exact List.mem_singleton_self _
  | cons name ns ih =>
    intro dir h
    rw [walk_cons] at h
    cases hl : t.lookup dir name with
    | none =>
      rw [hl] at h
      cases h
    | some sub =>
      rw [hl] at h
      rw [trail, hl]
      exact List.mem_cons_of_mem dir (ih sub h)

/-- A walk leads to the same directory when the entries on its trail are the
same. -/
theorem walk_congr {t t' : DirTree ν} {d : Nat} (ns : List ν) :
    ∀ dir, (∀ a ∈ t.trail dir ns, ∀ b ∈ t.trail dir ns, ∀ name,
      t.lookup a name = some b → t'.lookup a name = some b) →
    t.walk dir ns = some d → t'.walk dir ns = some d := by
  induction ns with
  | nil => intro dir _ h; exact h
  | cons name ns ih =>
    intro dir hsame h
    rw [walk_cons] at h ⊢
    cases hl : t.lookup dir name with
    | none =>
      rw [hl] at h
      cases h
    | some sub =>
      rw [hl] at h
      rw [trail, hl] at hsame
      rw [hsame dir List.mem_cons_self sub
        (List.mem_cons_of_mem dir (start_mem_trail t sub ns)) name hl]
      exact ih sub (fun a ha b hb => hsame a (List.mem_cons_of_mem dir ha) b
        (List.mem_cons_of_mem dir hb)) h

/-! ## Changes -/

/-- A new entry. -/
def link (t : DirTree ν) (dir : Nat) (name : ν) (sub : Nat) : DirTree ν :=
  { t with entries := Function.update t.entries dir ((name, sub) :: t.entries dir) }

/-- The entry is gone. -/
def unlink (t : DirTree ν) (dir : Nat) (name : ν) : DirTree ν :=
  { t with
    entries := Function.update t.entries dir ((t.entries dir).filter fun e => e.1 ≠ name) }

/-- A new directory with the given entries, not yet an entry itself. -/
def newDir (t : DirTree ν) (own : List (ν × Nat)) : DirTree ν :=
  { entries := Function.update t.entries t.next own
    next := t.next + 1 }

omit [DecidableEq ν] in
@[simp] theorem link_next (t : DirTree ν) (dir : Nat) (name : ν) (sub : Nat) :
    (t.link dir name sub).next = t.next := rfl

@[simp] theorem unlink_next (t : DirTree ν) (dir : Nat) (name : ν) :
    (t.unlink dir name).next = t.next := rfl

omit [DecidableEq ν] in
@[simp] theorem newDir_next (t : DirTree ν) (own : List (ν × Nat)) :
    (t.newDir own).next = t.next + 1 := rfl

theorem lookup_link (t : DirTree ν) (dir : Nat) (name : ν) (sub a : Nat) (n : ν) :
    (t.link dir name sub).lookup a n
      = if a = dir ∧ n = name then some sub else t.lookup a n := by
  by_cases ha : a = dir
  · subst ha
    by_cases hn : n = name
    · simp [lookup, link, hn]
    · have hbeq : (n == name) = false := beq_eq_false_iff_ne.mpr hn
      simp [lookup, link, List.lookup_cons, hn, hbeq]
  · simp [lookup, link, ha]

theorem lookup_filter (name n : ν) (l : List (ν × Nat)) :
    (l.filter fun e => e.1 ≠ name).lookup n = if n = name then none else l.lookup n := by
  induction l with
  | nil => simp
  | cons e l ih =>
    obtain ⟨m, d⟩ := e
    by_cases hm : m = name
    · rw [List.filter_cons_of_neg (by simp [hm]), ih]
      by_cases hn : n = name
      · simp [hn]
      · have hbeq : (n == m) = false := beq_eq_false_iff_ne.mpr fun h => hn (h.trans hm)
        rw [if_neg hn, if_neg hn, List.lookup_cons, hbeq]
    · rw [List.filter_cons_of_pos (by simp [hm]), List.lookup_cons, ih, List.lookup_cons]
      by_cases hn : n = name
      · have hbeq : (n == m) = false := beq_eq_false_iff_ne.mpr fun h => hm (h ▸ hn)
        rw [if_pos hn, if_pos hn, hbeq]
      · rw [if_neg hn, if_neg hn]

theorem lookup_unlink (t : DirTree ν) (dir : Nat) (name : ν) (a : Nat) (n : ν) :
    (t.unlink dir name).lookup a n
      = if a = dir ∧ n = name then none else t.lookup a n := by
  by_cases ha : a = dir
  · subst ha
    simp only [lookup, unlink, Function.update_self, lookup_filter, true_and]
  · simp [lookup, unlink, ha]

theorem lookup_newDir (t : DirTree ν) (own : List (ν × Nat)) (a : Nat) (n : ν) :
    (t.newDir own).lookup a n = if a = t.next then own.lookup n else t.lookup a n := by
  by_cases ha : a = t.next
  · subst ha
    simp [lookup, newDir]
  · simp [lookup, newDir, ha]

/-! ## Well-formed trees -/

/-- The directories in use hold directories in use. -/
def WF (t : DirTree ν) : Prop :=
  ∀ dir name sub, t.lookup dir name = some sub → dir < t.next ∧ sub < t.next

theorem WF.walk_lt {t : DirTree ν} (h : t.WF) {d : Nat} (ns : List ν) :
    ∀ dir, dir < t.next → t.walk dir ns = some d → d < t.next := by
  induction ns with
  | nil =>
    intro dir hdir hwalk
    cases hwalk
    exact hdir
  | cons name ns ih =>
    intro dir _ hwalk
    rw [walk_cons] at hwalk
    obtain ⟨sub, hsub, hwalk⟩ := Option.bind_eq_some_iff.mp hwalk
    exact ih sub (h dir name sub hsub).2 hwalk

/-- New entries do not change where a walk leads. -/
theorem walk_mono {t t' : DirTree ν}
    (hsame : ∀ a name b, t.lookup a name = some b → t'.lookup a name = some b)
    {dir d : Nat} {ns : List ν} (hwalk : t.walk dir ns = some d) : t'.walk dir ns = some d :=
  walk_congr ns dir (fun a _ b _ name => hsame a name b) hwalk

/-! ## Subtrees -/

-- the names that lead down; `.` and `..` do not
variable (down : ν → Prop)

/-- A directory that is down from another. -/
def Sub (t : DirTree ν) (dir sub : Nat) : Prop :=
  ∃ name, down name ∧ t.lookup dir name = some sub

/-- The directory itself, and all the directories in it. -/
def Below (t : DirTree ν) : Nat → Nat → Prop :=
  Relation.ReflTransGen (t.Sub down)

variable {down}

theorem Below.cases_head {t : DirTree ν} {dir d : Nat} (h : t.Below down dir d) :
    d = dir ∨ ∃ name sub, down name ∧ t.lookup dir name = some sub ∧ t.Below down sub d := by
  rcases Relation.ReflTransGen.cases_head h with rfl | ⟨sub, ⟨name, hname, hsub⟩, hrest⟩
  · exact .inl rfl
  · exact .inr ⟨name, sub, hname, hsub, hrest⟩

theorem WF.below_lt {t : DirTree ν} (h : t.WF) {dir d : Nat} (hdir : dir < t.next)
    (hbelow : t.Below down dir d) : d < t.next := by
  induction hbelow with
  | refl => exact hdir
  | tail _ hsub _ =>
    obtain ⟨name, -, hlookup⟩ := hsub
    exact (h _ name _ hlookup).2

theorem Below.mono {t t' : DirTree ν}
    (hsame : ∀ a name b, t.lookup a name = some b → t'.lookup a name = some b)
    {dir d : Nat} (hbelow : t.Below down dir d) : t'.Below down dir d := by
  induction hbelow with
  | refl => exact .refl
  | tail _ hsub ih =>
    obtain ⟨name, hname, hlookup⟩ := hsub
    exact ih.tail ⟨name, hname, hsame _ name _ hlookup⟩

end DirTree
