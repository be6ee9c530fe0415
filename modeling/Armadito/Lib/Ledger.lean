import Mathlib.Data.List.Nodup
import Mathlib.Data.List.Pairwise
import Mathlib.Logic.Function.Basic

/-!
# Lib.Ledger

Files by their paths, and a ledger of what is kept where: each entry is a
path with the file that is to be found there. What is written at other paths
leaves the ledger valid, and a file that is moved to a new path can be
entered. Where a path may be entered again, the last file entered is found.
-/

namespace Ledger

variable {P F : Type*}

/-- Each entry is where the ledger says, and no path is entered twice. -/
structure Kept (files : P → Option F) (ledger : List (P × F)) : Prop where
  found : ∀ e ∈ ledger, files e.1 = some e.2
  nodup : (ledger.map Prod.fst).Nodup

variable {files files' : P → Option F} {ledger : List (P × F)}

theorem kept_nil (files : P → Option F) : Kept files [] :=
  ⟨fun _ he => absurd he List.not_mem_nil, List.nodup_nil⟩

/-- A path that is free is not entered. -/
theorem Kept.notMem (h : Kept files ledger) {p : P} (hfree : files p = none) :
    p ∉ ledger.map Prod.fst := by
  intro hmem
  obtain ⟨e, he, rfl⟩ := List.mem_map.mp hmem
  rw [h.found e he] at hfree
  cases hfree

/-- Nothing changes at the paths entered. -/
theorem Kept.congr (h : Kept files ledger)
    (hsame : ∀ p ∈ ledger.map Prod.fst, files' p = files p) : Kept files' ledger :=
  ⟨fun e he => by rw [hsame e.1 (List.mem_map_of_mem he), h.found e he], h.nodup⟩

/-- A new entry. -/
theorem Kept.enter (h : Kept files ledger) {p : P} {file : F} (hp : p ∉ ledger.map Prod.fst)
    (hfile : files p = some file) : Kept files (ledger ++ [(p, file)]) where
  found := by
    intro e he
    rcases List.mem_append.mp he with he | he
    · exact h.found e he
    · rw [List.mem_singleton.mp he]
      exact hfile
  nodup := by
    rw [List.map_append]
    exact h.nodup.append (List.nodup_singleton _) (List.disjoint_singleton.mpr hp)

theorem notMem_enter {p q : P} {file : F} (hq : q ∉ ledger.map Prod.fst) (hne : q ≠ p) :
    q ∉ (ledger ++ [(p, file)]).map Prod.fst := by
  rw [List.map_append, List.mem_append, not_or]
  exact ⟨hq, fun hmem => hne (List.mem_singleton.mp hmem)⟩

/-! ## Writes -/

section

variable [DecidableEq P]

/-- What a write, or with `none` a removal, leaves. -/
def put (files : P → Option F) (p : P) (file : Option F) : P → Option F :=
  Function.update files p file

/-- A file that is moved over whatever is at its new path. -/
def move (files : P → Option F) (source target : P) (file : F) : P → Option F :=
  put (put files source none) target (some file)

@[simp] theorem put_self (files : P → Option F) (p : P) (file : Option F) :
    put files p file p = file :=
  Function.update_self ..

theorem put_of_ne {p q : P} (h : q ≠ p) (files : P → Option F) (file : Option F) :
    put files p file q = files q :=
  Function.update_of_ne h ..

@[simp] theorem move_target (files : P → Option F) (source target : P) (file : F) :
    move files source target file target = some file :=
  put_self ..

theorem move_of_ne {source target q : P} (hsource : q ≠ source) (htarget : q ≠ target)
    (files : P → Option F) (file : F) : move files source target file q = files q := by
  rw [move, put_of_ne htarget, put_of_ne hsource]

theorem Kept.put (h : Kept files ledger) {p : P} (hp : p ∉ ledger.map Prod.fst)
    (file : Option F) : Kept (put files p file) ledger :=
  h.congr fun _ hq => put_of_ne (fun heq => hp (by rw [← heq]; exact hq)) files file

theorem Kept.move (h : Kept files ledger) {source target : P}
    (hsource : source ∉ ledger.map Prod.fst) (htarget : target ∉ ledger.map Prod.fst) (file : F) :
    Kept (move files source target file) ledger :=
  (h.put hsource none).put htarget (some file)

/-! ## Paths entered again -/

/-- The last file entered for a path. -/
def last (ledger : List (P × F)) (p : P) : Option F :=
  (ledger.filter (·.1 = p)).getLast?.map Prod.snd

/-- At each path entered is the last file entered for it. -/
def Latest (files : P → Option F) (ledger : List (P × F)) : Prop :=
  ∀ p ∈ ledger.map Prod.fst, files p = last ledger p

theorem latest_nil (files : P → Option F) : Latest files [] :=
  fun _ hp => absurd hp List.not_mem_nil

theorem last_append_self (ledger : List (P × F)) (p : P) (file : F) :
    last (ledger ++ [(p, file)]) p = some file := by
  simp [last, List.filter_append]

theorem last_append_of_ne {p q : P} (h : q ≠ p) (ledger : List (P × F)) (file : F) :
    last (ledger ++ [(p, file)]) q = last ledger q := by
  have hne : p ≠ q := Ne.symm h
  simp [last, List.filter_append, hne]

theorem mem_of_last {p : P} {file : F} (h : last ledger p = some file) : (p, file) ∈ ledger := by
  obtain ⟨⟨q, f⟩, hlast, rfl⟩ := Option.map_eq_some_iff.mp h
  obtain ⟨hmem, hq⟩ := List.mem_filter.mp (List.mem_of_getLast? hlast)
  rw [← of_decide_eq_true hq]
  exact hmem

theorem last_of_mem {e : P × F} (he : e ∈ ledger) : ∃ file, last ledger e.1 = some file := by
  have hmem : e ∈ ledger.filter (·.1 = e.1) := List.mem_filter.mpr ⟨he, decide_eq_true rfl⟩
  refine ⟨((ledger.filter (·.1 = e.1)).getLast (List.ne_nil_of_mem hmem)).2, ?_⟩
  rw [last, List.getLast?_eq_some_getLast (List.ne_nil_of_mem hmem)]
  rfl

theorem Latest.congr (h : Latest files ledger)
    (hsame : ∀ p ∈ ledger.map Prod.fst, files' p = files p) : Latest files' ledger :=
  fun p hp => by rw [hsame p hp, h p hp]

theorem Latest.put (h : Latest files ledger) {p : P} (hp : p ∉ ledger.map Prod.fst)
    (file : Option F) : Latest (put files p file) ledger :=
  h.congr fun _ hq => put_of_ne (fun heq => hp (by rw [← heq]; exact hq)) files file

/-- A file that is moved over whatever is there, and entered. -/
theorem Latest.move (h : Latest files ledger) {source : P}
    (hsource : source ∉ ledger.map Prod.fst) (target : P) (file : F) :
    Latest (move files source target file) (ledger ++ [(target, file)]) := by
  intro p hp
  by_cases htarget : p = target
  · rw [htarget, move_target, last_append_self]
  · rw [last_append_of_ne htarget]
    rw [List.map_append, List.mem_append] at hp
    have hmem := hp.resolve_right fun hp => htarget (List.mem_singleton.mp hp)
    rw [move_of_ne (fun heq => hsource (by rw [← heq]; exact hmem)) htarget, h p hmem]

/-- All files entered are found, unless a path was entered for two different
files. -/
theorem Latest.found_iff (h : Latest files ledger) :
    (∀ e ∈ ledger, files e.1 = some e.2) ↔
      ledger.Pairwise fun e e' => e.1 = e'.1 → e.2 = e'.2 := by
  constructor
  · intro hfound
    refine List.pairwise_of_forall_mem_list fun e he e' he' hsame => ?_
    have heq := hfound e he
    rw [hsame, hfound e' he'] at heq
    exact (Option.some.inj heq).symm
  · intro hpair e he
    obtain ⟨file, hlast⟩ := last_of_mem he
    rw [h _ (List.mem_map_of_mem he), hlast]
    have : Std.Symm fun e e' : P × F => e.1 = e'.1 → e.2 = e'.2 :=
      ⟨fun _ _ hee heq => (hee heq.symm).symm⟩
    have hsame : file = e.2 :=
      List.Pairwise.forall_of_forall (fun _ _ _ => rfl) hpair (mem_of_last hlast) he rfl
    rw [hsame]

end

end Ledger
