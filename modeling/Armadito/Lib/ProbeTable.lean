import Mathlib.Data.List.GetD
import Mathlib.Data.List.Nodup
import Mathlib.Data.List.Perm.Basic
import Armadito.Lib.Probe

/-!
# Lib.ProbeTable

Tables of slots that are searched by linear probing. A layout says what a
slot holds: its key, if it has one, and whether a search goes on behind it.
A table is well laid out when every key is reached from its home; when the
keys are distinct, too, the table is a map from keys to slots, and what a
probe finds is what the map has.
-/

namespace Probe

/-- How the slots of a table are read. -/
structure Layout (σ κ : Type*) where
  blank : σ
  key : σ → Option κ
  busy : σ → Prop
  home : κ → Nat

namespace Layout

variable {σ κ : Type*} (L : Layout σ κ) {table rest : List σ} {w : Nat} {k : κ} {e : σ}

/-- The slot of an index. -/
def slot (table : List σ) (w : Nat) : σ := table.getD w L.blank

/-- The slot is reached from the home of the key. -/
def OnWay (table : List σ) (k : κ) (w : Nat) : Prop :=
  Way table.length (L.home k % table.length) (fun u => L.busy (L.slot table u)) w

/-- Every key is on its way. -/
def Reached (table : List σ) : Prop :=
  ∀ w < table.length, ∀ k, L.key (L.slot table w) = some k → L.OnWay table k w

/-- The keys of the slots. -/
def keys (table : List σ) : List κ := table.filterMap L.key

/-- The map that a table stands for. -/
def find [DecidableEq κ] (table : List σ) (k : κ) : Option σ :=
  table.find? fun e => L.key e = some k

/-! ## Slots -/

theorem slot_mem (hw : w < table.length) : L.slot table w ∈ table := by
  rw [slot, List.getD_eq_getElem _ _ hw]
  exact List.getElem_mem hw

theorem exists_slot (he : e ∈ table) : ∃ w < table.length, L.slot table w = e := by
  obtain ⟨w, hw, heq⟩ := List.getElem_of_mem he
  exact ⟨w, hw, by rw [slot, List.getD_eq_getElem _ _ hw, heq]⟩

theorem slot_set (hw : w < table.length) (e : σ) (u : Nat) :
    L.slot (table.set w e) u = if u = w then e else L.slot table u := by
  rw [slot, slot, List.getD_eq_getElem?_getD, List.getD_eq_getElem?_getD]
  by_cases hu : u = w
  · subst hu
    simp [List.getElem?_set_self hw]
  · rw [if_neg hu, List.getElem?_set_ne (fun h => hu h.symm)]

/-- Setting a slot exchanges one element. -/
theorem exists_perm_set (hw : w < table.length) (e : σ) :
    ∃ rest, table.Perm (L.slot table w :: rest) ∧ (table.set w e).Perm (e :: rest) := by
  rw [slot, List.getD_eq_getElem _ _ hw]
  exact Probe.exists_perm_set hw e

/-! ## Ways -/

variable {L}

theorem OnWay.set (h : L.OnWay table k w) {u : Nat} (hu : u < table.length)
    (he : L.busy e) : L.OnWay (table.set u e) k w := by
  rw [OnWay, List.length_set]
  refine Way.mono h fun x hx => ?_
  rw [L.slot_set hu]
  split_ifs
  · exact he
  · exact hx

/-- A slot that gets busy cuts no way. -/
theorem Reached.set (h : L.Reached table) (hw : w < table.length) (he : L.busy e)
    (hway : ∀ k, L.key e = some k → L.OnWay table k w) : L.Reached (table.set w e) := by
  intro u hu k hkey
  rw [List.length_set] at hu
  rw [L.slot_set hw] at hkey
  by_cases huw : u = w
  · rw [if_pos huw] at hkey
    rw [huw]
    exact (hway k hkey).set hw he
  · rw [if_neg huw] at hkey
    exact (h u hu k hkey).set hw he

theorem reached_replicate (hblank : L.key L.blank = none) (n : Nat) :
    L.Reached (List.replicate n L.blank) := by
  intro w hw k hkey
  have hslot : L.slot (List.replicate n L.blank) w = L.blank :=
    List.eq_of_mem_replicate (L.slot_mem hw)
  rw [hslot, hblank] at hkey
  cases hkey

/-- A search for a key of the table stops at its slot, or at another slot on
the way there. -/
theorem Reached.first (h : L.Reached table) (he : e ∈ table) (hkey : L.key e = some k)
    (stop : σ → Bool) (hstop : stop e = true) (hbusy : L.busy e) :
    ∃ w, Probe.first table.length (L.home k % table.length)
        (fun w => stop (L.slot table w)) = some w ∧
      w < table.length ∧ stop (L.slot table w) = true ∧ L.busy (L.slot table w) := by
  obtain ⟨u, hu, hslot⟩ := L.exists_slot he
  rw [← hslot] at hkey hstop hbusy
  obtain ⟨w, hfirst, hw⟩ := Way.first (h u hu k hkey) (fun w => stop (L.slot table w)) hstop
  obtain ⟨hlt, hstops, -⟩ := first_eq_some hfirst
  refine ⟨w, hfirst, hlt, hstops, ?_⟩
  rcases hw with rfl | hw
  · exact hbusy
  · exact hw

/-! ## Keys -/

theorem mem_keys : k ∈ L.keys table ↔ ∃ e ∈ table, L.key e = some k := List.mem_filterMap

theorem keys_perm {table' : List σ} (h : table.Perm table') :
    (L.keys table).Perm (L.keys table') := h.filterMap _

theorem keys_cons : L.keys (e :: rest) = (L.key e).toList ++ L.keys rest := by
  rw [keys, List.filterMap_cons]
  cases L.key e <;> rfl

/-- Distinct keys: a key has one slot. -/
theorem eq_of_key (h : (L.keys table).Nodup) {f : σ} (he : e ∈ table) (hf : f ∈ table)
    (hek : L.key e = some k) (hfk : L.key f = some k) : e = f := by
  induction table with
  | nil => cases he
  | cons a table ih =>
    rw [keys_cons] at h
    have hrest := (List.nodup_append.mp h).2.1
    have hclash : ∀ b ∈ table, L.key a = some k → L.key b ≠ some k := by
      intro b hb hak hbk
      exact (List.nodup_append.mp h).2.2 k (by rw [hak]; exact List.mem_singleton.mpr rfl) k
        (mem_keys.mpr ⟨b, hb, hbk⟩) rfl
    rcases List.mem_cons.mp he with rfl | he'
    · rcases List.mem_cons.mp hf with rfl | hf'
      · rfl
      · exact absurd hfk (hclash f hf' hek)
    · rcases List.mem_cons.mp hf with rfl | hf'
      · exact absurd hek (hclash e he' hfk)
      · exact ih hrest he' hf'

/-- A slot is exchanged for one with a key that no other slot has. -/
theorem nodup_set (h : (L.keys table).Nodup) (hw : w < table.length)
    (hother : ∀ k, L.key e = some k → ∀ f ∈ table, L.key f = some k → f = L.slot table w) :
    (L.keys (table.set w e)).Nodup := by
  obtain ⟨rest, hperm, hperm'⟩ := L.exists_perm_set hw e
  have hold := (keys_perm hperm).nodup_iff.mp h
  rw [keys_cons, List.nodup_append] at hold
  rw [(keys_perm hperm').nodup_iff, keys_cons, List.nodup_append]
  refine ⟨by cases L.key e <;> simp, hold.2.1, ?_⟩
  intro k hk k' hk' heq
  subst heq
  rw [Option.mem_toList] at hk
  obtain ⟨f, hf, hfk⟩ := mem_keys.mp hk'
  obtain rfl := hother k hk f (hperm.mem_iff.mpr (List.mem_cons_of_mem _ hf)) hfk
  exact hold.2.2 k (Option.mem_toList.mpr hfk) k hk' rfl

/-! ## The map -/

variable [DecidableEq κ]

theorem find_eq_some (h : (L.keys table).Nodup) :
    L.find table k = some e ↔ e ∈ table ∧ L.key e = some k := by
  constructor
  · intro hfind
    exact ⟨List.mem_of_find?_eq_some hfind, by simpa using List.find?_some hfind⟩
  · rintro ⟨he, hkey⟩
    cases hfind : L.find table k with
    | none =>
      have := List.find?_eq_none.mp hfind e he
      simp [hkey] at this
    | some f =>
      have hf : L.key f = some k := by simpa using List.find?_some hfind
      rw [eq_of_key h he (List.mem_of_find?_eq_some hfind) hkey hf]

theorem find_eq_none : L.find table k = none ↔ ∀ e ∈ table, L.key e ≠ some k := by
  simp [find, List.find?_eq_none]

/-- The map after a slot has been exchanged. -/
theorem find_set (h : (L.keys table).Nodup) (hw : w < table.length)
    (h' : (L.keys (table.set w e)).Nodup) (k : κ) :
    L.find (table.set w e) k =
      if L.key e = some k then some e
      else if L.key (L.slot table w) = some k then none
      else L.find table k := by
  obtain ⟨rest, hperm, hperm'⟩ := L.exists_perm_set hw e
  by_cases hnew : L.key e = some k
  · rw [if_pos hnew, find_eq_some h']
    exact ⟨hperm'.mem_iff.mpr List.mem_cons_self, hnew⟩
  · rw [if_neg hnew]
    by_cases hold : L.key (L.slot table w) = some k
    · rw [if_pos hold, find_eq_none]
      intro f hf hfk
      rcases List.mem_cons.mp (hperm'.mem_iff.mp hf) with rfl | hf
      · exact hnew hfk
      · have hkeys := (keys_perm hperm).nodup_iff.mp h
        rw [keys_cons, List.nodup_append] at hkeys
        exact hkeys.2.2 k (Option.mem_toList.mpr hold) k (mem_keys.mpr ⟨f, hf, hfk⟩) rfl
    · rw [if_neg hold]
      apply Option.ext
      intro f
      rw [find_eq_some h', find_eq_some h, hperm'.mem_iff, hperm.mem_iff, List.mem_cons,
        List.mem_cons]
      refine and_congr_left fun hfk => ?_
      constructor
      · rintro (rfl | hf)
        · exact absurd hfk hnew
        · exact .inr hf
      · rintro (rfl | hf)
        · exact absurd hfk hold
        · exact .inr hf

end Layout

end Probe
