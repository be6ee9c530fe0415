import Armadito.OnAccess.Mounts
import Mathlib.Data.List.Nodup

/-!
# OnAccess.MountRuns

What becomes of removable media over a run: exactly when every file system
that was mounted since the start is marked, or will be by a signal that is
under way, while the mount of `/` is not; and what is enough for the latter.
-/

namespace Armadito.OnAccess.Mounts

open Monitor (components)

/-! ## What is announced -/

/-- The mount points in the signals that were not dispatched yet. -/
def State.announced (s : State) : List CString := s.signals.filterMap announcedPath

/-- The mount point that a list of UDisks leads to. -/
def firstPoint (announcement : Option Announcement) : Option CString :=
  announcement.bind fun a => a.mountPoints.head?

theorem announcedPath_parameters (a : Announcement) :
    announcedPath (some a.parameters) = a.mountPoints.head? := by
  have hlookup : (a.changed ++
      [(mountPointsKey, PropertyValue.bytestringArray a.mountPoints)]).lookup mountPointsKey =
      some (.bytestringArray a.mountPoints) := by
    have hnone : a.changed.lookup mountPointsKey = none := by
      rw [List.lookup_eq_none_iff]
      intro p hp
      rw [bne_iff_ne]
      rintro heq
      exact a.fresh (List.mem_map.mpr ⟨p, hp, heq.symm⟩)
    rw [List.lookup_append, hnone, Option.none_or, List.lookup_cons_self]
  simp only [announcedPath, Announcement.parameters, Option.map_some, getMountEvent, ne_eq,
    not_true_eq_false, if_false, hlookup]
  cases a.mountPoints with
  | nil => rfl
  | cons p ps => rfl

theorem announced_append (s : State) (announcement : Option Announcement) :
    (s.signals ++ (announcement.map fun a => some a.parameters).toList).filterMap announcedPath =
      s.announced ++ (firstPoint announcement).toList := by
  rw [List.filterMap_append]
  cases announcement with
  | none => rfl
  | some a =>
    simp only [Option.map_some, Option.toList_some, List.filterMap_cons, List.filterMap_nil,
      announcedPath_parameters, firstPoint, Option.bind_some]
    cases a.mountPoints.head? <;> rfl

theorem announcedPath_other {parameters : Option (List Variant)} (h : isOther parameters = true) :
    announcedPath parameters = none := by
  cases parameters with
  | none => rfl
  | some ps =>
    simp only [isOther, Option.all_some, decide_eq_true_eq] at h
    rw [announcedPath, Option.map_some, h]

/-! ## What a step does -/

/-- The marks after a call on a path, if there is one. -/
def marksAfter (s : State) (target : Option CString) (ok : Bool) : Nat → Bool :=
  match target with
  | none => s.marks
  | some path =>
    if ok then Function.update s.marks (mountId (s.mountOf path)) true else s.marks

/-- A step of the monitor: nothing but the marks and what is left to do. -/
structure Marking (sys : System) (s : State) (label : Label) (ok : Bool) (s' : State) :
    Prop where
  table : s'.table = s.table
  nextId : s'.nextId = s.nextId
  marks : s'.marks = marksAfter s (s.nextTarget sys label) ok
  announced : ∀ q ∈ s.announced, q ∈ s'.announced ∨
    (sys.enableRemovableMedia = true → s.nextTarget sys label = some q)
  entries : s'.entries ⊆ s.entries
  fewer : s'.announced ⊆ s.announced

variable {sys : System} {s s' : State}

theorem markEntry_marking {ok : Bool} (h : step sys s (.markEntry ok) = some s') :
    Marking sys s (.markEntry ok) ok s' := by
  simp only [step] at h
  split at h
  · cases h
  · next path entries hentries =>
    cases h
    have htarget : s.nextTarget sys (.markEntry ok) = some path := by
      rw [State.nextTarget, hentries, List.head?_cons]
    refine ⟨?_, ?_, ?_, fun q hq => .inl ?_, ?_, ?_⟩
    · cases ok <;> rfl
    · cases ok <;> rfl
    · rw [htarget]
      cases ok <;> rfl
    · cases ok <;> exact hq
    · rw [hentries]
      exact List.subset_cons_self path entries
    · cases ok <;> exact List.Subset.refl _

/-- Only a signal about a mount changes the state. -/
theorem mountCb_cases {parameters : Option (List Variant)} {ok : Bool}
    (h : mountCb sys s parameters ok = some s') :
    (announcedPath parameters = none ∧ s' = s) ∨
      ∃ path, announcedPath parameters = some path ∧
        s' = mountIdleCb sys s .mount (some path) ok := by
  cases parameters with
  | none =>
    cases h
    exact .inl ⟨rfl, rfl⟩
  | some ps =>
    simp only [mountCb] at h
    rw [announcedPath, Option.map_some]
    split at h
    · next hevent =>
      cases h
      rw [hevent]
      exact .inl ⟨rfl, rfl⟩
    · cases h
    · next evType path hevent =>
      cases h
      rw [hevent]
      cases evType with
      | umount => exact .inl ⟨rfl, rfl⟩
      | mount =>
        cases path with
        | none => exact .inl ⟨rfl, rfl⟩
        | some path => exact .inr ⟨path, rfl, rfl⟩

theorem dispatch_marking {ok : Bool} (h : step sys s (.dispatch ok) = some s') :
    Marking sys s (.dispatch ok) ok s' := by
  simp only [step] at h
  split at h
  · next parameters signals hentries hsignals =>
    have htarget : s.nextTarget sys (.dispatch ok) =
        if sys.enableRemovableMedia then announcedPath parameters else none := by
      rw [State.nextTarget, hsignals]
      rfl
    have hannounced : s.announced =
        (announcedPath parameters).toList ++ signals.filterMap announcedPath := by
      rw [State.announced, hsignals, List.filterMap_cons]
      cases announcedPath parameters <;> rfl
    rcases mountCb_cases h with ⟨hnone, rfl⟩ | ⟨path, hpath, rfl⟩
    · rw [hnone] at htarget hannounced
      rw [ite_self] at htarget
      refine ⟨rfl, rfl, by rw [htarget]; rfl, fun q hq => .inl ?_,
        List.Subset.refl _, ?_⟩
      · rw [hannounced] at hq
        exact hq
      · rw [hannounced]
        exact List.Subset.refl _
    · rw [hpath] at htarget hannounced
      have hsame : ∀ s : State, (mountIdleCb sys s .mount (some path) ok).table = s.table ∧
          (mountIdleCb sys s .mount (some path) ok).nextId = s.nextId ∧
          (mountIdleCb sys s .mount (some path) ok).signals = s.signals ∧
          (mountIdleCb sys s .mount (some path) ok).entries = s.entries := by
        intro s
        simp only [mountIdleCb, markMountPoint, scanMedia]
        cases sys.autoscanRemovableMedia <;> cases sys.enableRemovableMedia <;> cases ok <;>
          exact ⟨rfl, rfl, rfl, rfl⟩
      obtain ⟨htable, hnextId, hsignals', hentries'⟩ := hsame { s with signals }
      refine ⟨htable, hnextId, ?_, ?_, ?_, ?_⟩
      · rw [htarget]
        simp only [mountIdleCb, markMountPoint, scanMedia]
        cases sys.autoscanRemovableMedia <;> cases sys.enableRemovableMedia <;> cases ok <;> rfl
      · intro q hq
        rw [hannounced, Option.toList_some, List.singleton_append, List.mem_cons] at hq
        rcases hq with rfl | hq
        · refine .inr fun henable => ?_
          rw [htarget, if_pos henable]
        · refine .inl ?_
          rw [State.announced, hsignals']
          exact hq
      · rw [hentries']
        exact List.Subset.refl _
      · rw [State.announced, hsignals', hannounced]
        exact List.subset_append_right _ _
  · cases h

theorem markEntry_announced {ok : Bool} (h : step sys s (.markEntry ok) = some s') :
    s'.announced = s.announced := by
  simp only [step] at h
  split at h
  · cases h
  · cases h
    cases ok <;> rfl

theorem dispatch_announced {ok : Bool} (h : step sys s (.dispatch ok) = some s') :
    s'.announced = s.signals.tail.filterMap announcedPath := by
  simp only [step] at h
  split at h
  · next parameters signals hentries hsignals =>
    rw [hsignals, List.tail_cons]
    rcases mountCb_cases h with ⟨-, rfl⟩ | ⟨path, -, rfl⟩
    · rfl
    · simp only [mountIdleCb, markMountPoint, scanMedia]
      cases sys.autoscanRemovableMedia <;> cases sys.enableRemovableMedia <;> cases ok <;> rfl
  · cases h

theorem nextTarget_enabled {ok : Bool} {path : CString}
    (h : s.nextTarget sys (.dispatch ok) = some path) : sys.enableRemovableMedia = true := by
  simp only [State.nextTarget] at h
  split_ifs at h with henable
  exact henable

/-- A file system is mounted or unmounted, and its mount points are
announced. -/
structure Mounting (sys : System) (s : State) (dev : UInt64)
    (announcement : Option Announcement) (s' : State) : Prop where
  listed : Announced sys s'.table dev announcement
  announced : s'.announced = s.announced ++ (firstPoint announcement).toList
  entries : s'.entries = s.entries

theorem mount_mounting {dev : UInt64} {point : CString} {announcement : Option Announcement}
    (h : step sys s (.mount dev point announcement) = some s') :
    Mounting sys s dev announcement s' ∧ s'.table = ⟨s.nextId, dev, point⟩ :: s.table ∧
      s'.nextId = s.nextId + 1 ∧ s'.marks = s.marks := by
  simp only [step] at h
  split_ifs at h with hlisted
  cases h
  exact ⟨⟨hlisted, announced_append s announcement, rfl⟩, rfl, rfl, rfl⟩

theorem umount_mounting {i : Nat} {announcement : Option Announcement}
    (h : step sys s (.umount i announcement) = some s') :
    ∃ m, s.table[i]? = some m ∧ Mounting sys s m.dev announcement s' ∧
      s'.table = s.table.eraseIdx i ∧ s'.nextId = s.nextId ∧
      s'.marks = Function.update s.marks m.id false := by
  simp only [step] at h
  split at h
  · cases h
  · next m hm =>
    split_ifs at h with hok
    cases h
    exact ⟨m, hm, ⟨hok.2, announced_append s announcement, rfl⟩, rfl, rfl, rfl⟩

theorem signal_announced {parameters : Option (List Variant)}
    (h : step sys s (.signal parameters) = some s') :
    s' = { s with signals := s.signals ++ [parameters] } ∧ s'.announced = s.announced := by
  simp only [step] at h
  split_ifs at h with hother
  cases h
  refine ⟨rfl, ?_⟩
  rw [State.announced, State.announced, List.filterMap_append, List.filterMap_cons,
    announcedPath_other hother, List.filterMap_nil, List.append_nil]

/-! ## The numbers of the mounts -/

/-- The mounts have different numbers, which were all given out. -/
structure Wf (s : State) : Prop where
  distinct : (s.table.map Mount.id).Nodup
  positive : ∀ m ∈ s.table, 0 < m.id
  bounded : ∀ m ∈ s.table, m.id < s.nextId
  started : 0 < s.nextId
  unmarked : ∀ n, s.nextId ≤ n → s.marks n = false

theorem Wf.id_inj (hwf : Wf s) {m m' : Mount} (hm : m ∈ s.table) (hm' : m' ∈ s.table)
    (h : m.id = m'.id) : m = m' :=
  List.inj_on_of_nodup_map hwf.distinct hm hm' h

theorem Wf.mountId_lt (hwf : Wf s) (path : CString) : mountId (s.mountOf path) < s.nextId := by
  cases hmount : s.mountOf path with
  | none => exact hwf.started
  | some m => exact hwf.bounded m (Overlay.top_mem hmount)

theorem Wf.marking (hwf : Wf s) {label : Label} {ok : Bool} (h : Marking sys s label ok s') :
    Wf s' := by
  refine ⟨?_, ?_, ?_, ?_, ?_⟩
  · rw [h.table]
    exact hwf.distinct
  · rw [h.table]
    exact hwf.positive
  · rw [h.table, h.nextId]
    exact hwf.bounded
  · rw [h.nextId]
    exact hwf.started
  · intro n hn
    rw [h.nextId] at hn
    rw [h.marks]
    cases s.nextTarget sys label with
    | none => exact hwf.unmarked n hn
    | some path =>
      cases ok with
      | false => exact hwf.unmarked n hn
      | true =>
        have hlt := hwf.mountId_lt path
        simp only [marksAfter, if_true]
        rw [Function.update_of_ne (by omega)]
        exact hwf.unmarked n hn

theorem Wf.step (hwf : Wf s) {label : Label} (h : step sys s label = some s') : Wf s' := by
  cases label with
  | mount dev point announcement =>
    obtain ⟨-, htable, hnextId, hmarks⟩ := mount_mounting h
    refine ⟨?_, ?_, ?_, by omega, ?_⟩
    · rw [htable, List.map_cons, List.nodup_cons]
      refine ⟨fun hmem => ?_, hwf.distinct⟩
      obtain ⟨m, hm, hid⟩ := List.mem_map.mp hmem
      have hlt := hwf.bounded m hm
      simp only at hid
      omega
    · rw [htable, List.forall_mem_cons]
      exact ⟨hwf.started, hwf.positive⟩
    · rw [htable, List.forall_mem_cons, hnextId]
      exact ⟨Nat.lt_succ_self _, fun m hm => Nat.lt_succ_of_lt (hwf.bounded m hm)⟩
    · intro n hn
      rw [hmarks]
      exact hwf.unmarked n (by omega)
  | umount i announcement =>
    obtain ⟨m, hm, -, htable, hnextId, hmarks⟩ := umount_mounting h
    have hsub : s'.table.Sublist s.table := htable ▸ List.eraseIdx_sublist s.table i
    refine ⟨hwf.distinct.sublist (hsub.map _), fun m' hm' => hwf.positive m' (hsub.mem hm'),
      fun m' hm' => hnextId ▸ hwf.bounded m' (hsub.mem hm'), hnextId ▸ hwf.started, ?_⟩
    intro n hn
    rw [hnextId] at hn
    rw [hmarks, Function.update_apply]
    split_ifs
    · rfl
    · exact hwf.unmarked n hn
  | signal parameters =>
    obtain ⟨rfl, -⟩ := signal_announced h
    exact ⟨hwf.distinct, hwf.positive, hwf.bounded, hwf.started, hwf.unmarked⟩
  | markEntry ok => exact hwf.marking (markEntry_marking h)
  | dispatch ok => exact hwf.marking (dispatch_marking h)

/-! ## Removable media -/

/-- UDisks knows the file system, which was mounted since the start. -/
def Removable (sys : System) (first : Nat) (m : Mount) : Prop :=
  first ≤ m.id ∧ sys.udisks m.dev = true

/-- A signal that will lead to the mount is under way. -/
def Due (s : State) (m : Mount) : Prop :=
  Overlay.top Mount.path s.table m.path = some m ∧ ∃ q ∈ s.announced, components q = m.path

/-- The mount of `/` is not marked; that of each medium is, or will be. -/
def Covered (sys : System) (first : Nat) (s : State) : Prop :=
  s.marks 0 = false ∧ (sys.enableRemovableMedia = true →
    ∀ m ∈ s.table, Removable sys first m → s.marks m.id = true ∨ Due s m)

/-- What is marked is not the mount of `/`. -/
def State.Misses (sys : System) (s : State) (label : Label) (ok : Bool) : Prop :=
  ok = true → ∀ path ∈ s.nextTarget sys label, (s.mountOf path).isSome = true

/-- The call on the mount point of a medium that is not marked yet does not
fail, or another signal leads there. -/
def State.Retried (sys : System) (first : Nat) (s : State) (ok : Bool) : Prop :=
  ok = false → ∀ path ∈ s.nextTarget sys (.dispatch ok), ∀ m ∈ s.table,
    Removable sys first m → s.marks m.id = false → components path = m.path →
      ∃ q ∈ s.signals.tail.filterMap announcedPath, components q = m.path

/-- A medium is mounted where a signal leads to, nothing is mounted over one
that was not marked yet, and no call on one fails for good; what is marked is
not the mount of `/`. -/
def Good (sys : System) (first : Nat) (s : State) : Label → Prop
  | .mount dev point announcement => sys.enableRemovableMedia = true →
      (sys.udisks dev = true → ∃ q ∈ s.announced ++ (firstPoint announcement).toList,
        components q = components point) ∧
      ∀ m ∈ s.table, Removable sys first m → s.marks m.id = false →
        ¬ components point <+: m.path
  | .markEntry ok => s.Misses sys (.markEntry ok) ok
  | .dispatch ok => s.Misses sys (.dispatch ok) ok ∧ s.Retried sys first ok
  | _ => True

instance (sys : System) (first : Nat) : DecidablePred (Removable sys first) :=
  fun _ => inferInstanceAs (Decidable (_ ∧ _))

instance (sys : System) (s : State) (label : Label) (ok : Bool) :
    Decidable (s.Misses sys label ok) :=
  inferInstanceAs (Decidable (_ → _))

instance (sys : System) (first : Nat) (s : State) (ok : Bool) :
    Decidable (s.Retried sys first ok) :=
  inferInstanceAs (Decidable (_ → ∀ path ∈ _, ∀ m ∈ _, _))

instance (sys : System) (first : Nat) (s : State) :
    (label : Label) → Decidable (Good sys first s label)
  | .mount _ _ _ => inferInstanceAs (Decidable (_ → _ ∧ _))
  | .umount _ _ | .signal _ => inferInstanceAs (Decidable True)
  | .markEntry _ => inferInstanceAs (Decidable (State.Misses _ _ _ _))
  | .dispatch _ => inferInstanceAs (Decidable (State.Misses _ _ _ _ ∧ State.Retried _ _ _ _))

theorem marksAfter_mono (target : Option CString) (ok : Bool) {n : Nat} (h : s.marks n = true) :
    marksAfter s target ok n = true := by
  cases target with
  | none => exact h
  | some path =>
    cases ok with
    | false => exact h
    | true =>
      simp only [marksAfter, if_true, Function.update_apply]
      split_ifs
      · rfl
      · exact h

/-- A call on the mount point of what is on top marks it. -/
theorem marksAfter_due {m : Mount} {q : CString}
    (htop : Overlay.top Mount.path s.table m.path = some m) (hq : components q = m.path) :
    marksAfter s (some q) true m.id = true := by
  have hmount : s.mountOf q = some m := by rw [State.mountOf, hq, htop]
  simp only [marksAfter, if_true, hmount, mountId, Function.update_self]

theorem marksAfter_false (target : Option CString) : marksAfter s target false = s.marks := by
  cases target <;> rfl

theorem marksAfter_zero {label : Label} {ok : Bool} (hwf : Wf s) (hroot : s.marks 0 = false) :
    marksAfter s (s.nextTarget sys label) ok 0 = false ↔ s.Misses sys label ok := by
  rw [State.Misses]
  cases s.nextTarget sys label with
  | none => simp [marksAfter, hroot]
  | some path =>
    cases ok with
    | false => simp [marksAfter, hroot]
    | true =>
      cases hmount : s.mountOf path with
      | none => simp [marksAfter, mountId, hmount]
      | some m =>
        have hpos := hwf.positive m (Overlay.top_mem hmount)
        have hne : 0 ≠ m.id := by omega
        simp [marksAfter, mountId, hmount, Function.update_of_ne hne, hroot]

/-- A mark that is not put leaves the medium to another signal. -/
theorem Covered.marking {first : Nat} (h : Covered sys first s) (hwf : Wf s) {label : Label}
    {ok : Bool} (hstep : Marking sys s label ok s') :
    Covered sys first s' ↔ s.Misses sys label ok ∧
      (ok = false → sys.enableRemovableMedia = true → ∀ m ∈ s.table, Removable sys first m →
        s.marks m.id = false → ∃ q ∈ s'.announced, components q = m.path) := by
  rw [Covered, hstep.marks, marksAfter_zero hwf h.1]
  refine and_congr_right fun _ => ⟨?_, ?_⟩
  · rintro hcovered rfl henable m hm hmedia hunmarked
    rw [marksAfter_false, hstep.table] at hcovered
    rcases hcovered henable m hm hmedia with hmark | ⟨-, hdue⟩
    · rw [hunmarked] at hmark
      cases hmark
    · exact hdue
  · intro hretried henable m hm hmedia
    rw [hstep.table] at hm
    rcases h.2 henable m hm hmedia with hmark | ⟨htop, q, hq, hpath⟩
    · exact .inl (marksAfter_mono _ ok hmark)
    · have hdue : ∀ q ∈ s'.announced, components q = m.path → Due s' m := by
        intro q' hq' hpath'
        refine ⟨?_, q', hq', hpath'⟩
        rw [hstep.table]
        exact htop
      rcases hstep.announced q hq with hlater | hnow
      · exact .inr (hdue q hlater hpath)
      · rw [hnow henable]
        cases ok with
        | true => exact .inl (marksAfter_due htop hpath)
        | false =>
          rw [marksAfter_false]
          cases hmark : s.marks m.id with
          | true => exact .inl rfl
          | false =>
            obtain ⟨q', hq', hpath'⟩ := hretried rfl henable m hm hmedia hmark
            exact .inr (hdue q' hq' hpath')

theorem Covered.markEntry {first : Nat} (h : Covered sys first s) (hwf : Wf s) {ok : Bool}
    (hstep : step sys s (.markEntry ok) = some s') :
    Covered sys first s' ↔ Good sys first s (.markEntry ok) := by
  rw [h.marking hwf (markEntry_marking hstep), Good, and_iff_left_iff_imp]
  -- the signals are those of before
  rintro - - henable m hm hmedia hunmarked
  rcases h.2 henable m hm hmedia with hmark | ⟨-, hdue⟩
  · rw [hunmarked] at hmark
    cases hmark
  · rw [markEntry_announced hstep]
    exact hdue

theorem Covered.dispatch {first : Nat} (h : Covered sys first s) (hwf : Wf s) {ok : Bool}
    (hstep : step sys s (.dispatch ok) = some s') :
    Covered sys first s' ↔ Good sys first s (.dispatch ok) := by
  have hmarking := dispatch_marking hstep
  rw [h.marking hwf hmarking, Good, State.Retried]
  rw [← dispatch_announced hstep]
  refine and_congr_right fun _ => forall_congr' fun hfail => ⟨?_, ?_⟩
  · intro hkept path htarget m hm hmedia hunmarked _
    exact hkept (nextTarget_enabled htarget) m hm hmedia hunmarked
  · intro hretried henable m hm hmedia hunmarked
    rcases h.2 henable m hm hmedia with hmark | ⟨-, q, hq, hpath⟩
    · rw [hunmarked] at hmark
      cases hmark
    · rcases hmarking.announced q hq with hlater | hnow
      · exact ⟨q, hlater, hpath⟩
      · exact hretried q (hnow henable) m hm hmedia hunmarked hpath

theorem Covered.umount {first : Nat} (h : Covered sys first s) (hwf : Wf s) {i : Nat}
    {announcement : Option Announcement}
    (hstep : step sys s (.umount i announcement) = some s') : Covered sys first s' := by
  obtain ⟨m, hm, hmounting, htable, -, hmarks⟩ := umount_mounting hstep
  have hmem : m ∈ s.table := List.mem_of_getElem? hm
  refine ⟨?_, fun henable m' hm' hmedia => ?_⟩
  · have hpos := hwf.positive m hmem
    rw [hmarks, Function.update_of_ne (by omega)]
    exact h.1
  · rw [htable] at hm'
    have hm'' : m' ∈ s.table := (List.eraseIdx_sublist s.table i).mem hm'
    have hne : m ≠ m' := by
      rintro rfl
      obtain ⟨j, hj, hat⟩ := List.mem_eraseIdx_iff_getElem?.mp hm'
      have hnodup : s.table.Nodup := List.Nodup.of_map _ hwf.distinct
      have hlt := (List.getElem?_eq_some_iff.mp hat).1
      exact hj ((List.getElem?_inj hlt hnodup).mp (hat.trans hm.symm))
    rcases h.2 henable m' hm'' hmedia with hmark | ⟨htop, q, hq, hpath⟩
    · refine .inl ?_
      rw [hmarks, Function.update_of_ne (fun hid => hne (hwf.id_inj hmem hm'' hid.symm))]
      exact hmark
    · refine .inr ⟨?_, q, ?_, hpath⟩
      · rw [htable]
        refine Overlay.top_eraseIdx htop fun hat => hne ?_
        exact Option.some.inj (hm.symm.trans hat)
      · rw [hmounting.announced]
        exact List.mem_append_left _ hq

theorem Covered.mount {first : Nat} (h : Covered sys first s) (hwf : Wf s)
    (hfirst : first ≤ s.nextId) {dev : UInt64} {point : CString}
    {announcement : Option Announcement}
    (hstep : step sys s (.mount dev point announcement) = some s') :
    Covered sys first s' ↔ Good sys first s (.mount dev point announcement) := by
  obtain ⟨hmounting, htable, -, hmarks⟩ := mount_mounting hstep
  have hne : ∀ m ∈ s.table, (⟨s.nextId, dev, point⟩ : Mount) ≠ m := by
    rintro m hm rfl
    exact absurd (hwf.bounded _ hm) (Nat.lt_irrefl _)
  have hover : ∀ path, components point <+: path →
      Overlay.top Mount.path s'.table path = some ⟨s.nextId, dev, point⟩ := by
    intro path hprefix
    rw [htable]
    exact Overlay.top_cons_below _ hprefix
  have helse : ∀ path, ¬ components point <+: path →
      Overlay.top Mount.path s'.table path = Overlay.top Mount.path s.table path := by
    intro path hnot
    rw [htable]
    exact Overlay.top_cons_of_not _ hnot
  rw [Covered, Good, hmarks, and_iff_right h.1]
  refine forall_congr' fun henable => ?_
  rw [htable, List.forall_mem_cons]
  refine and_congr ⟨fun hnew hudisks => ?_, fun hnew hmedia => ?_⟩
    (forall₂_congr fun m hm => forall_congr' fun hmedia => ?_)
  · rcases hnew ⟨hfirst, hudisks⟩ with hmark | ⟨-, q, hq, hpath⟩
    · rw [hwf.unmarked s.nextId (Nat.le_refl _)] at hmark
      cases hmark
    · rw [hmounting.announced] at hq
      exact ⟨q, hq, hpath⟩
  · obtain ⟨q, hq, hpath⟩ := hnew hmedia.2
    exact .inr ⟨hover _ (List.prefix_refl _), q, hmounting.announced ▸ hq, hpath⟩
  · constructor
    · intro hold hunmarked hhidden
      rcases hold with hmark | ⟨htop', -⟩
      · rw [hunmarked] at hmark
        cases hmark
      · rw [hover _ hhidden] at htop'
        exact hne m hm (Option.some.inj htop')
    · intro hfree
      rcases h.2 henable m hm hmedia with hmark | ⟨htop', q, hq, hpath⟩
      · exact .inl hmark
      · by_cases hmark : s.marks m.id = true
        · exact .inl hmark
        · refine .inr ⟨?_, q, ?_, hpath⟩
          · rw [helse _ (hfree (eq_false_of_ne_true hmark))]
            exact htop'
          · rw [hmounting.announced]
            exact List.mem_append_left _ hq

theorem Covered.step {first : Nat} (h : Covered sys first s) (hwf : Wf s)
    (hfirst : first ≤ s.nextId) {label : Label} (hstep : step sys s label = some s') :
    Covered sys first s' ↔ Good sys first s label := by
  cases label with
  | mount dev point announcement => exact h.mount hwf hfirst hstep
  | umount i announcement => exact iff_of_true (h.umount hwf hstep) trivial
  | signal parameters =>
    obtain ⟨rfl, hannounced⟩ := signal_announced hstep
    refine iff_of_true ⟨h.1, fun henable m hm hmedia => ?_⟩ trivial
    rw [Due, hannounced]
    exact h.2 henable m hm hmedia
  | markEntry ok => exact h.markEntry hwf hstep
  | dispatch ok => exact h.dispatch hwf hstep

theorem nextId_le {label : Label} (h : step sys s label = some s') : s.nextId ≤ s'.nextId := by
  cases label with
  | mount dev point announcement =>
    obtain ⟨-, -, hnextId, -⟩ := mount_mounting h
    omega
  | umount i announcement =>
    obtain ⟨m, -, -, -, hnextId, -⟩ := umount_mounting h
    omega
  | signal parameters =>
    obtain ⟨rfl, -⟩ := signal_announced h
    exact Nat.le_refl _
  | markEntry ok => exact (markEntry_marking h).nextId.ge
  | dispatch ok => exact (dispatch_marking h).nextId.ge

/-- In every state of a run the mount of `/` is not marked and each medium is,
or will be, if and only if media are mounted where signals lead to, nothing
is mounted over those that were not marked yet, the call that marks one does
not fail unless another signal leads there, and no path is marked that has
fallen back to `/`. -/
theorem covered_iff (hwf : Wf s) (hroot : s.marks 0 = false) (labels : List Label)
    (hrun : Transition.run (step sys) s labels = some s') :
    (∀ before after u, labels = before ++ after →
        Transition.run (step sys) s before = some u → Covered sys s.nextId u) ↔
      Transition.AllSteps (step sys) (Good sys s.nextId) s labels := by
  have hstart : Covered sys s.nextId s := by
    refine ⟨hroot, fun _ m hm hmedia => ?_⟩
    exact absurd hmedia.1 (Nat.not_le_of_lt (hwf.bounded m hm))
  refine Transition.reached_iff_allSteps
    (I := fun u => Covered sys s.nextId u ∧ Wf u ∧ s.nextId ≤ u.nextId)
    (fun u hu => hu.1) ?_ ?_ labels s s' ⟨hstart, hwf, Nat.le_refl _⟩ hrun
  · rintro u label u' ⟨hcovered, hu, hle⟩ hstep hgood
    exact ⟨(hcovered.step hu hle hstep).mpr hgood, hu.step hstep,
      Nat.le_trans hle (nextId_le hstep)⟩
  · rintro u label u' ⟨hcovered, hu, hle⟩ hstep hbad hcovered'
    exact hbad ((hcovered.step hu hle hstep).mp hcovered')

/-- No mounts below `/`, nothing to mark, and devices from 8 on that UDisks
knows. -/
def emptySystem : System where
  rootDev := 1
  udisks dev := 8 ≤ dev
  enableRemovableMedia := true
  autoscanRemovableMedia := false

/-- Nothing is mounted. -/
def emptyState : State where
  table := []
  nextId := 1
  marks _ := false
  signals := []
  entries := []
  scans := []

theorem emptyState_wf : Wf emptyState where
  distinct := List.nodup_nil
  positive _ h := absurd h List.not_mem_nil
  bounded _ h := absurd h List.not_mem_nil
  started := Nat.one_pos
  unmarked _ _ := rfl

/-- The announcement of a file system that is mounted there and nowhere
else. -/
def mountedAt (mountPoints : List CString) : Announcement where
  mountPoints
  changed := []
  invalidated := []
  fresh := List.not_mem_nil

/-- A medium that is taken out again before the signal is dispatched leaves a
mark on the mount of `/`. -/
theorem covered_iff_quick :
    ¬ ∀ before after u,
      [Label.mount 8 "/media".toList (some (mountedAt ["/media".toList])),
        .umount 0 (some (mountedAt [])), .dispatch true] = before ++ after →
      Transition.run (step emptySystem) emptyState before = some u →
      Covered emptySystem emptyState.nextId u := by
  rw [covered_iff emptyState_wf rfl _ rfl]
  decide

/-- A call that fails is not made again. -/
example : ¬ Transition.AllSteps (step emptySystem) (Good emptySystem 1) emptyState
    [.mount 8 "/media".toList (some (mountedAt ["/media".toList])), .dispatch false] := by
  decide

/-! ## The mount of `/` -/

/-- The root file system is not announced, no file system is unmounted that
contains a path that is still to be marked, and no mark is put through an
entry that was missing at the start. -/
def Careful (sys : System) (missing : CString → Bool) (s : State) : Label → Prop
  | .mount dev _ announcement => announcement.isSome = true → dev ≠ sys.rootDev
  | .umount i announcement => ∀ m ∈ s.table[i]?,
      (announcement.isSome = true → m.dev ≠ sys.rootDev) ∧
        ∀ q ∈ s.entries ++ s.announced, s.mountOf q ≠ some m
  | .markEntry ok => ok = true → ∀ path ∈ s.entries.head?, missing path = false
  | _ => True

instance (sys : System) (missing : CString → Bool) (s : State) :
    (label : Label) → Decidable (Careful sys missing s label)
  | .mount _ _ _ => inferInstanceAs (Decidable (_ → _))
  | .umount _ _ => inferInstanceAs (Decidable (∀ m ∈ _, _))
  | .markEntry _ => inferInstanceAs (Decidable (_ → _))
  | .signal _ | .dispatch _ => inferInstanceAs (Decidable True)

/-- What is still to be marked is below a mount, or was missing at the
start. -/
def Below (missing : CString → Bool) (s : State) : Prop :=
  (∀ q ∈ s.entries, missing q = false → (s.mountOf q).isSome = true) ∧
    ∀ q ∈ s.announced, (s.mountOf q).isSome = true

variable {missing : CString → Bool}

/-- A mount point that is announced is that of a mount. -/
theorem Mounting.below {dev : UInt64} {announcement : Option Announcement}
    (h : Mounting sys s dev announcement s') (hdev : announcement.isSome = true →
      dev ≠ sys.rootDev) (hbelow : Below missing s)
    (hkept : ∀ q ∈ s.entries ++ s.announced, (s.mountOf q).isSome = true →
      (s'.mountOf q).isSome = true) :
    Below missing s' := by
  refine ⟨fun q hq hthere => ?_, fun q hq => ?_⟩
  · rw [h.entries] at hq
    exact hkept q (List.mem_append_left _ hq) (hbelow.1 q hq hthere)
  rw [h.announced, List.mem_append] at hq
  rcases hq with hq | hq
  · exact hkept q (List.mem_append_right _ hq) (hbelow.2 q hq)
  · have hlisted := h.listed
    cases announcement with
    | none => cases hq
    | some a =>
      have hmem : q ∈ a.mountPoints := List.mem_of_mem_head? (Option.mem_toList.mp hq)
      have hpoint := hlisted.2.1 q hmem
      rw [pointsOf, if_neg (hdev rfl), List.append_nil] at hpoint
      obtain ⟨m, hm, rfl⟩ := List.mem_map.mp hpoint
      exact Overlay.top_isSome_of_mem (List.mem_of_mem_filter hm) (List.prefix_refl m.path)

theorem Below.marking (h : Below missing s) {label : Label} {ok : Bool}
    (hstep : Marking sys s label ok s') : Below missing s' := by
  refine ⟨fun q hq hthere => ?_, fun q hq => ?_⟩
  · rw [State.mountOf, hstep.table]
    exact h.1 q (hstep.entries hq) hthere
  · rw [State.mountOf, hstep.table]
    exact h.2 q (hstep.fewer hq)

theorem Below.of_step (h : Below missing s) {label : Label} (hstep : step sys s label = some s')
    (hcareful : Careful sys missing s label) : Below missing s' := by
  cases label with
  | mount dev point announcement =>
    obtain ⟨hmounting, htable, -, -⟩ := mount_mounting hstep
    refine hmounting.below hcareful h fun q _ hsome => ?_
    obtain ⟨m, hm⟩ := Option.isSome_iff_exists.mp hsome
    refine Overlay.top_isSome_of_mem ?_ (Overlay.top_below hm)
    rw [htable]
    exact List.mem_cons_of_mem _ (Overlay.top_mem hm)
  | umount i announcement =>
    obtain ⟨m, hm, hmounting, htable, -, -⟩ := umount_mounting hstep
    obtain ⟨hdev, hfree⟩ := hcareful m hm
    refine hmounting.below hdev h fun q hq hsome => ?_
    obtain ⟨m', hm'⟩ := Option.isSome_iff_exists.mp hsome
    have hkept : Overlay.top Mount.path s'.table (components q) = some m' := by
      rw [htable]
      refine Overlay.top_eraseIdx hm' fun hat => hfree q hq ?_
      rw [hm', ← hat, hm]
    rw [State.mountOf, hkept]
    rfl
  | signal parameters =>
    obtain ⟨rfl, hannounced⟩ := signal_announced hstep
    refine ⟨h.1, fun q hq => ?_⟩
    rw [hannounced] at hq
    exact h.2 q hq
  | markEntry ok => exact h.marking (markEntry_marking hstep)
  | dispatch ok => exact h.marking (dispatch_marking hstep)

/-- A signal that is dispatched leads to a path that was announced. -/
theorem dispatchTarget_mem {ok : Bool} {path : CString}
    (h : s.nextTarget sys (.dispatch ok) = some path) : path ∈ s.announced := by
  simp only [State.nextTarget] at h
  split_ifs at h
  obtain ⟨parameters, hhead, hpath⟩ := Option.bind_eq_some_iff.mp h
  exact List.mem_filterMap.mpr ⟨parameters, List.mem_of_mem_head? hhead, hpath⟩

/-- A step marks the mount of `/` only if something still to be marked has
fallen back to it. -/
theorem Below.root_unmarked (h : Below missing s) (hwf : Wf s) (hroot : s.marks 0 = false)
    {label : Label} (hcareful : Careful sys missing s label)
    (hstep : step sys s label = some s') : s'.marks 0 = false := by
  cases label with
  | mount dev point announcement =>
    obtain ⟨-, -, -, hmarks⟩ := mount_mounting hstep
    rw [hmarks, hroot]
  | umount i announcement =>
    obtain ⟨m, -, -, -, -, hmarks⟩ := umount_mounting hstep
    rw [hmarks, Function.update_apply]
    split_ifs
    · rfl
    · exact hroot
  | signal parameters =>
    obtain ⟨rfl, -⟩ := signal_announced hstep
    exact hroot
  | markEntry ok =>
    rw [(markEntry_marking hstep).marks, marksAfter_zero hwf hroot]
    intro hok path hpath
    exact h.1 path (List.mem_of_mem_head? hpath) (hcareful hok path hpath)
  | dispatch ok =>
    rw [(dispatch_marking hstep).marks, marksAfter_zero hwf hroot]
    intro _ path hpath
    exact h.2 path (dispatchTarget_mem hpath)

theorem mem_accessMonitorAddMount {stat : CString → Option UInt64} {entries : List CString}
    {mountPoint path : CString} (h : path ∈ accessMonitorAddMount stat entries mountPoint) :
    path ∈ entries ∨
      path = mountPoint ∧ getDevId stat mountPoint ≠ getDevId stat "/".toList := by
  rw [accessMonitorAddMount] at h
  split at h
  · exact .inl h
  · next hdev =>
    rw [List.mem_append, List.mem_singleton] at h
    exact h.imp_right fun hpath => ⟨hpath, hdev⟩

/-- A path that is let through is not in the file system of `/`. -/
theorem accessMonitorAddMount_below (path : CString)
    (hdev : s.device sys path ≠ s.device sys "/".toList) : (s.mountOf path).isSome = true := by
  cases hmount : s.mountOf path with
  | some m => rfl
  | none =>
    have hnone := Overlay.top_eq_none.mp hmount
    cases hslash : s.mountOf "/".toList with
    | none =>
      rw [State.device, State.device, hmount, hslash] at hdev
      exact absurd rfl hdev
    | some m =>
      have hprefix : m.path <+: [] := Overlay.top_below hslash
      have hempty : m.path = [] := List.prefix_nil.mp hprefix
      refine absurd ?_ (hnone m (Overlay.top_mem hslash))
      rw [hempty]
      exact List.nil_prefix

/-- `stat` when some paths are missing. -/
def State.stat (sys : System) (s : State) (missing : CString → Bool) (path : CString) :
    Option UInt64 :=
  if missing path then none else some (s.device sys path)

/-- The configured mount points that are let through, the missing ones among
them. -/
def addMounts (sys : System) (s : State) (missing : CString → Bool)
    (mountPoints : List CString) : List CString :=
  mountPoints.foldl (accessMonitorAddMount (s.stat sys missing)) []

theorem addMounts_below (hslash : missing "/".toList = false) (mountPoints : List CString) :
    ∀ path ∈ addMounts sys s missing mountPoints,
      missing path = false → (s.mountOf path).isSome = true := by
  have hfold : ∀ entries : List CString,
      (∀ path ∈ entries, missing path = false → (s.mountOf path).isSome = true) →
      ∀ path ∈ mountPoints.foldl (accessMonitorAddMount (s.stat sys missing)) entries,
        missing path = false → (s.mountOf path).isSome = true := by
    induction mountPoints with
    | nil =>
      intro entries h
      exact h
    | cons mountPoint mountPoints ih =>
      intro entries h
      refine ih _ fun path hpath hthere => ?_
      rcases mem_accessMonitorAddMount hpath with hpath | ⟨rfl, hdev⟩
      · exact h path hpath hthere
      · have hne : s.device sys path ≠ s.device sys "/".toList := by
          intro heq
          refine hdev ?_
          simp only [getDevId, State.stat, hslash, hthere, heq]
        exact accessMonitorAddMount_below path hne
  exact hfold [] fun path hpath => absurd hpath List.not_mem_nil

/-- As long as the root file system is not announced, nothing is unmounted
that is still to be marked, and no mark is put through an entry that was
missing at the start, the mount of `/` is not marked. -/
theorem root_never_marked (hwf : Wf s) (hroot : s.marks 0 = false) (hsignals : s.signals = [])
    (hslash : missing "/".toList = false) (mountPoints : List CString)
    (hentries : s.entries = addMounts sys s missing mountPoints) (labels : List Label)
    (hcareful : Transition.AllSteps (step sys) (Careful sys missing) s labels)
    (hrun : Transition.run (step sys) s labels = some s') : s'.marks 0 = false := by
  have hbelow : Below missing s := by
    refine ⟨fun q hq hthere => ?_, fun q hq => ?_⟩
    · rw [hentries] at hq
      exact addMounts_below hslash mountPoints q hq hthere
    · rw [State.announced, hsignals] at hq
      cases hq
  have hinv := Transition.run_invariant_of_allSteps
    (P := fun u => Below missing u ∧ Wf u ∧ u.marks 0 = false)
    (fun u label u' ⟨hb, hu, h0⟩ hc hstep =>
      ⟨hb.of_step hstep hc, hu.step hstep, hb.root_unmarked hu h0 hc hstep⟩)
    labels s s' ⟨hbelow, hwf, hroot⟩ hcareful hrun
  exact hinv.2.2

/-- There is no `/mnt/usb`. -/
def noUsb (path : CString) : Bool := path = "/mnt/usb".toList

/-- A state with one file system below `/`; of the mount points configured
the one in the file system of `/` is refused. -/
def homeState : State :=
  { emptyState with
    table := [⟨1, 8, "/home".toList⟩]
    nextId := 2
    entries := addMounts emptySystem { emptyState with table := [⟨1, 8, "/home".toList⟩] } noUsb
      ["/home".toList, "/usr".toList, "/mnt/usb".toList] }

theorem homeState_wf : Wf homeState where
  distinct := List.nodup_singleton 1
  positive := by decide
  bounded := by decide
  started := by decide
  unmarked _ _ := rfl

/-- The mark on the missing path fails, and what was marked is unmounted
before a medium is marked. -/
def homeLabels : List Label :=
  [.mount 9 "/media".toList (some (mountedAt ["/media".toList])), .markEntry true,
    .markEntry false, .umount 1 (some (mountedAt [])), .dispatch true]

theorem root_never_marked_home :
    ∃ t, Transition.run (step emptySystem) homeState homeLabels = some t ∧
      t.marks 0 = false := by
  refine ⟨_, rfl, @root_never_marked emptySystem _ _ noUsb homeState_wf rfl rfl rfl
    ["/home".toList, "/usr".toList, "/mnt/usb".toList] rfl homeLabels ?_ rfl⟩
  decide

/-- Through the missing path, once it is a directory of `/`, the mount of `/`
is marked. -/
example : (Transition.run (step emptySystem) homeState [.markEntry true, .markEntry true]).map
    (fun t => t.marks 0) = some true := rfl

end Armadito.OnAccess.Mounts
