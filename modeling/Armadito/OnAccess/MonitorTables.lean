import Armadito.OnAccess.MonitorMarks

/-!
# OnAccess.MonitorTables

`path2wd_table` and `wd2path_table` while directories come, go and move.

The tables are inverse to each other, and their paths name the watched
directories, as long as what they lead to stays where it is. When a
directory in the tables is removed or renamed, its entry stays:
`access_monitor_unmark_directory` gives up when `fanotify_mark` fails on
the path that is no longer there, before it has come to the tables.
-/

namespace Armadito.OnAccess.Monitor

open Armadito.Os

/-! ## Paths that stay -/

/-- The directories on the way of a path. -/
def Kernel.route (k : Kernel) (path : CString) : List Nat :=
  k.tree.trail (k.base path) (components path)

/-- No path in the tables leads to the directory, or through it. -/
def Clear (s : State) (d : Nat) : Prop :=
  ∀ path wd, s.path2wd path = some wd → d ∉ s.kernel.route path

/-- What the tables lead to is neither removed, nor renamed or replaced;
and a directory with a watch is not marked by another path. -/
def Steady (s : State) : Label → Prop
  | .rmdir path name => ∀ dir sub, s.kernel.tree.walk 0 path = some dir →
      s.kernel.tree.lookup dir name = some sub → Clear s sub
  | .rename path name path' name' =>
    (∀ dir sub, s.kernel.tree.walk 0 path = some dir →
      s.kernel.tree.lookup dir name = some sub → Clear s sub) ∧
    ∀ dir old, s.kernel.tree.walk 0 path' = some dir →
      s.kernel.tree.lookup dir name' = some old → Clear s old
  | .inotifyAddWatch _ => ∀ path stack, s.stack = .addWatch path :: stack →
      ∀ dir wd, s.kernel.resolve path = some dir → s.kernel.watches dir = some wd →
        ∀ path', s.wd2path wd = some path' → path' = path
  | _ => True

section

variable {k k' : Kernel} {path : CString} {d : Nat}

theorem resolve_mem_route (h : k.resolve path = some d) : d ∈ k.route path := by
  unfold Kernel.resolve at h
  split at h
  · cases h
  · exact DirTree.end_mem_trail _ _ h

theorem resolve_congr (hcwd : k'.cwd = k.cwd)
    (hsame : ∀ a ∈ k.route path, ∀ b ∈ k.route path, ∀ name,
      k.tree.lookup a name = some b → k'.tree.lookup a name = some b)
    (h : k.resolve path = some d) : k'.resolve path = some d := by
  unfold Kernel.resolve at h ⊢
  split at h
  · cases h
  · next hne =>
    have hbase : k'.base path = k.base path := by rw [Kernel.base, Kernel.base, hcwd]
    rw [if_neg hne, hbase]
    exact DirTree.walk_congr _ _ hsame h

end

/-! ## The kernel -/

/-- What a change to the tree leaves alone: watches go with the directories
`gone` only, and so do the ways of paths. -/
structure Leaves (k k' : Kernel) (gone : Nat → Prop) : Prop where
  tree : k'.tree.WF
  root : 0 < k'.tree.next
  nextWd : k'.nextWd = k.nextWd
  watches : ∀ d wd, k'.watches d = some wd → k.watches d = some wd
  stays : ∀ d, ¬ gone d → k'.watches d = k.watches d
  resolve : ∀ path d, (∀ a ∈ k.route path, ¬ gone a) → k.resolve path = some d →
    k'.resolve path = some d

section

variable {k k' : Kernel} {path path' : List CString} {name name' : CString}

theorem mkdir_leaves (hwf : k.tree.WF) (hroot : 0 < k.tree.next)
    (h : k.mkdir path name = some k') : Leaves k k' fun _ => False := by
  obtain ⟨dir, hcreated, hcwd, -, hwatches, hnext, -⟩ := mkdir_created hwf hroot h
  refine ⟨hcreated.wf hwf, ?_, hnext, fun _ _ => hwatches ▸ id, fun _ _ => by rw [hwatches], ?_⟩
  · rw [hcreated.next]
    exact Nat.succ_pos _
  · exact fun path d _ => resolve_congr hcwd fun a _ b _ name => hcreated.old a name b

theorem unlink_wf {t : DirTree CString} (hwf : t.WF) (dir : Nat) (name : CString) :
    (t.unlink dir name).WF := by
  intro a n b hb
  rw [DirTree.lookup_unlink] at hb
  split at hb
  · cases hb
  · exact hwf a n b hb

theorem link_wf {t : DirTree CString} (hwf : t.WF) {dir sub : Nat} (hdir : dir < t.next)
    (hsub : sub < t.next) (name : CString) : (t.link dir name sub).WF := by
  intro a n b hb
  rw [DirTree.lookup_link] at hb
  split at hb
  · next heq =>
    cases hb
    exact ⟨heq.1 ▸ hdir, hsub⟩
  · exact hwf a n b hb

theorem forget_watches (k : Kernel) (gone : Nat) :
    (k.forget gone).watches = Function.update k.watches gone none := rfl

theorem watches_of_forget {gone d wd : Nat} (h : (k.forget gone).watches d = some wd) :
    k.watches d = some wd :=
  (update_none_cases h).2

theorem rmdir_leaves (hwf : k.tree.WF) (hroot : 0 < k.tree.next)
    (h : k.rmdir path name = some k') : ∃ dir sub, k.tree.walk 0 path = some dir ∧
      k.tree.lookup dir name = some sub ∧ Leaves k k' fun d => d = sub := by
  obtain ⟨dir, hdir, h⟩ := Option.bind_eq_some_iff.mp h
  obtain ⟨sub, hsub, h⟩ := Option.bind_eq_some_iff.mp h
  split at h
  · cases h
    refine ⟨dir, sub, hdir, hsub, ?_, ?_, by simp [Kernel.forget], ?_, ?_, ?_⟩
    · rw [notify_tree]
      exact unlink_wf hwf dir name
    · rw [notify_tree]
      exact hroot
    · intro d wd hw
      rw [notify_watches] at hw
      exact watches_of_forget hw
    · intro d hne
      rw [notify_watches, forget_watches, Function.update_of_ne hne]
    · intro path d hclear
      refine resolve_congr (by simp [Kernel.forget]) fun a ha b hb n hlookup => ?_
      rw [notify_tree, Kernel.forget]
      rw [DirTree.lookup_unlink, if_neg, hlookup]
      rintro ⟨rfl, rfl⟩
      exact hclear b hb (Option.some.inj (hlookup.symm.trans hsub))
  · cases h

/-- Other directories keep their entries but for the new name. -/
theorem renameTree_lookup {t : DirTree CString} {dir dir' sub : Nat} {a b : Nat} {n : CString}
    (hsub : t.lookup dir name = some sub) (hb : t.lookup a n = some b) (hne : b ≠ sub)
    (hparent : a ≠ sub) (hold : t.lookup dir' name' ≠ some b) :
    (renameTree t dir name dir' name' sub).lookup a n = some b := by
  rw [renameTree, DirTree.lookup_link, if_neg fun h => hparent h.1, DirTree.lookup_unlink,
    if_neg fun h => hparent h.1, DirTree.lookup_link, if_neg, DirTree.lookup_unlink, if_neg,
    DirTree.lookup_unlink, if_neg, hb]
  · rintro ⟨rfl, rfl⟩
    exact hne (Option.some.inj (hb.symm.trans hsub))
  · rintro ⟨rfl, rfl⟩
    exact hold hb
  · rintro ⟨rfl, rfl⟩
    exact hold hb

theorem renameTree_wf {t : DirTree CString} (hwf : t.WF) {dir dir' sub : Nat}
    (hdir' : dir' < t.next) (hsub : sub < t.next) :
    (renameTree t dir name dir' name' sub).WF :=
  link_wf (unlink_wf (link_wf (unlink_wf (unlink_wf hwf dir name) dir' name') hdir' hsub name')
    sub _) hsub hdir' _

theorem rename_leaves (hwf : k.tree.WF) (hroot : 0 < k.tree.next)
    (h : k.rename path name path' name' = some k') : ∃ dir sub dir',
      k.tree.walk 0 path = some dir ∧ k.tree.lookup dir name = some sub ∧
      k.tree.walk 0 path' = some dir' ∧
      Leaves k k' fun d => d = sub ∨ k.tree.lookup dir' name' = some d := by
  obtain ⟨dir, hdir, h⟩ := Option.bind_eq_some_iff.mp h
  obtain ⟨sub, hsub, h⟩ := Option.bind_eq_some_iff.mp h
  obtain ⟨dir', hdir', h⟩ := Option.bind_eq_some_iff.mp h
  refine ⟨dir, sub, dir', hdir, hsub, hdir', ?_⟩
  have htree : (renameTree k.tree dir name dir' name' sub).WF :=
    renameTree_wf hwf (hwf.walk_lt path' 0 hroot hdir') (hwf dir name sub hsub).2
  have hresolve : ∀ {k₂ : Kernel}, k₂.cwd = k.cwd →
      k₂.tree = renameTree k.tree dir name dir' name' sub → ∀ path d,
      (∀ a ∈ k.route path, ¬ (a = sub ∨ k.tree.lookup dir' name' = some a)) →
      k.resolve path = some d → k₂.resolve path = some d := by
    intro k₂ hcwd htree path d hclear
    refine resolve_congr hcwd fun a ha b hb n hlookup => ?_
    rw [htree]
    exact renameTree_lookup hsub hlookup (fun heq => hclear b hb (.inl heq))
      (fun heq => hclear a ha (.inl heq)) (fun heq => hclear b hb (.inr heq))
  split at h
  · split at h
    · cases h
      refine ⟨by simpa using htree, by simpa [renameTree] using hroot, by simp, ?_, ?_,
        hresolve (by simp) (by simp)⟩
      · intro d wd hw
        simpa using hw
      · intro d _
        simp
    · next old hold =>
      split at h
      · cases h
        refine ⟨by simpa [Kernel.forget] using htree,
          by simpa [Kernel.forget, renameTree] using hroot, by simp [Kernel.forget], ?_, ?_,
          hresolve (by simp [Kernel.forget]) (by simp [Kernel.forget])⟩
        · intro d wd hw
          rw [notify_watches, notify_watches] at hw
          exact watches_of_forget hw
        · intro d hne
          rw [notify_watches, notify_watches, forget_watches, Function.update_of_ne]
          rintro rfl
          exact hne (.inr hold)
      · cases h
  · cases h

end

/-! ## The invariant -/

/-- The tables are inverse, and their paths name the watched directories. -/
structure Consistent (s : State) : Prop where
  tree : s.kernel.tree.WF
  root : 0 < s.kernel.tree.next
  nextWd : 0 < s.kernel.nextWd
  watchLt : ∀ d wd, s.kernel.watches d = some wd → 0 < wd ∧ wd < s.kernel.nextWd
  watchInj : ∀ d d' wd, s.kernel.watches d = some wd → s.kernel.watches d' = some wd → d = d'
  known : ∀ d wd, s.kernel.watches d = some wd → ∃ path, s.wd2path wd = some path
  inverse : InverseTables s.path2wd s.wd2path
  names : ∀ path wd, s.path2wd path = some wd →
    ∃ d, s.kernel.resolve path = some d ∧ s.kernel.watches d = some wd

section

variable {s s' : State} {k' : Kernel}

/-- The rest of the system does something to the tree. -/
theorem Consistent.leaves (h : Consistent s) {gone : Nat → Prop}
    (hk : Leaves s.kernel k' gone)
    (hclear : ∀ d, gone d → Clear s d) : Consistent { s with kernel := k' } where
  tree := hk.tree
  root := hk.root
  nextWd := hk.nextWd ▸ h.nextWd
  watchLt := fun d wd hw => hk.nextWd ▸ h.watchLt d wd (hk.watches d wd hw)
  watchInj := fun d d' wd hw hw' =>
    h.watchInj d d' wd (hk.watches d wd hw) (hk.watches d' wd hw')
  known := fun d wd hw => h.known d wd (hk.watches d wd hw)
  inverse := h.inverse
  names := by
    intro path wd hpath
    obtain ⟨d, hd, hw⟩ := h.names path wd hpath
    have hroute : ∀ a ∈ s.kernel.route path, ¬ gone a :=
      fun a ha hgone => hclear a hgone path wd hpath ha
    refine ⟨d, hk.resolve path d hroute hd, ?_⟩
    rw [hk.stays d (hroute d (resolve_mem_route hd)), hw]

/-- Neither the tree nor the watches change. -/
theorem Consistent.congr (h : Consistent s) (htree : s'.kernel.tree = s.kernel.tree)
    (hcwd : s'.kernel.cwd = s.kernel.cwd) (hwatches : s'.kernel.watches = s.kernel.watches)
    (hnextWd : s'.kernel.nextWd = s.kernel.nextWd) (hpath2wd : s'.path2wd = s.path2wd)
    (hwd2path : s'.wd2path = s.wd2path) : Consistent s' := by
  refine ⟨htree ▸ h.tree, htree ▸ h.root, hnextWd ▸ h.nextWd, ?_, ?_, ?_, ?_, ?_⟩
  · rw [hwatches, hnextWd]
    exact h.watchLt
  · rw [hwatches]
    exact h.watchInj
  · rw [hwatches, hwd2path]
    exact h.known
  · rw [hpath2wd, hwd2path]
    exact h.inverse
  · intro path wd hpath
    obtain ⟨d, hd, hw⟩ := h.names path wd (hpath2wd ▸ hpath)
    refine ⟨d, resolve_congr hcwd ?_ hd, hwatches ▸ hw⟩
    rw [htree]
    exact fun _ _ _ _ _ => id

theorem inotifyRmWatch_watches (k : Kernel) (wd d : Nat) :
    (k.inotifyRmWatch wd).watches d
      = if k.watches d = some wd then none else k.watches d := rfl

/-- `inotify_add_watch` gives a new descriptor, and the path and the
descriptor go into both tables. -/
theorem Consistent.watch (h : Consistent s) {path : CString} {d : Nat} {stack : List Frame}
    (hd : s.kernel.resolve path = some d) (hnone : s.kernel.watches d = none) :
    Consistent (inotifyMonitorMarkDirectory
      { s with
        kernel := { s.kernel with
          watches := Function.update s.kernel.watches d (some s.kernel.nextWd)
          nextWd := s.kernel.nextWd + 1 }
        stack } s.kernel.nextWd path) := by
  have hfresh : ∀ a w, s.kernel.watches a = some w → w ≠ s.kernel.nextWd :=
    fun a w hw => Nat.ne_of_lt (h.watchLt a w hw).2
  have hpath : s.path2wd path = none := by
    refine Option.eq_none_iff_forall_ne_some.mpr fun w hw => ?_
    obtain ⟨a, ha, hwatch⟩ := h.names path w hw
    rw [hd] at ha
    cases ha
    rw [hnone] at hwatch
    cases hwatch
  have hwd : s.wd2path s.kernel.nextWd = none := by
    refine Option.eq_none_iff_forall_ne_some.mpr fun q hq => ?_
    obtain ⟨a, -, hwatch⟩ := h.names q _ ((h.inverse _ _).mpr hq)
    exact hfresh a _ hwatch rfl
  refine ⟨h.tree, h.root, Nat.succ_pos _, ?_, ?_, ?_, h.inverse.insert hpath hwd, ?_⟩
  · intro a w hw
    rcases update_some_cases hw with ⟨-, rfl⟩ | ⟨-, hw⟩
    · exact ⟨h.nextWd, Nat.lt_succ_self _⟩
    · exact ⟨(h.watchLt a w hw).1, Nat.lt_succ_of_lt (h.watchLt a w hw).2⟩
  · exact update_some_inj h.watchInj fun a hw => hfresh a _ hw rfl
  · intro a w hw
    show ∃ q, Function.update s.wd2path s.kernel.nextWd (some path) w = some q
    rcases update_some_cases hw with ⟨rfl, rfl⟩ | ⟨-, hw⟩
    · exact ⟨path, Function.update_self ..⟩
    · obtain ⟨q, hq⟩ := h.known a w hw
      exact ⟨q, by rw [Function.update_of_ne (hfresh a w hw), hq]⟩
  · intro q w hq
    rcases update_some_cases hq with ⟨rfl, rfl⟩ | ⟨-, hq⟩
    · exact ⟨d, hd, Function.update_self ..⟩
    · obtain ⟨a, ha, hw⟩ := h.names q w hq
      exact ⟨a, ha, update_of_some hnone _ hw⟩

/-- The descriptor and the path are taken out of both tables, and the watch
is removed. -/
theorem Consistent.unmark (h : Consistent s) (path : CString) :
    Consistent (inotifyMonitorUnmarkDirectory s path) := by
  unfold inotifyMonitorUnmarkDirectory
  split
  · next hnone =>
    have hpath : Function.update s.path2wd path none = s.path2wd := by
      rw [← hnone, Function.update_eq_self]
    exact h.congr rfl rfl rfl rfl hpath rfl
  · next wd hwd =>
    obtain ⟨d, hd, hwatch⟩ := h.names path wd hwd
    rw [if_neg (Nat.ne_of_gt (h.watchLt d wd hwatch).1)]
    have hcases : ∀ a w, (s.kernel.inotifyRmWatch wd).watches a = some w →
        s.kernel.watches a = some w ∧ w ≠ wd := by
      intro a w hw
      rw [inotifyRmWatch_watches] at hw
      by_cases heq : s.kernel.watches a = some wd
      · rw [if_pos heq] at hw
        cases hw
      · rw [if_neg heq] at hw
        refine ⟨hw, ?_⟩
        rintro rfl
        exact heq hw
    refine ⟨h.tree, h.root, h.nextWd, fun a w hw => h.watchLt a w (hcases a w hw).1,
      fun a b w ha hb => h.watchInj a b w (hcases a w ha).1 (hcases b w hb).1, ?_,
      h.inverse.erase hwd, ?_⟩
    · intro a w hw
      obtain ⟨hw, hne⟩ := hcases a w hw
      obtain ⟨q, hq⟩ := h.known a w hw
      exact ⟨q, (Function.update_of_ne hne ..).trans hq⟩
    · intro q w hq
      obtain ⟨hneq, hold⟩ := update_none_cases hq
      obtain ⟨a, ha, hw⟩ := h.names q w hold
      have hne : w ≠ wd := by
        rintro rfl
        exact hneq (h.inverse.left_inj hold hwd)
      refine ⟨a, ha, ?_⟩
      rw [inotifyRmWatch_watches, hw, if_neg fun h => hne (Option.some.inj h)]

theorem Consistent.inotifyAddWatch (h : Consistent s) {ok : Bool}
    (hok : Steady s (.inotifyAddWatch ok)) (hstep : step s (.inotifyAddWatch ok) = some s') :
    Consistent s' := by
  simp only [step] at hstep
  split at hstep
  · next path stack hstack =>
    split at hstep
    · next d hd =>
      split at hstep
      · split at hstep
        · next wd hwd =>
          cases hstep
          obtain ⟨q, hq⟩ := h.known d wd hwd
          obtain rfl := hok path stack hstack d wd hd hwd q hq
          -- both entries are there already
          have hpath := (h.inverse q wd).mpr hq
          refine h.congr rfl rfl rfl rfl ?_ ?_
          · rw [inotifyMonitorMarkDirectory]
            rw [← hpath, Function.update_eq_self]
          · rw [inotifyMonitorMarkDirectory]
            rw [← hq, Function.update_eq_self]
        · next hnone =>
          cases hstep
          exact h.watch hd hnone
      · cases hstep
        exact h.congr rfl rfl rfl rfl rfl rfl
    · cases hstep
      exact h.congr rfl rfl rfl rfl rfl rfl
  · cases hstep

theorem step_consistent (s : State) (a : Label) (s' : State) (h : Consistent s)
    (hok : Steady s a) (hstep : step s a = some s') : Consistent s' := by
  cases a with
  | mkdir path name =>
    obtain ⟨k', hk, rfl⟩ := Option.map_eq_some_iff.mp hstep
    exact h.leaves (mkdir_leaves h.tree h.root hk) fun _ => False.elim
  | rmdir path name =>
    obtain ⟨k', hk, rfl⟩ := Option.map_eq_some_iff.mp hstep
    obtain ⟨dir, sub, hdir, hsub, hleaves⟩ := rmdir_leaves h.tree h.root hk
    refine h.leaves hleaves ?_
    rintro d rfl
    exact hok dir d hdir hsub
  | rename path name path' name' =>
    obtain ⟨k', hk, rfl⟩ := Option.map_eq_some_iff.mp hstep
    obtain ⟨dir, sub, dir', hdir, hsub, hdir', hleaves⟩ := rename_leaves h.tree h.root hk
    refine h.leaves hleaves ?_
    rintro d (rfl | hold)
    · exact hok.1 dir d hdir hsub
    · exact hok.2 dir' d hdir' hold
  | fileEvent event =>
    simp only [step] at hstep
    split at hstep
    · cases hstep
      exact h.congr rfl rfl rfl rfl rfl rfl
    · cases hstep
  | nextEntry =>
    simp only [step] at hstep
    split at hstep
    · cases hstep
      exact h.congr rfl rfl rfl rfl rfl rfl
    · split at hstep <;> cases hstep <;> exact h.congr rfl rfl rfl rfl rfl rfl
    · cases hstep
  | fanotifyMark ok =>
    simp only [step] at hstep
    split at hstep
    · split at hstep
      · split at hstep <;> cases hstep <;> exact h.congr rfl rfl rfl rfl rfl rfl
      · cases hstep
        exact h.congr rfl rfl rfl rfl rfl rfl
    · cases hstep
  | inotifyAddWatch ok => exact h.inotifyAddWatch hok hstep
  | opendir ok =>
    simp only [step] at hstep
    split at hstep
    · split at hstep
      · split at hstep <;> cases hstep <;> exact h.congr rfl rfl rfl rfl rfl rfl
      · cases hstep
        exact h.congr rfl rfl rfl rfl rfl rfl
    · cases hstep
  | readdir name dType =>
    simp only [step] at hstep
    split at hstep
    · split at hstep
      · split at hstep
        · cases hstep
          exact h
        · split at hstep <;> cases hstep <;> exact h.congr rfl rfl rfl rfl rfl rfl
      · cases hstep
    · cases hstep
  | closedir =>
    simp only [step] at hstep
    split at hstep
    · cases hstep
      exact h.congr rfl rfl rfl rfl rfl rfl
    · cases hstep
  | fanotifyUnmark ok =>
    simp only [step] at hstep
    split at hstep
    · split at hstep
      · split at hstep <;> cases hstep <;> exact h.congr rfl rfl rfl rfl rfl rfl
      · cases hstep
        exact h.congr rfl rfl rfl rfl rfl rfl
    · cases hstep
  | inotifyRmWatch =>
    simp only [step] at hstep
    split at hstep
    · next path stack _ =>
      cases hstep
      have hpop : Consistent { s with stack } := h.congr rfl rfl rfl rfl rfl rfl
      exact hpop.unmark path
    · cases hstep
  | inotifyEvent =>
    simp only [step] at hstep
    split at hstep
    · cases hstep
      exact h.congr rfl rfl rfl rfl rfl rfl
    · cases hstep

end

theorem start_consistent {entries : List MonitorEntry} {s : State} (h : IsStart entries s) :
    Consistent s := by
  refine ⟨h.tree, h.root, h.nextWd, ?_, ?_, ?_, ?_, ?_⟩
  · simp [h.watches]
  · simp [h.watches]
  · simp [h.watches]
  · intro path wd
    simp [h.path2wd, h.wd2path]
  · simp [h.path2wd]

/-- **The tables stay inverse, and their paths name directories**, in every
run in which what the tables lead to is neither removed, nor renamed or
replaced, and no directory is marked by a second path. -/
theorem tables_inverse {entries : List MonitorEntry} {s s' : State} {labels : List Label}
    (hs : IsStart entries s) (hok : Transition.AllSteps step Steady s labels)
    (hrun : Transition.run step s labels = some s') :
    (∀ path wd, s'.path2wd path = some wd ↔ s'.wd2path wd = some path) ∧
    ∀ path wd, s'.path2wd path = some wd →
      ∃ d, s'.kernel.resolve path = some d ∧ s'.kernel.watches d = some wd := by
  have h := Transition.run_invariant_of_allSteps step_consistent labels s s'
    (start_consistent hs) hok hrun
  exact ⟨h.inverse, h.names⟩

/-! ## Directories that are gone before they are marked, and after -/

theorem steady_addWatch {s : State} {path : CString} {stack : List Frame} {d : Nat} {ok : Bool}
    (hstack : s.stack = .addWatch path :: stack) (hd : s.kernel.resolve path = some d)
    (hnone : s.kernel.watches d = none) : Steady s (.inotifyAddWatch ok) := by
  intro path' stack' hstack' d' wd hd' hwd
  rw [hstack] at hstack'
  cases hstack'
  rw [hd] at hd'
  cases hd'
  rw [hnone] at hwd
  cases hwd

theorem steady_rmdir {s : State} {path : List CString} {name : CString} {dir sub : Nat}
    (hdir : s.kernel.tree.walk 0 path = some dir)
    (hsub : s.kernel.tree.lookup dir name = some sub) (hclear : Clear s sub) :
    Steady s (.rmdir path name) := by
  intro dir' sub' hdir' hsub'
  rw [hdir] at hdir'
  cases hdir'
  rw [hsub] at hsub'
  cases hsub'
  exact hclear

/-- `/s` is marked. -/
def markSrv : List Label :=
  [.nextEntry, .fanotifyMark true, .inotifyAddWatch true, .opendir true, .closedir, .nextEntry]

/-- `/s/b` is removed before the thread comes to its events, `/s/a` stays. -/
def goneRun : List Label :=
  markSrv ++ [.mkdir [['s']] ['b'], .rmdir [['s']] ['b'], .inotifyEvent, .fanotifyMark true,
    .opendir true, .inotifyEvent, .fanotifyUnmark true, .mkdir [['s']] ['a'], .inotifyEvent] ++
    markNew

theorem goneRun_steady : Transition.AllSteps step Steady srvStart goneRun := by
  have hclear : ∀ path wd, Function.update (fun _ : CString => none) srv (some 1) path = some wd →
      path = srv := by
    intro path wd h
    by_contra hne
    rw [Function.update_of_ne hne] at h
    cases h
  refine .cons trivial rfl (.cons trivial rfl (.cons (steady_addWatch rfl rfl rfl) rfl ?_))
  refine .cons trivial rfl (.cons trivial rfl (.cons trivial rfl (.cons trivial rfl ?_)))
  refine .cons (steady_rmdir rfl rfl ?_) rfl ?_
  · intro path wd h
    obtain rfl := hclear path wd h
    decide
  refine .cons trivial rfl (.cons trivial rfl (.cons trivial rfl (.cons trivial rfl ?_)))
  refine .cons trivial rfl (.cons trivial rfl (.cons trivial rfl (.cons trivial rfl ?_)))
  refine .cons (steady_addWatch rfl rfl rfl) rfl (.cons trivial rfl ?_)
  exact .cons trivial rfl (.cons trivial rfl (.cons trivial rfl trivial))

theorem tables_inverse_gone :
    ∃ s', Transition.run step srvStart goneRun = some s' ∧
      (s'.path2wd ['/', 's', '/', 'a'], s'.path2wd ['/', 's', '/', 'b']) = (some 2, none) ∧
      (∀ path wd, s'.path2wd path = some wd ↔ s'.wd2path wd = some path) ∧
      ∀ path wd, s'.path2wd path = some wd →
        ∃ d, s'.kernel.resolve path = some d ∧ s'.kernel.watches d = some wd := by
  have hend : (Transition.run step srvStart goneRun).map (fun s =>
      (s.path2wd ['/', 's', '/', 'a'], s.path2wd ['/', 's', '/', 'b'])) =
        some (some 2, none) := rfl
  obtain ⟨s', hrun, hend⟩ := Option.map_eq_some_iff.mp hend
  exact ⟨s', hrun, hend, tables_inverse srvStart_isStart goneRun_steady hrun⟩

/-- `/s/a` is created and marked. -/
def markSub : List Label :=
  markSrv ++ [.mkdir [['s']] ['a'], .inotifyEvent] ++ markNew

/-- Then it is removed, or renamed to `/s/b`. -/
def removedRun : List Label :=
  markSub ++ [.rmdir [['s']] ['a'], .inotifyEvent, .fanotifyUnmark true]

/-- A marked directory is renamed. -/
def renamedRun : List Label :=
  markSub ++ [.rename [['s']] ['a'] [['s']] ['b'], .inotifyEvent, .fanotifyUnmark true,
    .inotifyEvent] ++ markNew

/-- All events are processed, and `/s/a` is still in the tables. -/
theorem tables_stale :
    IsStart [⟨srv, .dir⟩] srvStart ∧
    (∃ s', Transition.run step srvStart removedRun = some s' ∧
      s'.stack = [] ∧ s'.kernel.pending = [] ∧
      ¬ ∀ path wd, s'.path2wd path = some wd → ∃ d, s'.kernel.resolve path = some d) ∧
    ∃ s', Transition.run step srvStart renamedRun = some s' ∧
      s'.stack = [] ∧ s'.kernel.pending = [] ∧
      ¬ ∀ path wd, s'.path2wd path = some wd ↔ s'.wd2path wd = some path := by
  refine ⟨srvStart_isStart, ?_, ?_⟩
  · have hend : (Transition.run step srvStart removedRun).map (fun s =>
        (s.stack, s.kernel.pending, s.path2wd ['/', 's', '/', 'a'],
          s.kernel.resolve ['/', 's', '/', 'a'])) = some ([], [], some 2, none) := rfl
    obtain ⟨s', hrun, hend⟩ := Option.map_eq_some_iff.mp hend
    rw [Prod.mk.injEq, Prod.mk.injEq, Prod.mk.injEq] at hend
    obtain ⟨hstack, hpending, hwd, hnone⟩ := hend
    refine ⟨s', hrun, hstack, hpending, fun h => ?_⟩
    obtain ⟨d, hd⟩ := h _ 2 hwd
    rw [hnone] at hd
    cases hd
  · have hend : (Transition.run step srvStart renamedRun).map (fun s =>
        (s.stack, s.kernel.pending, s.path2wd ['/', 's', '/', 'a'], s.wd2path 2)) =
          some ([], [], some 2, some ['/', 's', '/', 'b']) := rfl
    obtain ⟨s', hrun, hend⟩ := Option.map_eq_some_iff.mp hend
    rw [Prod.mk.injEq, Prod.mk.injEq, Prod.mk.injEq] at hend
    obtain ⟨hstack, hpending, hwd, hpath⟩ := hend
    refine ⟨s', hrun, hstack, hpending, fun h => ?_⟩
    have := (h _ 2).mp hwd
    rw [hpath] at this
    cases this

end Armadito.OnAccess.Monitor
