import Armadito.Lib.InverseTables
import Armadito.OnAccess.Monitor

/-!
# OnAccess.MonitorMarks

No directory escapes the monitor while directories are only created.

Every directory of the monitored trees is watched, or it is in the tree of
a directory that the thread is going to mark: from a frame of its stack, or
from an event that was not read yet. A directory is watched before it is
listed; so one that is created too late for the listing has its event.
-/

namespace Armadito.OnAccess.Monitor

open Armadito.Os

/-! ## Paths -/

theorem components_joinPath (path : CString) {name : CString} (h : IsEntry name) :
    components (joinPath path name) = components path ++ [name] := by
  rw [components, joinPath, List.splitOn_append_cons_self, List.splitOn_eq_singleton h.2,
    List.filter_append, components]
  congr 1
  simp [h.1]

/-- An entry of the directory that the path names. -/
theorem resolve_joinPath {k : Kernel} {path name : CString} {dir : Nat}
    (h : k.resolve path = some dir) (hname : IsEntry name) :
    k.resolve (joinPath path name) = k.tree.lookup dir name := by
  have hne : path ≠ [] := by
    rintro rfl
    cases h
  have hbase : k.base (joinPath path name) = k.base path := by
    obtain ⟨c, path, rfl⟩ := List.exists_cons_of_ne_nil hne
    rfl
  have hjoin : joinPath path name ≠ [] := by simp [joinPath]
  rw [Kernel.resolve, if_neg hne] at h
  rw [Kernel.resolve, if_neg hjoin, hbase, components_joinPath path hname, DirTree.walk_concat, h]
  rfl

section

variable {k : Kernel} {dir : Nat} {mask : Nat} {name : CString}

@[simp] theorem notify_tree : (k.notify dir mask name).tree = k.tree := by
  unfold Kernel.notify
  split <;> rfl

@[simp] theorem notify_cwd : (k.notify dir mask name).cwd = k.cwd := by
  unfold Kernel.notify
  split <;> rfl

@[simp] theorem notify_fanMarks : (k.notify dir mask name).fanMarks = k.fanMarks := by
  unfold Kernel.notify
  split <;> rfl

@[simp] theorem notify_watches : (k.notify dir mask name).watches = k.watches := by
  unfold Kernel.notify
  split <;> rfl

@[simp] theorem notify_nextWd : (k.notify dir mask name).nextWd = k.nextWd := by
  unfold Kernel.notify
  split <;> rfl

theorem notify_pending :
    (k.notify dir mask name).pending = k.pending ++
      ((k.watches dir).map fun wd => ⟨wd, mask, some name⟩).toList := by
  unfold Kernel.notify
  split <;> simp_all

end

theorem resolve_lt {k : Kernel} (hwf : k.tree.WF) (hroot : 0 < k.tree.next)
    (hcwd : k.cwd < k.tree.next) {path : CString} {dir : Nat}
    (h : k.resolve path = some dir) : dir < k.tree.next := by
  unfold Kernel.resolve at h
  split at h
  · cases h
  · refine hwf.walk_lt _ _ ?_ h
    unfold Kernel.base
    split
    · exact hroot
    · exact hcwd

/-! ## Creation -/

/-- What `mkdir` does to the tree. -/
structure Created (t t' : DirTree CString) (dir : Nat) (name : CString) : Prop where
  next : t'.next = t.next + 1
  dir_lt : dir < t.next
  isName : IsName name
  absent : t.lookup dir name = none
  new : t'.lookup dir name = some t.next
  old : ∀ a n b, t.lookup a n = some b → t'.lookup a n = some b
  only : ∀ a, a ≠ t.next → ∀ n b, t'.lookup a n = some b →
    t.lookup a n = some b ∨ a = dir ∧ n = name ∧ b = t.next
  empty : ∀ n b, t'.lookup t.next n = some b → isDotOrDotDot n = true ∧ b ≤ t.next

theorem mkdir_created {k k' : Kernel} (hwf : k.tree.WF) (hroot : 0 < k.tree.next)
    {path : List CString} {name : CString} (h : k.mkdir path name = some k') :
    ∃ dir, Created k.tree k'.tree dir name ∧ k'.cwd = k.cwd ∧ k'.fanMarks = k.fanMarks ∧
      k'.watches = k.watches ∧ k'.nextWd = k.nextWd ∧
      k'.pending = k.pending ++
        ((k.watches dir).map fun wd => ⟨wd, inCreate ||| inIsdir, some name⟩).toList := by
  obtain ⟨dir, hdir, h⟩ := Option.bind_eq_some_iff.mp h
  have hlt : dir < k.tree.next := hwf.walk_lt path 0 hroot hdir
  split at h
  · next hok =>
    obtain ⟨hname, habsent⟩ := hok
    cases h
    refine ⟨dir, ?_, by simp, by simp, by simp, by simp, by simp [notify_pending]⟩
    have hne : dir ≠ k.tree.next := Nat.ne_of_lt hlt
    refine ⟨by simp, hlt, hname, habsent, ?_, ?_, ?_, ?_⟩
    · simp [DirTree.lookup_link]
    · intro a n b hb
      rw [notify_tree, DirTree.lookup_link, if_neg, DirTree.lookup_newDir,
        if_neg (Nat.ne_of_lt (hwf a n b hb).1), hb]
      rintro ⟨rfl, rfl⟩
      rw [habsent] at hb
      cases hb
    · intro a ha n b hb
      rw [notify_tree, DirTree.lookup_link] at hb
      split at hb
      · next heq =>
        cases hb
        exact .inr ⟨heq.1, heq.2, rfl⟩
      · rw [DirTree.lookup_newDir, if_neg ha] at hb
        exact .inl hb
    · intro n b hb
      rw [notify_tree, DirTree.lookup_link, if_neg fun heq => hne heq.1.symm,
        DirTree.lookup_newDir, if_pos rfl] at hb
      rcases List.mem_cons.mp (DirTree.mem_of_lookup hb) with heq | hmem
      · cases heq
        exact ⟨rfl, Nat.le_refl _⟩
      · obtain heq := List.mem_singleton.mp hmem
        cases heq
        exact ⟨rfl, Nat.le_of_lt hlt⟩
  · cases h

namespace Created

variable {t t' : DirTree CString} {dir : Nat} {name : CString}

theorem wf (h : Created t t' dir name) (hwf : t.WF) : t'.WF := by
  intro a n b hb
  rw [h.next]
  by_cases ha : a = t.next
  · subst ha
    exact ⟨Nat.lt_succ_self _, Nat.lt_succ_of_le (h.empty n b hb).2⟩
  · rcases h.only a ha n b hb with hold | ⟨rfl, -, rfl⟩
    · have := hwf a n b hold
      omega
    · exact ⟨Nat.lt_succ_of_lt h.dir_lt, Nat.lt_succ_self _⟩

/-- What is below a directory afterwards was there before, or is the new
directory below its parent. -/
theorem below (h : Created t t' dir name) (hwf : t.WF) {r d : Nat} (hr : r < t.next)
    (hbelow : t'.Below IsName r d) :
    t.Below IsName r d ∨ d = t.next ∧ t.Below IsName r dir := by
  induction hbelow with
  | refl => exact .inl .refl
  | tail _ hsub ih =>
    obtain ⟨n, hn, hlookup⟩ := hsub
    rcases ih with hold | ⟨rfl, -⟩
    · rcases h.only _ (Nat.ne_of_lt (hwf.below_lt hr hold)) n _ hlookup with
        hb | ⟨rfl, rfl, rfl⟩
      · exact .inl (hold.tail ⟨n, hn, hb⟩)
      · exact .inr ⟨rfl, hold⟩
    · exact absurd (h.empty n _ hlookup).1 (by simp [hn.2])

end Created

/-! ## What is going to be marked -/

/-- A configured directory, or one below it by its names. -/
inductive OwnPath (entries : List MonitorEntry) : CString → Prop where
  | entry {e : MonitorEntry} : e ∈ entries → e.flag = .dir → OwnPath entries e.path
  | child {path name : CString} :
      OwnPath entries path → IsName name → OwnPath entries (joinPath path name)

/-- The frame is going to mark the tree of the directory. -/
def Frame.targets (k : Kernel) : Frame → Nat → Prop
  | .markEntries rest, d => ∃ e ∈ rest, e.flag = .dir ∧ k.resolve e.path = some d
  | .markFan path, d | .addWatch path, d => k.resolve path = some d
  | .openDir path, d =>
    ∃ dir name, k.resolve path = some dir ∧ IsName name ∧ k.tree.lookup dir name = some d
  | .listing _ dir due, d => ∃ name ∈ due, IsName name ∧ k.tree.lookup dir name = some d
  | .unmarkFan _, _ | .rmWatch _, _ => False

/-- The event says that the directory was created. -/
def InotifyEvent.targets (k : Kernel) (event : InotifyEvent) (d : Nat) : Prop :=
  event.mask &&& inIsdir ≠ 0 ∧ ∃ dir name, k.watches dir = some event.wd ∧
    event.name = some name ∧ IsName name ∧ k.tree.lookup dir name = some d

/-- A directory that the monitor has yet to come to. -/
def Target (s : State) (d : Nat) : Prop :=
  (∃ frame ∈ s.stack, frame.targets s.kernel d) ∨
    ∃ event ∈ s.kernel.pending, event.targets s.kernel d

/-- Watched, or going to be. -/
def Covered (s : State) (d : Nat) : Prop :=
  s.kernel.watches d ≠ none ∨ ∃ j, Target s j ∧ s.kernel.tree.Below IsName j d

/-- Nothing is taken away. -/
structure Grows (k k' : Kernel) : Prop where
  cwd : k'.cwd = k.cwd
  lookup : ∀ a name b, k.tree.lookup a name = some b → k'.tree.lookup a name = some b
  watches : ∀ dir wd, k.watches dir = some wd → k'.watches dir = some wd
  fanMarks : ∀ dir, k.fanMarks dir = true → k'.fanMarks dir = true

section

variable {k k' : Kernel} {d : Nat}

theorem Grows.resolve (g : Grows k k') {path : CString} (h : k.resolve path = some d) :
    k'.resolve path = some d := by
  unfold Kernel.resolve at h ⊢
  split at h
  · cases h
  · next hne =>
    rw [if_neg hne]
    have hbase : k'.base path = k.base path := by rw [Kernel.base, Kernel.base, g.cwd]
    rw [hbase]
    exact DirTree.walk_mono g.lookup h

theorem Frame.targets_mono (g : Grows k k') {frame : Frame} (h : frame.targets k d) :
    frame.targets k' d := by
  cases frame with
  | markEntries rest =>
    obtain ⟨e, he, hflag, hpath⟩ := h
    exact ⟨e, he, hflag, g.resolve hpath⟩
  | markFan path => exact g.resolve h
  | addWatch path => exact g.resolve h
  | openDir path =>
    obtain ⟨dir, name, hdir, hname, hlookup⟩ := h
    exact ⟨dir, name, g.resolve hdir, hname, g.lookup _ _ _ hlookup⟩
  | listing path dir due =>
    obtain ⟨name, hmem, hname, hlookup⟩ := h
    exact ⟨name, hmem, hname, g.lookup _ _ _ hlookup⟩
  | unmarkFan path => exact h
  | rmWatch path => exact h

theorem InotifyEvent.targets_mono (g : Grows k k') {event : InotifyEvent}
    (h : event.targets k d) : event.targets k' d := by
  obtain ⟨hdir, dir, name, hwatch, hname, hok, hlookup⟩ := h
  exact ⟨hdir, dir, name, g.watches _ _ hwatch, hname, hok, g.lookup _ _ _ hlookup⟩

/-- What a frame or an event was going to mark stays covered when the frame
or the event stays, or what it was going to mark is covered otherwise. -/
theorem Covered.grow {s s' : State} (g : Grows s.kernel s'.kernel)
    (hstack : ∀ frame ∈ s.stack, frame ∈ s'.stack ∨
      ∀ j d, frame.targets s.kernel j → s.kernel.tree.Below IsName j d → Covered s' d)
    (hpending : ∀ event ∈ s.kernel.pending, event ∈ s'.kernel.pending ∨
      ∀ j d, event.targets s.kernel j → s.kernel.tree.Below IsName j d → Covered s' d)
    (h : Covered s d) : Covered s' d := by
  rcases h with hwatch | ⟨j, ⟨frame, hmem, htarget⟩ | ⟨event, hmem, htarget⟩, hbelow⟩
  · obtain ⟨wd, hwd⟩ := Option.ne_none_iff_exists'.mp hwatch
    exact .inl (by simp [g.watches d wd hwd])
  · rcases hstack frame hmem with hstay | hdone
    · exact .inr ⟨j, .inl ⟨frame, hstay, Frame.targets_mono g htarget⟩, hbelow.mono g.lookup⟩
    · exact hdone j d htarget hbelow
  · rcases hpending event hmem with hstay | hdone
    · exact .inr ⟨j, .inr ⟨event, hstay, InotifyEvent.targets_mono g htarget⟩, hbelow.mono g.lookup⟩
    · exact hdone j d htarget hbelow

end

/-! ## The invariant -/

/-- The frame is about a path of its own. -/
def FrameOk (entries : List MonitorEntry) (k : Kernel) : Frame → Prop
  | .markEntries rest => ∀ e ∈ rest, e ∈ entries
  | .markFan path | .openDir path => OwnPath entries path
  | .addWatch path =>
    OwnPath entries path ∧ ∃ dir, k.resolve path = some dir ∧ k.fanMarks dir = true
  | .listing path dir _ => OwnPath entries path ∧ k.resolve path = some dir
  | .unmarkFan _ | .rmWatch _ => False

/-- A watched directory is marked, and the table knows it by a path of its
own. -/
structure Tables (entries : List MonitorEntry) (k : Kernel)
    (wd2path : Nat → Option CString) : Prop where
  tree : k.tree.WF
  root : 0 < k.tree.next
  cwd : k.cwd < k.tree.next
  watchLt : ∀ dir wd, k.watches dir = some wd → wd < k.nextWd
  watchInj : ∀ dir dir' wd, k.watches dir = some wd → k.watches dir' = some wd → dir = dir'
  marked : ∀ dir wd, k.watches dir = some wd →
    k.fanMarks dir = true ∧ ∃ path, wd2path wd = some path
  paths : ∀ wd path, wd2path wd = some path →
    OwnPath entries path ∧ ∃ dir, k.resolve path = some dir ∧ k.watches dir = some wd

/-- Every directory below one of the roots is covered. -/
structure Marking (entries : List MonitorEntry) (roots : Nat → Prop) (s : State) : Prop where
  tables : Tables entries s.kernel s.wd2path
  frames : ∀ frame ∈ s.stack, FrameOk entries s.kernel frame
  events : ∀ event ∈ s.kernel.pending, event.mask &&& inIsdir ≠ 0 →
    event.mask &&& inCreate ≠ 0 ∧ ∀ name, event.name = some name → IsName name
  rootsLt : ∀ r, roots r → r < s.kernel.tree.next
  covered : ∀ r, roots r → ∀ d, s.kernel.tree.Below IsName r d → Covered s d

section

variable {entries : List MonitorEntry} {roots : Nat → Prop} {k k' : Kernel}
  {wd2path : Nat → Option CString} {s s' : State}

theorem FrameOk.mono (g : Grows k k') {frame : Frame} (h : FrameOk entries k frame) :
    FrameOk entries k' frame := by
  cases frame with
  | markEntries rest => exact h
  | markFan path => exact h
  | addWatch path =>
    obtain ⟨hown, dir, hdir, hmark⟩ := h
    exact ⟨hown, dir, g.resolve hdir, g.fanMarks dir hmark⟩
  | openDir path => exact h
  | listing path dir due => exact ⟨h.1, g.resolve h.2⟩
  | unmarkFan path => exact h
  | rmWatch path => exact h

theorem Marking.top (h : Marking entries roots s) {frame : Frame} {stack : List Frame}
    (hstack : s.stack = frame :: stack) : FrameOk entries s.kernel frame :=
  h.frames frame (hstack ▸ List.mem_cons_self)

/-- The thread moves on in an unchanged tree. -/
theorem Marking.advance (h : Marking entries roots s) (g : Grows s.kernel s'.kernel)
    (htree : s'.kernel.tree = s.kernel.tree)
    (hpending : s'.kernel.pending = s.kernel.pending)
    (htables : Tables entries s'.kernel s'.wd2path)
    {frame : Frame} {stack : List Frame} (new : List Frame)
    (hstack : s.stack = frame :: stack) (hstack' : s'.stack = new ++ stack)
    (hnew : ∀ fr ∈ new, FrameOk entries s'.kernel fr)
    (htarget : ∀ j d, frame.targets s.kernel j → s.kernel.tree.Below IsName j d →
      s'.kernel.watches d ≠ none ∨
        ∃ fr ∈ new, ∃ j', fr.targets s'.kernel j' ∧ s'.kernel.tree.Below IsName j' d) :
    Marking entries roots s' := by
  refine ⟨htables, ?_, ?_, ?_, ?_⟩
  · intro fr hmem
    rw [hstack'] at hmem
    rcases List.mem_append.mp hmem with hmem | hmem
    · exact hnew fr hmem
    · exact (h.frames fr (hstack ▸ List.mem_cons_of_mem _ hmem)).mono g
  · rw [hpending]
    exact h.events
  · rw [htree]
    exact h.rootsLt
  · intro r hr d hbelow
    rw [htree] at hbelow
    refine (h.covered r hr d hbelow).grow g ?_ ?_
    · intro fr hmem
      rw [hstack] at hmem
      rcases List.mem_cons.mp hmem with rfl | hmem
      · refine .inr fun j d hj hd => ?_
        rcases htarget j d hj hd with hwatch | ⟨fr, hfr, j', hj', hd'⟩
        · exact .inl hwatch
        · exact .inr ⟨j', .inl ⟨fr, hstack' ▸ List.mem_append_left _ hfr, hj'⟩, hd'⟩
      · exact .inl (hstack' ▸ List.mem_append_right _ hmem)
    · intro event hmem
      exact .inl (hpending ▸ hmem)

theorem Grows.refl (k : Kernel) : Grows k k :=
  ⟨rfl, fun _ _ _ => id, fun _ _ => id, fun _ => id⟩

theorem Grows.withPending (k : Kernel) (pending : List InotifyEvent) :
    Grows k { k with pending } :=
  ⟨rfl, fun _ _ _ => id, fun _ _ => id, fun _ => id⟩

/-- `fanotify_mark`. -/
theorem Tables.mark (h : Tables entries k wd2path) (dir : Nat) :
    Grows k { k with fanMarks := Function.update k.fanMarks dir true } ∧
      Tables entries { k with fanMarks := Function.update k.fanMarks dir true } wd2path := by
  have hmark : ∀ a, k.fanMarks a = true → Function.update k.fanMarks dir true a = true := by
    intro a ha
    by_cases heq : a = dir
    · rw [heq, Function.update_self]
    · rw [Function.update_of_ne heq, ha]
  refine ⟨⟨rfl, fun _ _ _ => id, fun _ _ => id, hmark⟩, { h with marked := ?_ }⟩
  intro a wd hwd
  exact ⟨hmark a (h.marked a wd hwd).1, (h.marked a wd hwd).2⟩

/-- `inotify_add_watch` on a directory that has a watch. -/
theorem Tables.rewatch (h : Tables entries k wd2path) {path : CString} {dir wd : Nat}
    (hown : OwnPath entries path) (hdir : k.resolve path = some dir)
    (hwd : k.watches dir = some wd) :
    Tables entries k (Function.update wd2path wd (some path)) := by
  refine { h with marked := ?_, paths := ?_ }
  · intro a w hw
    obtain ⟨hmark, q, hq⟩ := h.marked a w hw
    refine ⟨hmark, ?_⟩
    by_cases heq : w = wd
    · exact ⟨path, by rw [heq, Function.update_self]⟩
    · exact ⟨q, by rw [Function.update_of_ne heq, hq]⟩
  · intro w q hq
    rcases update_some_cases hq with ⟨rfl, rfl⟩ | ⟨-, hq⟩
    · exact ⟨hown, dir, hdir, hwd⟩
    · exact h.paths w q hq

/-- `inotify_add_watch` on a directory without a watch. -/
theorem Tables.watch (h : Tables entries k wd2path) {path : CString} {dir : Nat}
    (hown : OwnPath entries path) (hdir : k.resolve path = some dir)
    (hmark : k.fanMarks dir = true) (hnone : k.watches dir = none) :
    let k' := { k with
      watches := Function.update k.watches dir (some k.nextWd)
      nextWd := k.nextWd + 1 }
    Grows k k' ∧ Tables entries k' (Function.update wd2path k.nextWd (some path)) := by
  have hold : ∀ a w, k.watches a = some w →
      Function.update k.watches dir (some k.nextWd) a = some w :=
    fun a w => update_of_some hnone _
  have hfresh : ∀ a w, k.watches a = some w → w ≠ k.nextWd :=
    fun a w hw => Nat.ne_of_lt (h.watchLt a w hw)
  refine ⟨⟨rfl, fun _ _ _ => id, hold, fun _ => id⟩,
    { tree := h.tree, root := h.root, cwd := h.cwd, watchLt := ?_, watchInj := ?_,
      marked := ?_, paths := ?_ }⟩
  · intro a w hw
    rcases update_some_cases hw with ⟨-, rfl⟩ | ⟨-, hw⟩
    · exact Nat.lt_succ_self _
    · exact Nat.lt_succ_of_lt (h.watchLt a w hw)
  · exact update_some_inj h.watchInj fun a hw => hfresh a _ hw rfl
  · intro a w hw
    rcases update_some_cases hw with ⟨rfl, rfl⟩ | ⟨-, hw⟩
    · exact ⟨hmark, path, by rw [Function.update_self]⟩
    · obtain ⟨hm, q, hq⟩ := h.marked a w hw
      exact ⟨hm, q, by rw [Function.update_of_ne (hfresh a w hw), hq]⟩
  · intro w q hq
    rcases update_some_cases hq with ⟨rfl, rfl⟩ | ⟨-, hq⟩
    · exact ⟨hown, dir, hdir, Function.update_self ..⟩
    · obtain ⟨hq, a, ha, hw⟩ := h.paths w q hq
      exact ⟨hq, a, ha, hold a w hw⟩

/-! ## The steps -/

/-- A directory is created: below a watched one it has its event. -/
theorem Marking.mkdir (h : Marking entries roots s) {path : List CString} {name : CString}
    (hk : s.kernel.mkdir path name = some k') :
    Marking entries roots { s with kernel := k' } := by
  have ht := h.tables
  obtain ⟨dir, hcreated, hcwd, hfan, hwatches, hnext, hpending⟩ :=
    mkdir_created ht.tree ht.root hk
  have g : Grows s.kernel k' :=
    ⟨hcwd, hcreated.old, fun a w hw => hwatches ▸ hw, fun a ha => hfan ▸ ha⟩
  have hlt : s.kernel.tree.next ≤ k'.tree.next := hcreated.next ▸ Nat.le_succ _
  refine ⟨⟨hcreated.wf ht.tree, Nat.lt_of_lt_of_le ht.root hlt,
    hcwd ▸ Nat.lt_of_lt_of_le ht.cwd hlt, ?_, ?_, ?_, ?_⟩, ?_, ?_, ?_, ?_⟩
  · rw [hwatches, hnext]
    exact ht.watchLt
  · rw [hwatches]
    exact ht.watchInj
  · rw [hwatches, hfan]
    exact ht.marked
  · intro wd q hq
    obtain ⟨hown, a, ha, hw⟩ := ht.paths wd q hq
    exact ⟨hown, a, g.resolve ha, g.watches a wd hw⟩
  · exact fun frame hmem => (h.frames frame hmem).mono g
  · intro event hmem
    rw [hpending] at hmem
    rcases List.mem_append.mp hmem with hmem | hmem
    · exact h.events event hmem
    · obtain ⟨wd, -, rfl⟩ := Option.map_eq_some_iff.mp (Option.mem_toList.mp hmem)
      refine fun _ => ⟨(by decide : (inCreate ||| inIsdir) &&& inCreate ≠ 0), ?_⟩
      rintro _ ⟨⟩
      exact hcreated.isName
  · exact fun r hr => Nat.lt_of_lt_of_le (h.rootsLt r hr) hlt
  · intro r hr d hbelow
    rcases hcreated.below ht.tree (h.rootsLt r hr) hbelow with hold | ⟨rfl, hparent⟩
    · refine (h.covered r hr d hold).grow g (fun frame hmem => .inl hmem) ?_
      exact fun event hmem => .inl (hpending ▸ List.mem_append_left _ hmem)
    · -- the new directory: by its event, or with its parent
      rcases h.covered r hr dir hparent with hwatch | ⟨j, htarget, hbelow⟩
      · obtain ⟨wd, hwd⟩ := Option.ne_none_iff_exists'.mp hwatch
        refine .inr ⟨_, .inr ⟨⟨wd, inCreate ||| inIsdir, some name⟩, ?_,
          (by decide : (inCreate ||| inIsdir) &&& inIsdir ≠ 0), dir, name, g.watches dir wd hwd,
          rfl, hcreated.isName, hcreated.new⟩, .refl⟩
        rw [hpending, hwd]
        exact List.mem_append_right _ List.mem_cons_self
      · refine .inr ⟨j, ?_, (hbelow.mono g.lookup).tail ⟨name, hcreated.isName, hcreated.new⟩⟩
        rcases htarget with ⟨frame, hmem, hj⟩ | ⟨event, hmem, hj⟩
        · exact .inl ⟨frame, hmem, Frame.targets_mono g hj⟩
        · exact .inr ⟨event, hpending ▸ List.mem_append_left _ hmem,
            InotifyEvent.targets_mono g hj⟩

/-- The path of the event's directory, and the directory it names. -/
theorem Marking.inotifyEvent (h : Marking entries roots s) {event : InotifyEvent}
    {pending : List InotifyEvent} (hstack : s.stack = [])
    (hpending : s.kernel.pending = event :: pending) :
    Marking entries roots { s with
      kernel := { s.kernel with pending }
      stack := inotifyEventProcess s event } := by
  have ht := h.tables
  have hevent := h.events event (hpending ▸ List.mem_cons_self)
  refine ⟨⟨ht.tree, ht.root, ht.cwd, ht.watchLt, ht.watchInj, ht.marked, ht.paths⟩, ?_, ?_,
    h.rootsLt, ?_⟩
  · intro frame hmem
    unfold inotifyEventProcess at hmem
    split at hmem
    · cases hmem
    · next hdir =>
      split at hmem
      · cases hmem
      · next fullPath hfull =>
        rw [if_pos (.inl (hevent hdir).1)] at hmem
        obtain rfl := List.mem_singleton.mp hmem
        show OwnPath entries fullPath
        unfold inotifyEventFullPath at hfull
        split at hfull
        · cases hfull
        · next path hpath =>
          have hown := (ht.paths _ path hpath).1
          split at hfull
          · next name hname =>
            cases hfull
            exact hown.child ((hevent hdir).2 name hname)
          · cases hfull
            exact hown
  · exact fun e hmem => h.events e (hpending ▸ List.mem_cons_of_mem _ hmem)
  · intro r hr d hbelow
    refine (h.covered r hr d hbelow).grow (.withPending s.kernel _) ?_ ?_
    · intro frame hmem
      rw [hstack] at hmem
      cases hmem
    · intro e hmem
      rw [hpending] at hmem
      rcases List.mem_cons.mp hmem with rfl | hmem
      · refine .inr fun j d' hj hd' => .inr ⟨j, .inl ?_, hd'⟩
        obtain ⟨hdir, dir, name, hwatch, hname, hok, hlookup⟩ := hj
        obtain ⟨-, path, hpath⟩ := ht.marked dir _ hwatch
        obtain ⟨-, dir', hdir', hwatch'⟩ := ht.paths _ path hpath
        obtain rfl := ht.watchInj _ _ _ hwatch hwatch'
        have hprocess : inotifyEventProcess s e = [.markFan (joinPath path name)] := by
          rw [inotifyEventProcess, if_neg hdir]
          simp only [inotifyEventFullPath, hpath, hname]
          exact if_pos (.inl (hevent hdir).1)
        rw [hprocess]
        refine ⟨_, List.mem_singleton_self _, ?_⟩
        show s.kernel.resolve (joinPath path name) = some j
        rw [resolve_joinPath hdir' hok.1]
        exact hlookup
      · exact .inl hmem

theorem Marking.fileEvent (h : Marking entries roots s) {event : InotifyEvent}
    (hfile : event.mask &&& inIsdir = 0) :
    Marking entries roots { s with
      kernel := { s.kernel with pending := s.kernel.pending ++ [event] } } := by
  have ht := h.tables
  refine ⟨⟨ht.tree, ht.root, ht.cwd, ht.watchLt, ht.watchInj, ht.marked, ht.paths⟩, h.frames,
    ?_, h.rootsLt, ?_⟩
  · intro e hmem
    rcases List.mem_append.mp hmem with hmem | hmem
    · exact h.events e hmem
    · obtain rfl := List.mem_singleton.mp hmem
      exact fun hdir => absurd hfile hdir
  · intro r hr d hbelow
    exact (h.covered r hr d hbelow).grow (.withPending s.kernel _) (fun frame hmem => .inl hmem)
      fun e hmem => .inl (List.mem_append_left _ hmem)

/-- The next of the configured entries. -/
theorem Marking.nextEntry (h : Marking entries roots s) (hstep : step s .nextEntry = some s') :
    Marking entries roots s' := by
  have ht := h.tables
  simp only [step] at hstep
  split at hstep
  · next stack hstack =>
    cases hstep
    refine h.advance (.refl _) rfl rfl ht [] hstack rfl (by simp) ?_
    rintro j d ⟨e, he, -⟩
    cases he
  · next e rest stack hstack =>
    have hframe : ∀ e' ∈ e :: rest, e' ∈ entries := h.top hstack
    have hrest : FrameOk entries s.kernel (.markEntries rest) :=
      fun e' he' => hframe e' (List.mem_cons_of_mem e he')
    split at hstep
    · next hflag =>
      cases hstep
      refine h.advance (.refl _) rfl rfl ht [.markFan e.path, .markEntries rest]
        hstack rfl ?_ ?_
      · intro fr hmem
        rcases List.mem_cons.mp hmem with rfl | hmem
        · exact .entry (hframe e List.mem_cons_self) hflag
        · obtain rfl := List.mem_singleton.mp hmem
          exact hrest
      · rintro j d ⟨e', he', hflag', hpath⟩ hd
        rcases List.mem_cons.mp he' with rfl | he'
        · exact .inr ⟨_, List.mem_cons_self, j, hpath, hd⟩
        · exact .inr ⟨_, List.mem_cons_of_mem _ List.mem_cons_self, j,
            ⟨e', he', hflag', hpath⟩, hd⟩
    · next hflag =>
      cases hstep
      refine h.advance (.refl _) rfl rfl ht [.markEntries rest] hstack rfl ?_ ?_
      · intro fr hmem
        obtain rfl := List.mem_singleton.mp hmem
        exact hrest
      · rintro j d ⟨e', he', hflag', hpath⟩ hd
        rcases List.mem_cons.mp he' with rfl | he'
        · rw [hflag] at hflag'
          cases hflag'
        · exact .inr ⟨_, List.mem_cons_self, j, ⟨e', he', hflag', hpath⟩, hd⟩
  · cases hstep

/-- A path that names no directory is on no one's way. -/
theorem Marking.fanotifyMark (h : Marking entries roots s)
    (hstep : step s (.fanotifyMark true) = some s') : Marking entries roots s' := by
  have ht := h.tables
  simp only [step, if_true] at hstep
  split at hstep
  · next path stack hstack =>
    have hown : OwnPath entries path := h.top hstack
    split at hstep
    · next dir hdir =>
      cases hstep
      obtain ⟨g, htables⟩ := ht.mark dir
      refine h.advance g rfl rfl htables [.addWatch path] hstack rfl ?_ ?_
      · intro fr hmem
        obtain rfl := List.mem_singleton.mp hmem
        exact ⟨hown, dir, hdir, Function.update_self ..⟩
      · exact fun j d hj hd => .inr ⟨_, List.mem_cons_self, j, hj, hd⟩
    · next hnone =>
      cases hstep
      refine h.advance (.refl _) rfl rfl ht [.openDir path] hstack rfl ?_ ?_
      · intro fr hmem
        obtain rfl := List.mem_singleton.mp hmem
        exact hown
      · intro j d hj
        rw [Frame.targets, hnone] at hj
        cases hj
  · cases hstep

/-- The directory is watched now; what is below it is left to the listing. -/
theorem Marking.inotifyAddWatch (h : Marking entries roots s)
    (hstep : step s (.inotifyAddWatch true) = some s') : Marking entries roots s' := by
  have ht := h.tables
  simp only [step, if_true] at hstep
  split at hstep
  · next path stack hstack =>
    obtain ⟨hown, dir, hdir, hmark⟩ : OwnPath entries path ∧ ∃ dir,
        s.kernel.resolve path = some dir ∧ s.kernel.fanMarks dir = true :=
      h.top hstack
    have hopen : ∀ {k : Kernel}, ∀ fr ∈ [Frame.openDir path], FrameOk entries k fr := by
      intro k fr hmem
      obtain rfl := List.mem_singleton.mp hmem
      exact hown
    -- the directory is watched now, what is below is left to the listing
    have htarget : ∀ {s' : State}, s'.kernel.resolve path = some dir →
        s'.kernel.tree = s.kernel.tree → s'.kernel.watches dir ≠ none →
        ∀ j d, (Frame.addWatch path).targets s.kernel j →
          s.kernel.tree.Below IsName j d → s'.kernel.watches d ≠ none ∨
            ∃ fr ∈ [Frame.openDir path], ∃ j', fr.targets s'.kernel j' ∧
              s'.kernel.tree.Below IsName j' d := by
      intro s' hdir' htree hwatch j d hj hd
      obtain rfl : dir = j := Option.some.inj (hdir.symm.trans hj)
      rcases hd.cases_head with rfl | ⟨name, sub, hname, hsub, hd⟩
      · exact .inl hwatch
      · exact .inr ⟨_, List.mem_cons_self, sub,
          ⟨dir, name, hdir', hname, htree ▸ hsub⟩, htree ▸ hd⟩
    rw [hdir] at hstep
    split at hstep
    · next dir' heq =>
      cases heq
      split at hstep
      · next wd hwd =>
        cases hstep
        refine h.advance (.refl _) rfl rfl (ht.rewatch hown hdir hwd)
          [.openDir path] hstack rfl hopen (htarget hdir rfl ?_)
        show s.kernel.watches dir ≠ none
        simp [hwd]
      · next hnone =>
        cases hstep
        obtain ⟨g, htables⟩ := ht.watch hown hdir hmark hnone
        refine h.advance g rfl rfl htables [.openDir path] hstack rfl hopen
          (htarget (g.resolve hdir) rfl ?_)
        show Function.update s.kernel.watches dir (some s.kernel.nextWd) dir ≠ none
        simp
    · next heq => cases heq
  · cases hstep

/-- Every directory there is now is due in the listing. -/
theorem Marking.opendir (h : Marking entries roots s)
    (hstep : step s (.opendir true) = some s') : Marking entries roots s' := by
  have ht := h.tables
  simp only [step, if_true] at hstep
  split at hstep
  · next path stack hstack =>
    have hown : OwnPath entries path := h.top hstack
    split at hstep
    · next dir hdir =>
      cases hstep
      refine h.advance (.refl _) rfl rfl ht
        [.listing path dir (s.kernel.tree.names dir)] hstack rfl ?_ ?_
      · intro fr hmem
        obtain rfl := List.mem_singleton.mp hmem
        exact ⟨hown, hdir⟩
      · rintro j d ⟨dir', name, hdir', hname, hlookup⟩ hd
        obtain rfl : dir = dir' := Option.some.inj (hdir.symm.trans hdir')
        exact .inr ⟨_, List.mem_cons_self, j,
          ⟨name, DirTree.mem_names hlookup, hname, hlookup⟩, hd⟩
    · next hnone =>
      cases hstep
      refine h.advance (.refl _) rfl rfl ht [] hstack rfl (by simp) ?_
      rintro j d ⟨dir', name, hdir', -⟩
      rw [hnone] at hdir'
      cases hdir'
  · cases hstep

/-- The subdirectory is marked next. -/
theorem Marking.readdir (h : Marking entries roots s) {name : CString} {dType : DType}
    (hstep : step s (.readdir name dType) = some s') :
    Marking entries roots s' := by
  have ht := h.tables
  simp only [step] at hstep
  split at hstep
  · next path dir due stack hstack =>
    have hframe : OwnPath entries path ∧ s.kernel.resolve path = some dir :=
      h.top hstack
    have hlisting : ∀ due', FrameOk entries s.kernel (.listing path dir due') :=
      fun _ => hframe
    split at hstep
    · next hentry =>
      split at hstep
      · cases hstep
        exact h
      · split at hstep
        · next hdot =>
          cases hstep
          refine h.advance (.refl _) rfl rfl ht [.listing path dir (due.erase name)]
            hstack rfl ?_ ?_
          · intro fr hmem
            obtain rfl := List.mem_singleton.mp hmem
            exact hlisting _
          · rintro j d ⟨name', hmem, hname', hlookup⟩ hd
            have hne : name' ≠ name := by
              rintro rfl
              rw [hname'.2] at hdot
              cases hdot
            exact .inr ⟨_, List.mem_cons_self, j,
              ⟨name', (List.mem_erase_of_ne hne).mpr hmem, hname', hlookup⟩, hd⟩
        · next hdot =>
          cases hstep
          have hname : IsName name := ⟨hentry, by simpa using hdot⟩
          refine h.advance (.refl _) rfl rfl ht
            [.markFan (joinPath path name), .listing path dir (due.erase name)]
            hstack rfl ?_ ?_
          · intro fr hmem
            rcases List.mem_cons.mp hmem with rfl | hmem
            · exact hframe.1.child hname
            · obtain rfl := List.mem_singleton.mp hmem
              exact hlisting _
          · rintro j d ⟨name', hmem, hname', hlookup⟩ hd
            by_cases heq : name' = name
            · subst heq
              refine .inr ⟨_, List.mem_cons_self, j, ?_, hd⟩
              show s.kernel.resolve (joinPath path name') = some j
              rw [resolve_joinPath hframe.2 hentry, hlookup]
            · exact .inr ⟨_, List.mem_cons_of_mem _ List.mem_cons_self, j,
                ⟨name', (List.mem_erase_of_ne heq).mpr hmem, hname', hlookup⟩, hd⟩
    · cases hstep
  · cases hstep

/-- Directories are created only, and no call on an existing one fails. -/
def CreatesOnly : Label → Prop
  | .rmdir _ _ | .rename _ _ _ _ => False
  | .fanotifyMark ok | .inotifyAddWatch ok | .opendir ok => ok = true
  | _ => True

theorem step_marking (s : State) (a : Label) (s' : State) (h : Marking entries roots s)
    (hok : CreatesOnly a) (hstep : step s a = some s') : Marking entries roots s' := by
  have ht := h.tables
  cases a with
  | mkdir path name =>
    simp only [step, State.withKernel] at hstep
    obtain ⟨k', hk, rfl⟩ := Option.map_eq_some_iff.mp hstep
    exact h.mkdir hk
  | rmdir path name => exact absurd hok id
  | rename path name path' name' => exact absurd hok id
  | fileEvent event =>
    simp only [step] at hstep
    split at hstep
    · next hfile =>
      cases hstep
      exact h.fileEvent hfile
    · cases hstep
  | nextEntry => exact h.nextEntry hstep
  | fanotifyMark ok =>
    obtain rfl : ok = true := hok
    exact h.fanotifyMark hstep
  | inotifyAddWatch ok =>
    obtain rfl : ok = true := hok
    exact h.inotifyAddWatch hstep
  | opendir ok =>
    obtain rfl : ok = true := hok
    exact h.opendir hstep
  | readdir name dType => exact h.readdir hstep
  | closedir =>
    simp only [step] at hstep
    split at hstep
    · next path dir stack hstack =>
      cases hstep
      refine h.advance (.refl _) rfl rfl ht [] hstack rfl (by simp) ?_
      rintro j d ⟨name, hmem, -⟩
      cases hmem
    · cases hstep
  | fanotifyUnmark ok =>
    simp only [step] at hstep
    split at hstep
    · next path stack hstack =>
      exact absurd (h.top hstack) id
    · cases hstep
  | inotifyRmWatch =>
    simp only [step] at hstep
    split at hstep
    · next path stack hstack =>
      exact absurd (h.top hstack) id
    · cases hstep
  | inotifyEvent =>
    simp only [step] at hstep
    split at hstep
    · next event pending hstack hpending =>
      cases hstep
      exact h.inotifyEvent hstack hpending
    · cases hstep

end

/-! ## No directory escapes -/

/-- What the configured paths name. -/
def Roots (entries : List MonitorEntry) (s : State) (r : Nat) : Prop :=
  ∃ e ∈ entries, e.flag = .dir ∧ s.kernel.resolve e.path = some r

/-- Marked, and watched with a path of its own in the table. -/
def Registered (entries : List MonitorEntry) (s : State) (d : Nat) : Prop :=
  s.kernel.fanMarks d = true ∧ ∃ wd path, s.kernel.watches d = some wd ∧
    s.wd2path wd = some path ∧ OwnPath entries path ∧ s.kernel.resolve path = some d

theorem start_marking {entries : List MonitorEntry} {s : State} (h : IsStart entries s) :
    Marking entries (Roots entries s) s := by
  refine ⟨⟨h.tree, h.root, h.cwd, ?_, ?_, ?_, ?_⟩, ?_, ?_, ?_, ?_⟩
  · simp [h.watches]
  · simp [h.watches]
  · simp [h.watches]
  · simp [h.wd2path]
  · intro frame hmem
    rw [h.stack] at hmem
    obtain rfl := List.mem_singleton.mp hmem
    exact fun e he => he
  · simp [h.pending]
  · rintro r ⟨e, -, -, hr⟩
    exact resolve_lt h.tree h.root h.cwd hr
  · rintro r ⟨e, he, hflag, hr⟩ d hbelow
    refine .inr ⟨r, .inl ⟨.markEntries entries, ?_, e, he, hflag, hr⟩, hbelow⟩
    rw [h.stack]
    exact List.mem_singleton_self _

theorem run_marking {entries : List MonitorEntry} {s s' : State} {labels : List Label}
    (hs : IsStart entries s) (hok : ∀ a ∈ labels, CreatesOnly a)
    (hrun : Transition.run step s labels = some s') :
    Marking entries (Roots entries s) s' :=
  Transition.run_invariant_of_allSteps step_marking labels s s' (start_marking hs)
    (Transition.AllSteps.of_forall labels s fun a ha _ => hok a ha) hrun

/-- **No directory escapes.** However directories are created while the
thread marks and follows events: when no marking is in progress and no
event is pending, every directory of the trees of the configured
directories is marked and watched, and the table has it under its path. -/
theorem no_directory_escapes {entries : List MonitorEntry} {s s' : State}
    {labels : List Label} (hs : IsStart entries s) (hok : ∀ a ∈ labels, CreatesOnly a)
    (hrun : Transition.run step s labels = some s') (hstack : s'.stack = [])
    (hpending : s'.kernel.pending = []) {r d : Nat} (hr : Roots entries s r)
    (hd : s'.kernel.tree.Below IsName r d) : Registered entries s' d := by
  have h := run_marking hs hok hrun
  rcases h.covered r hr d hd with hwatch | ⟨j, ⟨frame, hmem, -⟩ | ⟨event, hmem, -⟩, -⟩
  · obtain ⟨wd, hwd⟩ := Option.ne_none_iff_exists'.mp hwatch
    obtain ⟨hmark, path, hpath⟩ := h.tables.marked d wd hwd
    obtain ⟨hown, d', hd', hwd'⟩ := h.tables.paths wd path hpath
    obtain rfl := h.tables.watchInj d d' wd hwd hwd'
    exact ⟨hmark, wd, path, hwd, hpath, hown, hd'⟩
  · rw [hstack] at hmem
    cases hmem
  · rw [hpending] at hmem
    cases hmem

/-! ## Two directories, one before the watch and one behind the listing -/

/-- The configured directory. -/
def srv : CString := ['/', 's']

/-- `/s` is configured, and is the only directory. -/
def srvStart : State :=
  { kernel :=
      { tree := { entries := fun dir => if dir = 0 then [(['s'], 1)] else [], next := 2 }
        cwd := 0, fanMarks := fun _ => false, watches := fun _ => none, nextWd := 1
        pending := [] }
    wd2path := fun _ => none, path2wd := fun _ => none
    stack := [.markEntries [⟨srv, .dir⟩]] }

theorem srvStart_isStart : IsStart [⟨srv, .dir⟩] srvStart := by
  refine ⟨?_, by decide, by decide, fun _ => rfl, fun _ => rfl, by decide, rfl, fun _ => rfl,
    fun _ => rfl, rfl⟩
  intro dir name sub h
  by_cases hdir : dir = 0
  · subst hdir
    obtain heq := List.mem_singleton.mp (DirTree.mem_of_lookup h)
    cases heq
    decide
  · simp [DirTree.lookup, srvStart, hdir] at h

/-- A directory without subdirectories is marked. -/
def markNew : List Label :=
  [.fanotifyMark true, .inotifyAddWatch true, .opendir true, .readdir ['.'] .dir,
    .readdir ['.', '.'] .dir, .closedir]

/-- Directories are made while it is marked. -/
def srvRun : List Label :=
  [.nextEntry, .fanotifyMark true, .mkdir [['s']] ['a'], .inotifyAddWatch true,
      .opendir true, .mkdir [['s']] ['b'], .readdir ['a'] .dir] ++ markNew ++
    [.closedir, .nextEntry, .inotifyEvent] ++ markNew

theorem no_directory_escapes_srv :
    ∃ s', Transition.run step srvStart srvRun = some s' ∧
      (s'.kernel.watches 1, s'.kernel.watches 2, s'.kernel.watches 3)
        = (some 1, some 2, some 3) ∧
      Registered [⟨srv, .dir⟩] s' 3 := by
  have hend : (Transition.run step srvStart srvRun).map (fun s =>
      (s.stack, s.kernel.pending, s.kernel.tree.lookup 1 ['b'],
        (s.kernel.watches 1, s.kernel.watches 2, s.kernel.watches 3))) =
      some ([], [], some 3, (some 1, some 2, some 3)) := rfl
  obtain ⟨s', hrun, hend⟩ := Option.map_eq_some_iff.mp hend
  rw [Prod.mk.injEq, Prod.mk.injEq, Prod.mk.injEq] at hend
  obtain ⟨hstack, hpending, hlookup, hwatches⟩ := hend
  have hroot : Roots [⟨srv, .dir⟩] srvStart 1 := ⟨_, List.mem_cons_self, rfl, rfl⟩
  have hbelow : s'.kernel.tree.Below IsName 1 3 := .single ⟨['b'], by decide, hlookup⟩
  have hcreates : ∀ a ∈ srvRun, CreatesOnly a := by
    simp [srvRun, markNew, CreatesOnly]
  exact ⟨s', hrun, hwatches,
    no_directory_escapes srvStart_isStart hcreates hrun hstack hpending hroot hbelow⟩

end Armadito.OnAccess.Monitor
