import Armadito.Os.Dir

/-!
# Os.DirContract

The contract of `os_dir_map`, as the comment on its callback in `dir.h`
states it, and when the walk keeps it.

The comment lets the callback stop the walk with a nonzero value, which
becomes the result. The walk drops the value of every entry that is not an
unreadable directory, and ends in `return 0` whenever the root opens.

Which entries there are to visit is a matter of the tree on the disk. What
the walk goes by is `d_type`, and a file system may leave that at
`DT_UNKNOWN`: then a directory is not descended into, and `.` and `..` are
visited.
-/

namespace Armadito.Os

/-- What the callback is told about an entry. -/
structure Visit where
  path : Option CString
  flags : OsFileFlag
  errno : Int

/-- A call of the callback, with the value it returned. -/
structure CallbackCall where
  visit : Visit
  ret : Int

section

variable {σ : Type}

/-- The callback with a record of its calls. -/
def traced (cb : DirentCb σ) : DirentCb (σ × List CallbackCall) :=
  fun path flags errno data =>
    let r := cb path flags errno data.1
    (r.1, (r.2, data.2 ++ [⟨⟨path, flags, errno⟩, r.1⟩]))

/-- The calls of a callback on a list of entries, in turn. -/
def callsOn (cb : DirentCb σ) : List Visit → σ → List CallbackCall
  | [], _ => []
  | v :: vs, data =>
    ⟨v, (cb v.path v.flags v.errno data).1⟩ :: callsOn cb vs (cb v.path v.flags v.errno data).2

/-- The data after these calls. -/
def dataAfter (cb : DirentCb σ) : List Visit → σ → σ
  | [], data => data
  | v :: vs, data => dataAfter cb vs (cb v.path v.flags v.errno data).2

end

/-! ## Trees -/

mutual

/-- A directory on the disk, its entries in the order of the listing. -/
inductive DiskDir where
  | openError (errno : Int)
  | opened (entries : DiskEntries)

/-- `typed` tells whether the file system fills in the `d_type` of a
subdirectory; that of a file may be `DT_UNKNOWN` as well. -/
inductive DiskEntries where
  | endOfDir
  | readError (errno : Int)
  | file (name : CString) (dType : DType) (notDir : dType ≠ .dir) (rest : DiskEntries)
  | subdir (name : CString) (typed : Bool) (dir : DiskDir) (rest : DiskEntries)

end

mutual

/-- What `opendir` and `readdir` say of it. -/
def DiskDir.presented : DiskDir → Dir
  | .openError errno => .openError errno
  | .opened entries => .opened entries.presented

/-- The entries as `readdir` returns them. -/
def DiskEntries.presented : DiskEntries → DirStream
  | .endOfDir => .endOfDir
  | .readError errno => .readError errno
  | .file name dType notDir rest => .leaf name dType notDir rest.presented
  | .subdir name typed dir rest =>
    if typed then .subdir name dir.presented rest.presented
    else .leaf name .unknown (by decide) rest.presented

end

/-- The names of the entries. -/
def DiskEntries.names : DiskEntries → List CString
  | .endOfDir | .readError _ => []
  | .file name _ _ rest | .subdir name _ _ rest => name :: rest.names

mutual

/-- The names in a directory are distinct and without slashes, and only
directories are called `.` or `..`. -/
def DiskDir.WellFormed : DiskDir → Prop
  | .openError _ => True
  | .opened entries => entries.WellFormed

/-- Names are distinct, and none has a slash. -/
def DiskEntries.WellFormed : DiskEntries → Prop
  | .endOfDir | .readError _ => True
  | .file name _ _ rest =>
    isDotOrDotDot name = false ∧ '/' ∉ name ∧ name ∉ rest.names ∧ rest.WellFormed
  | .subdir name _ dir rest =>
    '/' ∉ name ∧ name ∉ rest.names ∧ dir.WellFormed ∧ rest.WellFormed

end

section

variable (recurse : Bool)

mutual

/-- The file system fills in the types that the walk needs: those of `.` and
`..`, and with `recurse` those of all directories. -/
def DiskDir.Typed : DiskDir → Prop
  | .openError _ => True
  | .opened entries => entries.Typed

/-- The directories that the walk must know as such have their type. -/
def DiskEntries.Typed : DiskEntries → Prop
  | .endOfDir | .readError _ => True
  | .file _ _ _ rest => rest.Typed
  | .subdir name typed dir rest =>
    (if isDotOrDotDot name then typed = true
      else recurse = true → typed = true ∧ dir.Typed) ∧ rest.Typed

end

end

/-! ## The contract -/

section

variable (recurse : Bool)

/-- The visits of a subdirectory in the directory `path`, where `below` are
those of its entries. -/
def subdirVisits (path name : CString) (typed : Bool) (below : List Visit) : List Visit :=
  if isDotOrDotDot name then []
  else if recurse then below
  else [⟨some (joinPath path name), direntFlags (if typed then .dir else .unknown), 0⟩]

mutual

/-- Every entry but `.` and `..`, in the order of the directories; with
`recurse`, the entries of a directory in its place. A directory that cannot
be opened, or not read to its end, is an entry of its own. -/
def DiskDir.visits (path : CString) : DiskDir → List Visit
  | .openError errno => [⟨some path, .isError, errno⟩]
  | .opened entries => entries.visits path

/-- The visits that the contract asks for. -/
def DiskEntries.visits (path : CString) : DiskEntries → List Visit
  | .endOfDir => []
  | .readError errno => [⟨some path, .isError, errno⟩]
  | .file name dType _ rest =>
    ⟨some (joinPath path name), direntFlags dType, 0⟩ :: rest.visits path
  | .subdir name typed dir rest =>
    subdirVisits recurse path name typed (dir.visits (joinPath path name)) ++ rest.visits path

end

variable (sys : PathCalls)

mutual

/-- There is memory for every path that the walk makes. -/
def Dir.Joins (path : CString) : Dir → Prop
  | .openError _ => True
  | .opened entries => entries.Joins path

/-- Every path that the walk needs can be made. -/
def DirStream.Joins (path : CString) : DirStream → Prop
  | .endOfDir | .readError _ => True
  | .leaf name _ _ rest => sys.asprintf path name ≠ none ∧ rest.Joins path
  | .subdir name dir rest =>
    if isDotOrDotDot name then rest.Joins path
    else
      match sys.asprintf path name with
      | none => False
      | some entryPath => (recurse → dir.Joins entryPath) ∧ rest.Joins path

end

/-- The contract, of the calls a walk has made and its result. A nonzero
value ends the walk and is its result. Otherwise every entry has been
visited and the result is 0, or there was an internal error and it is -1. -/
def KeepsContract (path : CString) (d : DiskDir) (calls : List CallbackCall) (result : Int) :
    Prop :=
  (∃ before last, calls = before ++ [last] ∧ last.ret ≠ 0 ∧ (∀ c ∈ before, c.ret = 0) ∧
      result = last.ret) ∨
    (∀ c ∈ calls, c.ret = 0) ∧
      (d.presented.Joins recurse sys path ∧
          calls.map CallbackCall.visit = d.visits recurse path ∧ result = 0 ∨
        ¬ d.presented.Joins recurse sys path ∧ result = -1)

end

/-! ## The calls of a walk -/

section

variable {σ : Type} (sys : PathCalls) (cb : DirentCb σ)

/-- `asprintf` makes `"%s/%s"`, or fails. -/
def PathCalls.Formats : Prop :=
  ∀ path name entryPath, sys.asprintf path name = some entryPath →
    entryPath = joinPath path name

/-- The callback, told the path of the entry: it works on what `realpath`
makes of that. -/
def resolved : DirentCb σ := fun path flags errno data =>
  cb (if flags = .isError then path else path.bind sys.realpath) flags errno data

/-- The calls a walk makes, in order, each with the entry it is about. -/
def walkCalls (recurse : Bool) (path : CString) (d : Dir) (data : σ) : List CallbackCall :=
  (osDirMap { sys with realpath := some } recurse (traced (resolved sys cb)) path d
    (data, [])).2.2

theorem direntFlags_ne_isError (t : DType) : direntFlags t ≠ .isError := by
  cases t <;> decide

/-- The record is of the walk itself: result and data are the same. -/
theorem osDirMap_traced (recurse : Bool) (path : CString) (d : Dir) (data : σ) :
    (osDirMap { sys with realpath := some } recurse (traced (resolved sys cb)) path d
          (data, [])).1 = (osDirMap sys recurse cb path d data).1 ∧
      (osDirMap { sys with realpath := some } recurse (traced (resolved sys cb)) path d
          (data, [])).2.1 = (osDirMap sys recurse cb path d data).2 := by
  have hjoin : sys.asprintf = { sys with realpath := some }.asprintf := rfl
  refine osDirMap_rel (R := fun (a : σ × List CallbackCall) (b : σ) => a.1 = b) recurse hjoin
    ?_ ?_ path d (data, []) data rfl
  · rintro p errno a b rfl
    simp [traced, resolved]
  · rintro p t a b rfl
    simp [traced, resolved, direntFlags_ne_isError]

end

/-! ## Calls in turn -/

section

variable {σ : Type} (cb : DirentCb σ)

theorem callsOn_append (vs ws : List Visit) :
    ∀ data : σ, callsOn cb (vs ++ ws) data
      = callsOn cb vs data ++ callsOn cb ws (dataAfter cb vs data) := by
  induction vs with
  | nil => intro data; rfl
  | cons v vs ih =>
    intro data
    rw [List.cons_append, callsOn, callsOn, dataAfter, ih, List.cons_append]

theorem dataAfter_append (vs ws : List Visit) :
    ∀ data : σ, dataAfter cb (vs ++ ws) data = dataAfter cb ws (dataAfter cb vs data) := by
  induction vs with
  | nil => intro data; rfl
  | cons v vs ih =>
    intro data
    rw [List.cons_append, dataAfter, dataAfter, ih]

theorem map_visit_callsOn (vs : List Visit) :
    ∀ data : σ, (callsOn cb vs data).map CallbackCall.visit = vs := by
  induction vs with
  | nil => intro data; rfl
  | cons v vs ih =>
    intro data
    rw [callsOn, List.map_cons, ih]

/-- The callback answers 0 to each entry in turn. -/
def Quiet (vs : List Visit) (data : σ) : Prop := ∀ c ∈ callsOn cb vs data, c.ret = 0

theorem quiet_append {vs ws : List Visit} {data : σ} :
    Quiet cb (vs ++ ws) data ↔ Quiet cb vs data ∧ Quiet cb ws (dataAfter cb vs data) := by
  rw [Quiet, callsOn_append, List.forall_mem_append, Quiet, Quiet]

theorem quiet_singleton {v : Visit} {data : σ} :
    Quiet cb [v] data ↔ (cb v.path v.flags v.errno data).1 = 0 := by
  simp [Quiet, callsOn]

/-- Two lists of entries are the same up to where the callback has asked to
stop. -/
def Agree (data : σ) (vs ws : List Visit) : Prop :=
  vs = ws ∨ ∃ us, us <+: vs ∧ us <+: ws ∧ ¬ Quiet cb us data

variable {cb} {data : σ} {vs vs' ws ws' : List Visit}

theorem Agree.append (h : Agree cb data vs ws)
    (h' : Agree cb (dataAfter cb vs data) vs' ws') :
    Agree cb data (vs ++ vs') (ws ++ ws') := by
  rcases h with rfl | ⟨us, hvs, hws, hnot⟩
  · rcases h' with rfl | ⟨us, hvs, hws, hnot⟩
    · exact .inl rfl
    · refine .inr ⟨vs ++ us, ?_, ?_, fun hquiet => hnot ((quiet_append cb).mp hquiet).2⟩
      · exact (List.prefix_append_right_inj vs).mpr hvs
      · exact (List.prefix_append_right_inj vs).mpr hws
  · exact .inr ⟨us, hvs.trans (List.prefix_append vs vs'), hws.trans (List.prefix_append ws ws'),
      hnot⟩

/-- Whatever comes after the request to stop. -/
theorem Agree.stopped (h : Agree cb data vs ws) (hstop : ¬ Quiet cb vs data)
    (ws' : List Visit) : Agree cb data vs (ws ++ ws') := by
  rcases h with rfl | ⟨us, hvs, hws, hnot⟩
  · exact .inr ⟨vs, List.prefix_rfl, List.prefix_append vs ws', hstop⟩
  · exact .inr ⟨us, hvs, hws.trans (List.prefix_append ws ws'), hnot⟩

end

/-! ## What the walk goes by -/

section

variable (recurse : Bool)

mutual

/-- The entries of a listing, told by their types. -/
def Dir.walked (path : CString) : Dir → List Visit
  | .openError errno => [⟨some path, .isError, errno⟩]
  | .opened entries => entries.walked path

/-- The visits of the walk. -/
def DirStream.walked (path : CString) : DirStream → List Visit
  | .endOfDir => []
  | .readError errno => [⟨some path, .isError, errno⟩]
  | .leaf name dType _ rest =>
    ⟨some (joinPath path name), direntFlags dType, 0⟩ :: rest.walked path
  | .subdir name dir rest =>
    subdirVisits recurse path name true (dir.walked (joinPath path name)) ++ rest.walked path

end

end

section

variable {σ : Type} {sys : PathCalls} {recurse : Bool} (cb : DirentCb σ)

mutual

/-- With memory for the paths the walk visits the entries of the listing, up
to where the callback asks it to stop. -/
theorem osDirMap_walked (hsys : sys.Formats) (path : CString) :
    ∀ (d : Dir) (data : σ) (log : List CallbackCall), d.Joins recurse sys path →
      ∃ vs, (osDirMap { sys with realpath := some } recurse (traced cb) path d (data, log)).2
          = (dataAfter cb vs data, log ++ callsOn cb vs data) ∧
        Agree cb data vs (d.walked recurse path) ∧
        ((osDirMap { sys with realpath := some } recurse (traced cb) path d (data, log)).1 ≠ 0 →
          ¬ Quiet cb vs data)
  | .openError errno, data, log, _ => by
    refine ⟨[⟨some path, .isError, errno⟩], ?_, .inl (by rw [Dir.walked]), ?_⟩
    · rw [osDirMap]
      rfl
    · rw [osDirMap, quiet_singleton]
      exact id
  | .opened entries, data, log, hjoins => by
    rw [Dir.Joins] at hjoins
    obtain ⟨vs, hwalk, hagree⟩ := readLoop_walked hsys path entries data log hjoins
    refine ⟨vs, ?_, by rwa [Dir.walked], ?_⟩
    · rw [osDirMap, hwalk]
    · rw [osDirMap]
      exact fun hne => absurd rfl hne

theorem readLoop_walked (hsys : sys.Formats) (path : CString) :
    ∀ (s : DirStream) (data : σ) (log : List CallbackCall), s.Joins recurse sys path →
      ∃ vs, readLoop { sys with realpath := some } recurse (traced cb) path s (data, log)
          = (dataAfter cb vs data, log ++ callsOn cb vs data) ∧
        Agree cb data vs (s.walked recurse path)
  | .endOfDir, data, log, _ => by
    exact ⟨[], by simp [readLoop, dataAfter, callsOn], .inl (by rw [DirStream.walked])⟩
  | .readError errno, data, log, _ => by
    refine ⟨[⟨some path, .isError, errno⟩], ?_, .inl (by rw [DirStream.walked])⟩
    rw [readLoop]
    rfl
  | .leaf name dType _ rest, data, log, hjoins => by
    rw [DirStream.Joins] at hjoins
    obtain ⟨entryPath, hentry⟩ := Option.ne_none_iff_exists'.mp hjoins.1
    obtain rfl := hsys path name entryPath hentry
    let v : Visit := ⟨some (joinPath path name), direntFlags dType, 0⟩
    have hone : Agree cb data [v] [v] := .inl rfl
    obtain ⟨vs, hwalk, hagree⟩ := readLoop_walked hsys path rest (dataAfter cb [v] data)
      (log ++ callsOn cb [v] data) hjoins.2
    refine ⟨v :: vs, ?_, ?_⟩
    · rw [readLoop]
      simp only [hentry]
      exact hwalk.trans (by rw [List.append_assoc]; rfl)
    · rw [DirStream.walked]
      exact hone.append hagree
  | .subdir name dir rest, data, log, hjoins => by
    rw [DirStream.Joins] at hjoins
    rw [readLoop, DirStream.walked, subdirVisits]
    by_cases hdot : isDotOrDotDot name
    · rw [if_pos hdot] at hjoins
      rw [if_pos hdot, if_pos hdot, List.nil_append]
      exact readLoop_walked hsys path rest data log hjoins
    · rw [if_neg hdot] at hjoins
      rw [if_neg hdot, if_neg hdot]
      cases hentry : sys.asprintf path name with
      | none =>
        rw [hentry] at hjoins
        exact hjoins.elim
      | some entryPath =>
        rw [hentry] at hjoins
        obtain rfl := hsys path name entryPath hentry
        by_cases hrec : recurse = true
        · rw [if_pos hrec]
          simp only [if_pos hrec]
          obtain ⟨vs, hwalk, hagree, hstop⟩ :=
            osDirMap_walked hsys (joinPath path name) dir data log (hjoins.1 hrec)
          split
          · next hne => exact ⟨vs, hwalk, hagree.stopped (hstop hne) _⟩
          · -- the child left 0 behind, so the loop goes on
            rw [hwalk]
            obtain ⟨vs', hwalk', hagree'⟩ := readLoop_walked hsys path rest _ _ hjoins.2
            refine ⟨vs ++ vs', ?_, hagree.append hagree'⟩
            rw [hwalk', dataAfter_append, callsOn_append, List.append_assoc]
        · rw [if_neg hrec]
          simp only [if_neg hrec]
          let v : Visit := ⟨some (joinPath path name), direntFlags .dir, 0⟩
          have hone : Agree cb data [v] [v] := .inl rfl
          obtain ⟨vs, hwalk, hagree⟩ := readLoop_walked hsys path rest (dataAfter cb [v] data)
            (log ++ callsOn cb [v] data) hjoins.2
          exact ⟨v :: vs, hwalk.trans (by rw [List.append_assoc]; rfl), hone.append hagree⟩

end

end

/-! ## The listing against the tree -/

section

variable {recurse : Bool}

mutual

/-- With the types filled in, the listing has the entries of the tree. -/
theorem DiskDir.walked_presented (path : CString) :
    ∀ d : DiskDir, d.Typed recurse → d.presented.walked recurse path = d.visits recurse path
  | .openError errno, _ => by rw [DiskDir.presented, Dir.walked, DiskDir.visits]
  | .opened entries, h => by
    rw [DiskDir.Typed] at h
    rw [DiskDir.presented, Dir.walked, DiskDir.visits]
    exact DiskEntries.walked_presented path entries h

theorem DiskEntries.walked_presented (path : CString) :
    ∀ s : DiskEntries, s.Typed recurse → s.presented.walked recurse path = s.visits recurse path
  | .endOfDir, _ => by rw [DiskEntries.presented, DirStream.walked, DiskEntries.visits]
  | .readError errno, _ => by rw [DiskEntries.presented, DirStream.walked, DiskEntries.visits]
  | .file name dType _ rest, h => by
    rw [DiskEntries.Typed] at h
    rw [DiskEntries.presented, DirStream.walked, DiskEntries.visits,
      DiskEntries.walked_presented path rest h]
  | .subdir name typed dir rest, h => by
    rw [DiskEntries.Typed] at h
    have ih := DiskEntries.walked_presented path rest h.2
    rw [DiskEntries.presented, DiskEntries.visits]
    cases typed with
    | true =>
      rw [if_pos rfl, DirStream.walked, ih]
      by_cases hdot : isDotOrDotDot name
      · rw [subdirVisits, if_pos hdot, subdirVisits, if_pos hdot]
      · rw [if_neg hdot] at h
        by_cases hrec : recurse = true
        · rw [DiskDir.walked_presented (joinPath path name) dir (h.1 hrec).2]
        · rw [subdirVisits, if_neg hdot, if_neg hrec, subdirVisits, if_neg hdot, if_neg hrec]
    | false =>
      rw [if_neg Bool.false_ne_true, DirStream.walked, ih, subdirVisits]
      by_cases hdot : isDotOrDotDot name
      · rw [if_pos hdot] at h
        cases h.1
      · rw [if_neg hdot] at h
        by_cases hrec : recurse = true
        · cases (h.1 hrec).1
        · rw [if_neg hdot, if_neg hrec]
          rfl

end

/-- The visit is of what has the path `p`, or of something below. -/
def Visit.Within (p : CString) (v : Visit) : Prop :=
  ∃ below, v.path = some (p ++ below) ∧ (below = [] ∨ ∃ rest, below = '/' :: rest)

/-- The visit is of the directory `p` as a failing one, or within one of the
names in it. -/
def Visit.In (p : CString) (names : List CString) (v : Visit) : Prop :=
  (v.path = some p ∧ v.flags = .isError) ∨ ∃ name ∈ names, v.Within (joinPath p name)

theorem Visit.within_self (p : CString) (flags : OsFileFlag) (errno : Int) :
    Visit.Within p ⟨some p, flags, errno⟩ :=
  ⟨[], by simp, .inl rfl⟩

theorem Visit.Within.of_join {p name : CString} {v : Visit} (h : v.Within (joinPath p name)) :
    v.Within p ∧ v.path ≠ some p := by
  obtain ⟨below, hpath, -⟩ := h
  refine ⟨⟨'/' :: (name ++ below), by rw [hpath, joinPath, List.append_assoc]; rfl,
    .inr ⟨_, rfl⟩⟩, ?_⟩
  rw [hpath]
  intro heq
  have := congrArg List.length (Option.some.inj heq)
  simp only [joinPath, List.length_append, List.length_cons] at this
  omega

theorem Visit.In.within {p : CString} {names : List CString} {v : Visit} (h : v.In p names) :
    v.Within p := by
  rcases h with ⟨hpath, -⟩ | ⟨name, -, h⟩
  · exact ⟨[], by simpa using hpath, .inl rfl⟩
  · exact h.of_join.1

theorem takeWhile_slash {name below : CString} (hname : '/' ∉ name)
    (hbelow : below = [] ∨ ∃ rest, below = '/' :: rest) :
    (name ++ below).takeWhile (· ≠ '/') = name := by
  have hall : ∀ c ∈ name, decide (c ≠ '/') = true := by
    intro c hc
    exact decide_eq_true fun heq => hname (heq ▸ hc)
  rw [List.takeWhile_append_of_pos hall]
  rcases hbelow with rfl | ⟨rest, rfl⟩ <;> simp

/-- Nothing is within two names of one directory. -/
theorem Visit.Within.name_eq {p a b : CString} {v : Visit} (ha : v.Within (joinPath p a))
    (hb : v.Within (joinPath p b)) (hslashA : '/' ∉ a) (hslashB : '/' ∉ b) : a = b := by
  obtain ⟨s, hs, hends⟩ := ha
  obtain ⟨t, ht, hendt⟩ := hb
  have heq := Option.some.inj (hs.symm.trans ht)
  simp only [joinPath, List.append_assoc, List.cons_append, List.append_cancel_left_eq,
    List.cons.injEq, true_and] at heq
  rw [← takeWhile_slash hslashA hends, heq, takeWhile_slash hslashB hendt]

theorem Visit.In.not_within {p name : CString} {names : List CString} {v : Visit}
    (h : v.In p names) (hname : name ∉ names) (hslash : '/' ∉ name)
    (hslashes : ∀ other ∈ names, '/' ∉ other) : ¬ v.Within (joinPath p name) := by
  intro hwithin
  rcases h with ⟨hpath, -⟩ | ⟨other, hother, h⟩
  · exact hwithin.of_join.2 hpath
  · exact hname (hwithin.name_eq h hslash (hslashes other hother) ▸ hother)

theorem Visit.In.cons {p : CString} {names : List CString} {v : Visit} (h : v.In p names)
    (name : CString) : v.In p (name :: names) := by
  rcases h with h | ⟨other, hother, h⟩
  · exact .inl h
  · exact .inr ⟨other, List.mem_cons_of_mem name hother, h⟩

theorem Visit.Within.in_cons {p name : CString} {v : Visit} (h : v.Within (joinPath p name))
    (names : List CString) : v.In p (name :: names) :=
  .inr ⟨name, List.mem_cons_self, h⟩

theorem subdirVisits_within {p name : CString} {typed : Bool} {below : List Visit}
    (hbelow : ∀ v ∈ below, v.Within (joinPath p name)) :
    ∀ v ∈ subdirVisits recurse p name typed below, v.Within (joinPath p name) := by
  intro v hv
  unfold subdirVisits at hv
  split at hv
  · cases hv
  · split at hv
    · exact hbelow v hv
    · rw [List.mem_singleton.mp hv]
      exact Visit.within_self _ _ _

/-- The names in a directory. -/
def DiskDir.names : DiskDir → List CString
  | .openError _ => []
  | .opened entries => entries.names

theorem DiskEntries.WellFormed.slash {s : DiskEntries} (h : s.WellFormed) :
    ∀ name ∈ s.names, '/' ∉ name := by
  induction s using DiskEntries.names.induct with
  | case1 => simp [DiskEntries.names]
  | case2 => simp [DiskEntries.names]
  | case3 name dType notDir rest ih =>
    rw [DiskEntries.WellFormed] at h
    rw [DiskEntries.names, List.forall_mem_cons]
    exact ⟨h.2.1, ih h.2.2.2⟩
  | case4 name typed dir rest ih =>
    rw [DiskEntries.WellFormed] at h
    rw [DiskEntries.names, List.forall_mem_cons]
    exact ⟨h.1, ih h.2.2.2⟩

mutual

theorem DiskDir.visits_in (p : CString) :
    ∀ d : DiskDir, ∀ v ∈ d.visits recurse p, v.In p d.names
  | .openError errno, v, hv => by
    rw [DiskDir.visits, List.mem_singleton] at hv
    exact .inl (by rw [hv]; exact ⟨rfl, rfl⟩)
  | .opened entries, v, hv => by
    rw [DiskDir.visits] at hv
    exact DiskEntries.visits_in p entries v hv

theorem DiskEntries.visits_in (p : CString) :
    ∀ s : DiskEntries, ∀ v ∈ s.visits recurse p, v.In p s.names
  | .endOfDir, v, hv => by
    rw [DiskEntries.visits] at hv
    cases hv
  | .readError errno, v, hv => by
    rw [DiskEntries.visits, List.mem_singleton] at hv
    exact .inl (by rw [hv]; exact ⟨rfl, rfl⟩)
  | .file name dType _ rest, v, hv => by
    rw [DiskEntries.visits, List.mem_cons] at hv
    rw [DiskEntries.names]
    rcases hv with rfl | hv
    · exact (Visit.within_self _ _ _).in_cons _
    · exact (DiskEntries.visits_in p rest v hv).cons name
  | .subdir name typed dir rest, v, hv => by
    rw [DiskEntries.visits, List.mem_append] at hv
    rw [DiskEntries.names]
    rcases hv with hv | hv
    · have hbelow : ∀ v ∈ dir.visits recurse (joinPath p name), v.Within (joinPath p name) :=
        fun v hv => (DiskDir.visits_in _ dir v hv).within
      exact (subdirVisits_within hbelow v hv).in_cons _
    · exact (DiskEntries.visits_in p rest v hv).cons name

end

mutual

theorem DiskDir.walked_in (p : CString) :
    ∀ d : DiskDir, ∀ v ∈ d.presented.walked recurse p, v.In p d.names
  | .openError errno, v, hv => by
    rw [DiskDir.presented, Dir.walked, List.mem_singleton] at hv
    exact .inl (by rw [hv]; exact ⟨rfl, rfl⟩)
  | .opened entries, v, hv => by
    rw [DiskDir.presented, Dir.walked] at hv
    exact DiskEntries.walked_in p entries v hv

theorem DiskEntries.walked_in (p : CString) :
    ∀ s : DiskEntries, ∀ v ∈ s.presented.walked recurse p, v.In p s.names
  | .endOfDir, v, hv => by
    rw [DiskEntries.presented, DirStream.walked] at hv
    cases hv
  | .readError errno, v, hv => by
    rw [DiskEntries.presented, DirStream.walked, List.mem_singleton] at hv
    exact .inl (by rw [hv]; exact ⟨rfl, rfl⟩)
  | .file name dType _ rest, v, hv => by
    rw [DiskEntries.presented, DirStream.walked, List.mem_cons] at hv
    rw [DiskEntries.names]
    rcases hv with rfl | hv
    · exact (Visit.within_self _ _ _).in_cons _
    · exact (DiskEntries.walked_in p rest v hv).cons name
  | .subdir name typed dir rest, v, hv => by
    have ih := DiskEntries.walked_in p rest
    rw [DiskEntries.presented] at hv
    rw [DiskEntries.names]
    cases typed with
    | true =>
      rw [if_pos rfl, DirStream.walked, List.mem_append] at hv
      rcases hv with hv | hv
      · have hbelow : ∀ v ∈ dir.presented.walked recurse (joinPath p name),
            v.Within (joinPath p name) :=
          fun v hv => (DiskDir.walked_in _ dir v hv).within
        exact (subdirVisits_within hbelow v hv).in_cons _
      · exact (ih v hv).cons name
    | false =>
      rw [if_neg Bool.false_ne_true, DirStream.walked, List.mem_cons] at hv
      rcases hv with rfl | hv
      · exact (Visit.within_self _ _ _).in_cons _
      · exact (ih v hv).cons name

end

mutual

/-- Without them the walk visits what is no entry of the tree. -/
theorem DiskDir.exists_stray (p : CString) : ∀ d : DiskDir, d.WellFormed →
    ¬ d.Typed recurse → ∃ v ∈ d.presented.walked recurse p, v ∉ d.visits recurse p
  | .openError errno, _, hnot => by
    rw [DiskDir.Typed] at hnot
    exact absurd trivial hnot
  | .opened entries, hwf, hnot => by
    rw [DiskDir.WellFormed] at hwf
    rw [DiskDir.Typed] at hnot
    rw [DiskDir.presented, Dir.walked, DiskDir.visits]
    exact DiskEntries.exists_stray p entries hwf hnot

theorem DiskEntries.exists_stray (p : CString) : ∀ s : DiskEntries, s.WellFormed →
    ¬ s.Typed recurse → ∃ v ∈ s.presented.walked recurse p, v ∉ s.visits recurse p
  | .endOfDir, _, hnot => by
    rw [DiskEntries.Typed] at hnot
    exact absurd trivial hnot
  | .readError errno, _, hnot => by
    rw [DiskEntries.Typed] at hnot
    exact absurd trivial hnot
  | .file name dType _ rest, hwf, hnot => by
    rw [DiskEntries.WellFormed] at hwf
    rw [DiskEntries.Typed] at hnot
    obtain ⟨v, hv, hstray⟩ := DiskEntries.exists_stray p rest hwf.2.2.2 hnot
    rw [DiskEntries.presented, DirStream.walked, DiskEntries.visits]
    refine ⟨v, List.mem_cons_of_mem _ hv, ?_⟩
    rw [List.mem_cons, not_or]
    refine ⟨?_, hstray⟩
    rintro rfl
    exact (DiskEntries.walked_in p rest _ hv).not_within hwf.2.2.1 hwf.2.1 hwf.2.2.2.slash
      (Visit.within_self _ _ _)
  | .subdir name typed dir rest, hwf, hnot => by
    rw [DiskEntries.WellFormed] at hwf
    obtain ⟨hslash, hname, hdir, hrest⟩ := hwf
    rw [DiskEntries.Typed, not_and_or] at hnot
    rw [DiskEntries.presented, DiskEntries.visits]
    -- what the other entries give is not within this one
    have houtside : ∀ v : Visit, v.In p rest.names → ¬ v.Within (joinPath p name) :=
      fun v h => h.not_within hname hslash hrest.slash
    have hvisits : ∀ v ∈ rest.visits recurse p, v.In p rest.names :=
      DiskEntries.visits_in p rest
    rcases hnot with hnot | hnot
    · cases typed with
      | true =>
        split at hnot
        · exact absurd rfl hnot
        · next hdot =>
          obtain ⟨hrec, hnot⟩ := Classical.not_imp.mp hnot
          obtain ⟨v, hv, hstray⟩ :=
            DiskDir.exists_stray (joinPath p name) dir hdir fun h => hnot ⟨rfl, h⟩
          have hwithin := (DiskDir.walked_in _ dir v hv).within
          rw [if_pos rfl, DirStream.walked]
          simp only [subdirVisits, if_neg hdot, if_pos hrec]
          refine ⟨v, List.mem_append_left _ hv, ?_⟩
          rw [List.mem_append, not_or]
          exact ⟨hstray, fun h => houtside v (hvisits v h) hwithin⟩
      | false =>
        rw [if_neg Bool.false_ne_true, DirStream.walked]
        refine ⟨_, List.mem_cons_self, ?_⟩
        have hwithin := Visit.within_self (joinPath p name) (direntFlags .unknown) 0
        rw [List.mem_append, not_or]
        refine ⟨?_, fun h => houtside _ (hvisits _ h) hwithin⟩
        split at hnot
        · next hdot =>
          rw [subdirVisits, if_pos hdot]
          exact List.not_mem_nil
        · next hdot =>
          obtain ⟨hrec, -⟩ := Classical.not_imp.mp hnot
          rw [subdirVisits, if_neg hdot, if_pos hrec]
          intro h
          rcases DiskDir.visits_in _ dir _ h with ⟨-, hflags⟩ | ⟨other, -, h⟩
          · cases hflags
          · exact h.of_join.2 rfl
    · obtain ⟨v, hv, hstray⟩ := DiskEntries.exists_stray p rest hrest hnot
      have hin := DiskEntries.walked_in p rest v hv
      have hmem : v ∈ (if typed then DirStream.subdir name dir.presented rest.presented
          else .leaf name .unknown (by decide) rest.presented).walked recurse p := by
        cases typed with
        | true =>
          rw [if_pos rfl, DirStream.walked]
          exact List.mem_append_right _ hv
        | false =>
          rw [if_neg Bool.false_ne_true, DirStream.walked]
          exact List.mem_cons_of_mem _ hv
      refine ⟨v, hmem, ?_⟩
      rw [List.mem_append, not_or]
      refine ⟨fun h => houtside v hin (subdirVisits_within ?_ v h), hstray⟩
      exact fun v hv => (DiskDir.visits_in _ dir v hv).within

end

/-- The listing has the entries of the tree exactly when the types that the
walk needs are filled in. -/
theorem DiskDir.walked_presented_iff (p : CString) {d : DiskDir} (hd : d.WellFormed) :
    d.presented.walked recurse p = d.visits recurse p ↔ d.Typed recurse := by
  constructor
  · intro heq
    by_contra hnot
    obtain ⟨v, hv, hstray⟩ := d.exists_stray p hd hnot
    exact hstray (heq ▸ hv)
  · exact d.walked_presented p

end

/-! ## When the walk keeps the contract -/

section

variable {σ : Type} {sys : PathCalls} {cb : DirentCb σ}

/-! ## A walk to the end, and one that is not stopped -/

/-- A directory with its two dots, a file, and a subdirectory with one. -/
def smallTree : DiskDir :=
  .opened (.subdir ".".toList true (.openError 0) (.subdir "..".toList true (.openError 0)
    (.file "a".toList .reg DType.reg_ne_dir
      (.subdir "d".toList true (.opened (.file "b".toList .reg DType.reg_ne_dir .endOfDir))
        .endOfDir))))

/-- A callback that counts. -/
def counting : DirentCb Nat := fun _ _ _ n => (0, n + 1)

/-- The same subdirectory where the file system does not say what it is: the
file in it is not visited. -/
example :
    (walkCalls plainPathCalls counting true "/r".toList
      (DiskDir.opened (.subdir "d".toList false
        (.opened (.file "b".toList .reg DType.reg_ne_dir .endOfDir)) .endOfDir)).presented
      0).map (fun c => c.visit.path) = [some "/r/d".toList] := rfl

/-- A directory with two files. -/
def twoFiles : DiskDir :=
  .opened (.file "a".toList .reg DType.reg_ne_dir
    (.file "b".toList .reg DType.reg_ne_dir .endOfDir))

/-- A callback that wants to stop the walk at each entry. -/
def stopping : DirentCb Unit := fun _ _ _ data => (7, data)

end

end Armadito.Os
