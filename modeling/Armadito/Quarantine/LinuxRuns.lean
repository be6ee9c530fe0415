import Armadito.Core.Journal
import Armadito.Lib.LastCut
import Armadito.Lib.Run
import Armadito.Quarantine.Linux

/-!
# Quarantine.LinuxRuns

What becomes of quarantined files over any number of callbacks, between
which other programs write. As long as nobody touches the files that the
quarantine keeps, each of them stays what it was when it was moved, beside
the information to restore it. A report says that its file was quarantined
unless the file was moved, but for a `stat` that fails.
-/

namespace Armadito.Quarantine

open Armadito.Conf (printInt)
open Armadito.Core Armadito.Core.Journal Ledger Transition

/-! ## The information file -/

theorem newline_notMem_digits (n : Nat) : '\n' ∉ Nat.toDigits 8 n := by
  intro hmem
  exact absurd (Nat.isDigit_of_mem_toDigits (by decide) (by decide) hmem) (by decide)

theorem infoText_eq (path : CString) (f : FileData) :
    infoText path f = ((("path: ".toList ++ path) ++ '\n' ::
      ("mode: 0".toList ++ Nat.toDigits 8 f.mode)) ++ '\n' ::
        ("uid: ".toList ++ printInt f.uid.toInt32.toInt)) ++ '\n' ::
          ("gid: ".toList ++ printInt f.gid.toInt32.toInt) ++ '\n' :: [] := by
  unfold infoText
  generalize "path: ".toList = atPath
  generalize "mode: 0".toList = atMode
  generalize "uid: ".toList = atUid
  generalize "gid: ".toList = atGid
  simp only [List.append_assoc, List.cons_append]

theorem toInt32_inj {u u' : UInt32} (h : printInt u.toInt32.toInt = printInt u'.toInt32.toInt) :
    u = u' := by
  have hint := Int32.toInt_inj.mp (printInt_inj h)
  rw [← UInt32.toUInt32_toInt32 u, hint, UInt32.toUInt32_toInt32]

/-- The text says which file it is about, and its mode and owner, also for a
path with newlines. -/
theorem infoText_inj {path path' : CString} {f f' : FileData}
    (h : infoText path f = infoText path' f') :
    path = path' ∧ f.mode = f'.mode ∧ f.uid = f'.uid ∧ f.gid = f'.gid := by
  have hprint : ∀ (head : String) (n : Int), '\n' ∉ head.toList →
      '\n' ∉ head.toList ++ printInt n := by
    intro head n hhead hmem
    rcases List.mem_append.mp hmem with hmem | hmem
    · exact hhead hmem
    · exact printInt_notMem (by decide) (by decide) n hmem
  have hmode : ∀ n, '\n' ∉ "mode: 0".toList ++ Nat.toDigits 8 n := by
    intro n hmem
    rcases List.mem_append.mp hmem with hmem | hmem
    · exact absurd hmem (by decide)
    · exact newline_notMem_digits n hmem
  rw [infoText_eq, infoText_eq] at h
  -- the lines are taken from the end, where no newline is part of a value
  obtain ⟨h, -⟩ := LastCut.append_cons_inj List.not_mem_nil List.not_mem_nil h
  obtain ⟨h, hgid⟩ := LastCut.append_cons_inj (hprint _ _ (by decide)) (hprint _ _ (by decide)) h
  obtain ⟨h, huid⟩ := LastCut.append_cons_inj (hprint _ _ (by decide)) (hprint _ _ (by decide)) h
  obtain ⟨hpath, hm⟩ := LastCut.append_cons_inj (hmode _) (hmode _) h
  refine ⟨List.append_cancel_left hpath, ?_, toInt32_inj (List.append_cancel_left huid),
    toInt32_inj (List.append_cancel_left hgid)⟩
  rw [← Nat.ofDigitChars_toDigits (b := 8) (n := f.mode) (by decide) (by decide),
    List.append_cancel_left hm, Nat.ofDigitChars_toDigits (by decide) (by decide)]

/-- A path that looks like two lines of the text. -/
theorem infoText_inj_newline :
    infoText "/a\nmode: 0644".toList ⟨[], 0o100600, 0, 0⟩ =
        infoText "/a\nmode: 0644".toList ⟨['x'], 0o100600, 0, 0⟩ ∧
      (FileData.mk [] 0o100600 0 0).mode = (FileData.mk ['x'] 0o100600 0 0).mode :=
  ⟨rfl, (@infoText_inj "/a\nmode: 0644".toList "/a\nmode: 0644".toList _ _ rfl).2.1⟩

/-! ## One call -/

/-- The files after a file was moved and the information was written. -/
def Entry.apply (e : Entry) (files : Files) : Files :=
  let files := move files e.path e.newpath e.stored
  match e.info with
  | none => files
  | some info => put files (infoPath e.newpath) (some info)

/-- What `quarantine_do` does: nothing, a file of `mkstemp` that is left
behind, or a file moved over it. -/
inductive Done (dir : CString) (calls : Calls) (files : Files) (path : Option CString) :
    Option Entry → Int → Files → Prop where
  | unmade (hmade : calls.mkstemp = none) : Done dir calls files path none (-1) files
  | unread {xxxxxx : CString} {temp : FileData} (hmade : calls.mkstemp = some (xxxxxx, temp))
      (hstat : calls.statFile (put files (newPath dir xxxxxx) (some temp)) path = none) :
    Done dir calls files path none (-2) (put files (newPath dir xxxxxx) (some temp))
  | unmoved {xxxxxx : CString} {temp : FileData} (hmade : calls.mkstemp = some (xxxxxx, temp))
      (hstat : calls.statFile (put files (newPath dir xxxxxx) (some temp)) path ≠ none) :
    Done dir calls files path none (-1) (put files (newPath dir xxxxxx) (some temp))
  | moved {xxxxxx : CString} {temp : FileData} {ret : Int} (e : Entry)
      (hmade : calls.mkstemp = some (xxxxxx, temp))
      (hstat : calls.statFile (put files (newPath dir xxxxxx) (some temp)) path ≠ none)
      (hpath : path = some e.path)
      (hnew : e.newpath = newPath dir xxxxxx)
      (hstored : e.stored.content = e.file.content)
      (hinfo : ∀ info, e.info = some info → info.content = infoText e.path e.file)
      (hret : ret ≠ -1) :
    Done dir calls files path (some e) ret
      (e.apply (put files (newPath dir xxxxxx) (some temp)))

theorem Calls.statFile_path {calls : Calls} {files : Files} {path : Option CString} {p : CString}
    {f : FileData} (h : calls.statFile files path = some (p, f)) : path = some p := by
  unfold Calls.statFile at h
  split_ifs at h
  obtain ⟨q, rfl, hq⟩ := Option.bind_eq_some_iff.mp h
  obtain ⟨g, -, hpair⟩ := Option.map_eq_some_iff.mp hq
  rw [(Prod.mk.inj hpair).1]

/-- From `rename` to the end, when the file is moved. -/
theorem quarantineMove_moved {calls : Calls} (hrename : calls.rename = true) (files : Files)
    (e : Entry) (hstored : e.stored = if calls.chmod then e.file.chmod0 else e.file)
    (hinfo : e.info = calls.fopen.map fun info =>
      { info with content := infoText e.path e.file }) :
    ∃ ret, ret ≠ -1 ∧ quarantineMove calls files e.path e.newpath e.file =
      (ret, e.apply files) := by
  unfold quarantineMove Entry.apply
  rw [if_pos hrename, hinfo, hstored]
  cases calls.fopen with
  | none => exact ⟨-2, by decide, rfl⟩
  | some info =>
    cases hchmod : calls.chmod with
    | false => exact ⟨-2, by decide, by simp⟩
    | true => exact ⟨0, by decide, by simp⟩

theorem quarantineDo_cases {quData : QuarantineData} {dir : CString}
    (hdir : quData.quarantineDir = some dir) {calls : Calls} {files files' : Files}
    {path : Option CString} {ret : Int}
    (h : quarantineDo quData calls files path = .ok (ret, files')) :
    Done dir calls files path (moved dir calls files path) ret files' := by
  simp only [quarantineDo, hdir] at h
  cases hmade : calls.mkstemp with
  | none =>
    have hnone : moved dir calls files path = none := by simp [moved, hmade]
    simp only [hmade] at h
    cases h
    rw [hnone]
    exact .unmade hmade
  | some made =>
    obtain ⟨xxxxxx, temp⟩ := made
    simp only [hmade] at h
    cases hstat : calls.statFile (put files (newPath dir xxxxxx) (some temp)) path with
    | none =>
      have hnone : moved dir calls files path = none := by simp [moved, hmade, hstat]
      simp only [hstat] at h
      cases h
      rw [hnone]
      exact .unread hmade hstat
    | some found =>
      obtain ⟨p, file⟩ := found
      simp only [hstat] at h
      cases hrename : calls.rename with
      | false =>
        have hnone : moved dir calls files path = none := by
          simp [moved, hmade, hrename]
        simp only [quarantineMove, hrename, Bool.false_eq_true, if_false] at h
        cases h
        rw [hnone]
        exact .unmoved hmade (by simp [hstat])
      | true =>
        let e : Entry := {
          path := p, file, newpath := newPath dir xxxxxx
          stored := if calls.chmod then file.chmod0 else file
          info := calls.fopen.map fun info => { info with content := infoText p file } }
        have hsome : moved dir calls files path = some e := by
          simp [moved, hmade, hstat, hrename, e]
        obtain ⟨ret', hret, hmove⟩ := quarantineMove_moved hrename
          (put files (newPath dir xxxxxx) (some temp)) e rfl rfl
        rw [hmove] at h
        cases h
        rw [hsome]
        refine .moved e hmade (by simp [hstat]) (Calls.statFile_path hstat) rfl ?_ ?_ hret
        · show (if calls.chmod then file.chmod0 else file).content = file.content
          split_ifs
          · rfl
          · rfl
        · intro info hinfo
          obtain ⟨info', -, rfl⟩ := Option.map_eq_some_iff.mp hinfo
          rfl

theorem quarantineCallback_cases {quData : QuarantineData} {calls : Calls} {files : Files}
    {report : A6oReport} {r : A6oReport × Files}
    (h : quarantineCallback quData calls files report = .ok r) :
    ((quData.enable ≠ 0 → report.status ≠ .malware) ∧
        quarantined quData calls files report = none ∧ r = (report, files)) ∨
      ∃ dir ret files', quData.enable ≠ 0 ∧ report.status = .malware ∧
        quData.quarantineDir = some dir ∧
        Done dir calls files report.path (quarantined quData calls files report) ret files' ∧
        r = (marked (decide (ret ≠ -1)) report, files') := by
  unfold quarantineCallback at h
  by_cases henable : quData.enable = 0
  · rw [if_pos henable] at h
    cases h
    refine .inl ⟨fun hne => absurd henable hne, ?_, rfl⟩
    cases hdir : quData.quarantineDir <;> simp [quarantined, hdir, henable]
  by_cases hstatus : report.status = .malware
  · rw [if_neg henable, if_pos hstatus] at h
    obtain ⟨⟨ret, files'⟩, hdo, hr⟩ := bind_eq_ok.mp h
    cases hdir : quData.quarantineDir with
    | none =>
      simp only [quarantineDo, hdir] at hdo
      cases hdo
    | some dir =>
      have hmoved : quarantined quData calls files report =
          moved dir calls files report.path := by
        simp [quarantined, hdir, henable, hstatus]
      refine .inr ⟨dir, ret, files', henable, hstatus, rfl, ?_, ?_⟩
      · rw [hmoved]
        exact quarantineDo_cases hdir hdo
      · by_cases hret : ret = -1
        · simp only [ne_eq, hret, not_true_eq_false, if_false] at hr
          simpa [marked, hret] using (pure_eq_ok.mp hr).symm
        · simp only [ne_eq, hret, not_false_eq_true, if_true] at hr
          simpa [marked, hret] using (pure_eq_ok.mp hr).symm
  · rw [if_neg henable, if_neg hstatus] at h
    cases h
    refine .inl ⟨fun _ => hstatus, ?_, rfl⟩
    cases hdir : quData.quarantineDir <;> simp [quarantined, hdir, hstatus]

/-! ## Runs -/

variable {quData : QuarantineData}

theorem step_callback {s s' : State} {report : A6oReport} {calls : Calls}
    (h : step quData s (.callback report calls) = some s') :
    report.action = a6oActionNone ∧
      (∀ dir, quData.quarantineDir = some dir → calls.Fresh dir s.files) ∧
      ∃ report' files, quarantineCallback quData calls s.files report = .ok (report', files) ∧
        s' = s.called report' files (quarantined quData calls s.files report) := by
  obtain ⟨⟨haction, hfresh⟩, h⟩ := Option.ite_none_right_eq_some.mp h
  refine ⟨haction, hfresh, ?_⟩
  cases hcall : quarantineCallback quData calls s.files report with
  | error fault =>
    rw [hcall] at h
    cases h
  | ok r =>
    rw [hcall] at h
    exact ⟨r.1, r.2, rfl, (Option.some.inj h).symm⟩

/-- The files that are kept for all entries. -/
def ledger (entries : List Entry) : List (CString × FileData) := entries.flatMap Entry.kept

/-- No step is about a file that is kept. -/
def Spares (s : State) : Label → Prop
  | .callback report _ => ∀ p, report.path = some p → p ∉ (ledger s.entries).map Prod.fst
  | .other path _ => path ∉ (ledger s.entries).map Prod.fst

instance (s : State) : ∀ l, Decidable (Spares s l)
  | .callback report _ =>
    inferInstanceAs (Decidable (∀ p, report.path = some p → p ∉ (ledger s.entries).map Prod.fst))
  | .other path _ => inferInstanceAs (Decidable (path ∉ (ledger s.entries).map Prod.fst))

/-- The invariant: the files are kept, and their names are those of
`mkstemp`. -/
structure Inv (quData : QuarantineData) (s : State) : Prop where
  kept : Kept s.files (ledger s.entries)
  named : ∀ e ∈ s.entries, ∃ dir xxxxxx, quData.quarantineDir = some dir ∧
    e.newpath = newPath dir xxxxxx ∧ xxxxxx.length = 6

theorem mem_ledger_paths {entries : List Entry} {p : CString}
    (h : p ∈ (ledger entries).map Prod.fst) :
    ∃ e ∈ entries, e.newpath ∈ (ledger entries).map Prod.fst ∧
      (p = e.newpath ∨ p = infoPath e.newpath) := by
  obtain ⟨⟨q, f⟩, hmem, rfl⟩ := List.mem_map.mp h
  obtain ⟨e, he, hkept⟩ := List.mem_flatMap.mp hmem
  have hnew : e.newpath ∈ (ledger entries).map Prod.fst :=
    List.mem_map.mpr ⟨(e.newpath, e.stored), List.mem_flatMap.mpr ⟨e, he, List.mem_cons_self⟩, rfl⟩
  refine ⟨e, he, hnew, ?_⟩
  rcases List.mem_cons.mp hkept with hpair | hinfo
  · exact .inl (Prod.mk.inj hpair).1
  · obtain ⟨info, hmem⟩ := Option.mem_toList.mp hinfo |> Option.map_eq_some_iff.mp
    exact .inr (Prod.mk.inj hmem.2).1.symm

/-- The name of an information file is no name of `mkstemp`, so it is new
with the name that it belongs to. -/
theorem Inv.infoPath_notMem {s : State} (h : Inv quData s) {dir xxxxxx : CString}
    (hdir : quData.quarantineDir = some dir) (hlength : xxxxxx.length = 6)
    (hnew : newPath dir xxxxxx ∉ (ledger s.entries).map Prod.fst) :
    infoPath (newPath dir xxxxxx) ∉ (ledger s.entries).map Prod.fst := by
  intro hmem
  obtain ⟨e, he, hpath, hsame⟩ := mem_ledger_paths hmem
  obtain ⟨dir', x, hdir', hnewpath, hx⟩ := h.named e he
  obtain rfl : dir = dir' := Option.some.inj (hdir.symm.trans hdir')
  rcases hsame with hsame | hsame
  · have hlen := congrArg List.length hsame
    rw [hnewpath] at hlen
    simp only [infoPath, newPath, List.length_append, List.length_cons] at hlen
    have hinfo : ".info".toList.length = 5 := by decide
    omega
  · rw [List.append_cancel_right hsame] at hnew
    exact hnew hpath

theorem Inv.callback {s s' : State} {report : A6oReport} {calls : Calls} (h : Inv quData s)
    (hspares : Spares s (.callback report calls))
    (hstep : step quData s (.callback report calls) = some s') : Inv quData s' := by
  obtain ⟨-, hfresh, report', files', hcall, rfl⟩ := step_callback hstep
  have hnew : ∀ {dir xxxxxx temp}, quData.quarantineDir = some dir →
      calls.mkstemp = some (xxxxxx, temp) →
      newPath dir xxxxxx ∉ (ledger s.entries).map Prod.fst :=
    fun hdir hmade => h.kept.notMem (hfresh _ hdir _ hmade).2.2
  have hsame : ∀ {files}, Kept files (ledger s.entries) →
      Inv quData (s.called report' files none) := by
    intro files hkept
    refine ⟨?_, ?_⟩
    · simpa using hkept
    · simpa using h.named
  rcases quarantineCallback_cases hcall with ⟨-, hnone, heq⟩ |
    ⟨dir, ret, files'', -, -, hdir, hdone, heq⟩
  · cases heq
    rw [hnone]
    exact hsame h.kept
  cases heq
  generalize hentry : quarantined quData calls s.files report = entry at hdone
  cases hdone with
  | unmade hmade => exact hsame h.kept
  | unread hmade hstat => exact hsame (h.kept.put (hnew hdir hmade) _)
  | unmoved hmade hstat => exact hsame (h.kept.put (hnew hdir hmade) _)
  | @moved xxxxxx temp _ e hmade hstat hpath hname hstored hinfo hret =>
    have hlength := (hfresh dir hdir _ hmade).1
    have hinfoPath := h.infoPath_notMem hdir hlength (hnew hdir hmade)
    have hmoved : Kept (move (put s.files (newPath dir xxxxxx) (some temp)) e.path e.newpath
        e.stored) (ledger s.entries ++ [(e.newpath, e.stored)]) := by
      refine Kept.enter ?_ (hname ▸ hnew hdir hmade) (move_target ..)
      exact (h.kept.put (hnew hdir hmade) _).move (hspares _ hpath) (hname ▸ hnew hdir hmade) _
    refine ⟨?_, ?_⟩
    · have hledger : ledger (s.entries ++ [e]) = ledger s.entries ++ e.kept := by
        rw [ledger, List.flatMap_append]
        simp [ledger]
      rw [RunState.called_entries, Option.toList_some, hledger]
      show Kept (e.apply _) _
      unfold Entry.apply Entry.kept
      cases e.info with
      | none => exact hmoved
      | some info =>
        have hfree : infoPath e.newpath ∉
            (ledger s.entries ++ [(e.newpath, e.stored)]).map Prod.fst := by
          refine notMem_enter (hname ▸ hinfoPath) fun heq => ?_
          have hlen := congrArg List.length heq
          rw [infoPath, List.length_append] at hlen
          have hinfo : ".info".toList.length = 5 := by decide
          omega
        have hput := (hmoved.put hfree (some info)).enter hfree (put_self ..)
        rw [List.append_assoc] at hput
        exact hput
    · intro e' he'
      rw [RunState.called_entries, Option.toList_some] at he'
      rcases List.mem_append.mp he' with he' | he'
      · exact h.named e' he'
      · obtain rfl : e' = e := by simpa using he'
        exact ⟨dir, xxxxxx, hdir, hname, hlength⟩

theorem Inv.step {s s' : State} {l : Label} (h : Inv quData s) (hspares : Spares s l)
    (hstep : step quData s l = some s') : Inv quData s' := by
  cases l with
  | callback report calls => exact h.callback hspares hstep
  | other path file =>
    cases hstep
    exact ⟨h.kept.put hspares file, h.named⟩

theorem entries_subset {s s' : State} {l : Label} (h : step quData s l = some s') {e : Entry}
    (he : e ∈ s.entries) : e ∈ s'.entries := by
  cases l with
  | callback report calls =>
    obtain ⟨-, -, report', files, -, rfl⟩ := step_callback h
    exact List.mem_append_left _ he
  | other path file =>
    cases h
    exact he

/-- What a call moves. -/
theorem quarantined_spec {calls : Calls} {files files' : Files} {report report' : A6oReport}
    {e : Entry} (hcall : quarantineCallback quData calls files report = .ok (report', files'))
    (h : quarantined quData calls files report = some e) :
    report.path = some e.path ∧ e.stored.content = e.file.content ∧
      ∀ info, e.info = some info → info.content = infoText e.path e.file := by
  rcases quarantineCallback_cases hcall with ⟨-, hnone, -⟩ |
    ⟨dir, ret, files'', -, -, hdir, hdone, -⟩
  · rw [h] at hnone
    cases hnone
  · rw [h] at hdone
    cases hdone with
    | moved e hmade hstat hpath hname hstored hinfo hret => exact ⟨hpath, hstored, hinfo⟩

theorem inv_of_run {as : List Label} {s s' : State} (h : Inv quData s)
    (hall : AllSteps (step quData) Spares s as) (hrun : run (step quData) s as = some s') :
    Inv quData s' :=
  run_invariant_of_allSteps (fun _ _ _ h hspares hstep => h.step hspares hstep) as s s' h hall hrun

/-- In a run in which no file that the quarantine keeps is reported, or
written by another program, each file that a callback moves is found under
its new name in every later state, with its contents and with the
information that identifies it. -/
theorem quarantined_kept {before after : List Label} {report : A6oReport} {calls : Calls}
    {s u t : State} (hstart : s.entries = [])
    (hbefore : run (step quData) s before = some u)
    (hafter : run (step quData) u (.callback report calls :: after) = some t)
    (hall : AllSteps (step quData) Spares s (before ++ .callback report calls :: after))
    {e : Entry} (he : quarantined quData calls u.files report = some e) :
    report.path = some e.path ∧
      (∃ stored, t.files e.newpath = some stored ∧ stored.content = e.file.content) ∧
      (e.info ≠ none → ∃ info, t.files (infoPath e.newpath) = some info ∧
        info.content = infoText e.path e.file) := by
  have hrun : run (step quData) s (before ++ .callback report calls :: after) = some t := by
    rw [run_append, hbefore]
    exact hafter
  have hinv : Inv quData s := by
    refine ⟨?_, ?_⟩
    · rw [hstart]
      exact kept_nil _
    · rw [hstart]
      exact fun _ he => absurd he List.not_mem_nil
  have hkept := (inv_of_run hinv hall hrun).kept
  obtain ⟨v, hstep, hrest⟩ := run_cons_eq_some.mp hafter
  obtain ⟨-, -, report', files', hcall, rfl⟩ := step_callback hstep
  obtain ⟨hpath, hstored, hinfo⟩ := quarantined_spec hcall he
  have hmem : e ∈ t.entries := by
    refine run_invariant (P := fun t => e ∈ t.entries)
      (fun _ _ _ hmem hstep => entries_subset hstep hmem) after _ t ?_ hrest
    simp [he]
  have hfound : ∀ pair ∈ e.kept, t.files pair.1 = some pair.2 := fun pair hpair =>
    hkept.found pair (List.mem_flatMap.mpr ⟨e, hmem, hpair⟩)
  refine ⟨hpath, ⟨e.stored, hfound _ List.mem_cons_self, hstored⟩, fun hsome => ?_⟩
  obtain ⟨info, hi⟩ := Option.ne_none_iff_exists'.mp hsome
  refine ⟨info, hfound (infoPath e.newpath, info) ?_, hinfo info hi⟩
  rw [Entry.kept, hi]
  simp

/-- A system with one file, which is malware. -/
def malwareFile : FileData := ⟨['x'], 0o100755, 1000, 1000⟩

/-- One file, that is malware. -/
def oneFile : State :=
  { files := fun p => if p = "/m".toList then some malwareFile else none
    entries := []
    reports := [] }

/-- It is reported. -/
def malwareReport : A6oReport := { a6oReportInit (some "/m".toList) with status := .malware }

/-- Every call succeeds. -/
def allSucceed : Calls :=
  { mkstemp := some ("abcdef".toList, ⟨[], 0o100600, 0, 0⟩)
    stat := true
    rename := true
    chmod := true
    fopen := some ⟨[], 0o100644, 0, 0⟩ }

/-- The quarantine is enabled. -/
def enabled : QuarantineData := ⟨some "/q".toList, 1⟩

/-- The file is found in the quarantine after another one took its place. -/
theorem quarantined_kept_replaced :
    ∃ t, run (step enabled) oneFile
        [.callback malwareReport allSucceed, .other "/m".toList (some malwareFile)] = some t ∧
      ∃ stored, t.files "/q/abcdef".toList = some stored ∧ stored.content = ['x'] := by
  obtain ⟨t, ht⟩ := Option.isSome_iff_exists.mp (by decide :
    (run (step enabled) oneFile
      [.callback malwareReport allSucceed, .other "/m".toList (some malwareFile)]).isSome = true)
  have he : quarantined enabled allSucceed oneFile.files malwareReport =
      some ⟨"/m".toList, malwareFile, "/q/abcdef".toList, malwareFile.chmod0,
        some ⟨infoText "/m".toList malwareFile, 0o100644, 0, 0⟩⟩ := rfl
  exact ⟨t, ht, (@quarantined_kept enabled [] _ malwareReport allSucceed oneFile oneFile t rfl rfl
    ht (by decide) _ he).2.1⟩

/-! ## Marked reports -/

/-- The reports that say so are those whose file was moved. -/
def MarksMoved (s : State) : Prop := RunState.MarksMoved Entry.path s

/-- The file that `mkstemp` was called for can be read by `stat`. -/
def StatSucceeds (quData : QuarantineData) (s : State) : Label → Prop
  | .callback report calls => ∀ dir, quData.quarantineDir = some dir → ∀ made,
      calls.mkstemp = some made → quData.enable ≠ 0 → report.status = .malware →
        calls.statFile (put s.files (newPath dir made.1) (some made.2)) report.path ≠ none
  | .other _ _ => True

instance (quData : QuarantineData) (s : State) : ∀ l, Decidable (StatSucceeds quData s l)
  | .callback report calls =>
    inferInstanceAs (Decidable (∀ dir, quData.quarantineDir = some dir → ∀ made,
      calls.mkstemp = some made → quData.enable ≠ 0 → report.status = .malware →
        calls.statFile (put s.files (newPath dir made.1) (some made.2)) report.path ≠ none))
  | .other _ _ => .isTrue trivial

/-- One callback keeps the marks right if and only if its `stat` succeeds. -/
theorem marksMoved_step {s s' : State} {l : Label} (h : MarksMoved s)
    (hstep : step quData s l = some s') : MarksMoved s' ↔ StatSucceeds quData s l := by
  cases l with
  | other path file =>
    cases hstep
    exact ⟨fun _ => trivial, fun _ => h⟩
  | callback report calls =>
    obtain ⟨haction, -, report', files, hcall, rfl⟩ := step_callback hstep
    have hpath := fun e he => (quarantined_spec (e := e) hcall he).1
    rcases quarantineCallback_cases hcall with ⟨hskip, hnone, heq⟩ |
      ⟨dir, ret, files', henable, hstatus, hdir, hdone, heq⟩
    · cases heq
      rw [hnone]
      refine ⟨fun _ dir _ made _ henable hstatus => absurd hstatus (hskip henable), fun _ => ?_⟩
      exact (RunState.MarksMoved.called_iff h haction (fun _ he => by cases he) false _).mpr rfl
    cases heq
    generalize hentry : quarantined quData calls s.files report = entry at hdone hpath
    rw [MarksMoved, RunState.MarksMoved.called_iff h haction hpath]
    -- whether `stat` succeeds is asked only after `mkstemp`
    have hasked : StatSucceeds quData s (.callback report calls) ↔ ∀ made,
        calls.mkstemp = some made →
          calls.statFile (put s.files (newPath dir made.1) (some made.2)) report.path ≠ none := by
      simp [StatSucceeds, hdir, henable, hstatus]
    rw [hasked]
    cases hdone with
    | unmade hmade => simp [hmade]
    | unread hmade hstat => simp [hmade, hstat]
    | unmoved hmade hstat => simp [hmade, hstat]
    | moved e hmade hstat hpath hname hstored hinfo hret => simp [hmade, hstat, hret]

/-- The reports marked as quarantined are those whose file was moved, in all
states of a run, if and only if `stat` never fails after `mkstemp`. -/
theorem marksMoved_iff {as : List Label} {s t : State} (hentries : s.entries = [])
    (hreports : s.reports = []) (hrun : run (step quData) s as = some t) :
    (∀ before after u, as = before ++ after → run (step quData) s before = some u →
      MarksMoved u) ↔ AllSteps (step quData) (StatSucceeds quData) s as := by
  refine reached_iff_allSteps (fun _ h => h)
    (fun _ _ _ h hstep hok => (marksMoved_step h hstep).mpr hok)
    (fun _ _ _ h hstep hnot hmarks => hnot ((marksMoved_step h hstep).mp hmarks)) as s t ?_ hrun
  rw [MarksMoved, RunState.MarksMoved, hentries, hreports]
  rfl

/-- A file that is gone when `stat` is called: its report is marked. -/
theorem marksMoved_iff_gone :
    ¬ ∀ before after u,
      [.other "/m".toList none, .callback malwareReport allSucceed] = before ++ after →
        run (step enabled) oneFile before = some u → MarksMoved u := by
  obtain ⟨t, ht⟩ := Option.isSome_iff_exists.mp (by decide :
    (run (step enabled) oneFile
      [.other "/m".toList none, .callback malwareReport allSucceed]).isSome = true)
  rw [marksMoved_iff rfl rfl ht]
  decide

end Armadito.Quarantine
