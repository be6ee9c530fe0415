import Armadito.Lib.Run
import Armadito.Quarantine.Windows

/-!
# Quarantine.WindowsRuns

What becomes of files that the Windows module quarantines. The new path
holds the name of the file, cut, and the second at which it is moved, and a
file already there is replaced: two files whose names differ at most in case
are one file afterwards if they are moved in one second.
-/

namespace Armadito.Quarantine.Windows

open Armadito.Core LastCut Ledger Transition

/-! ## Times -/

theorem ofDigitChars_zeroPadded (width n : Nat) :
    Nat.ofDigitChars 10 (zeroPadded width n) 0 = n := by
  rw [zeroPadded, List.leftpad, Nat.ofDigitChars_append, Nat.ofDigitChars_replicate_zero,
    Nat.mul_zero, Nat.ofDigitChars_ten_toDigits]

theorem zeroPadded_inj {width n n' : Nat} (h : zeroPadded width n = zeroPadded width n') :
    n = n' := by
  rw [← ofDigitChars_zeroPadded width n, h, ofDigitChars_zeroPadded]

theorem le_length_zeroPadded (width n : Nat) : width ≤ (zeroPadded width n).length := by
  rw [zeroPadded, List.length_leftpad]
  exact Nat.le_max_left ..

theorem length_zeroPadded_two {n : Nat} (h : n < 100) : (zeroPadded 2 n).length = 2 := by
  rw [zeroPadded, List.length_leftpad]
  exact Nat.max_eq_left ((Nat.length_toDigits_le_iff (by decide) (by decide)).mpr h)

theorem isDigit_of_mem_zeroPadded {width n : Nat} {c : Char} (h : c ∈ zeroPadded width n) :
    c.isDigit := by
  rcases List.mem_append.mp h with hzero | hdigit
  · rw [List.eq_of_mem_replicate hzero]
    decide
  · exact Nat.isDigit_of_mem_toDigits (by decide) (by decide) hdigit

/-- The year has four digits where the timestamp fits. -/
theorem length_text {st : SystemTime} (h : st.text.length < 15) :
    (zeroPadded 4 st.wYear).length = 4 ∧ st.text.length = 14 := by
  have hmonth := length_zeroPadded_two (Nat.lt_of_le_of_lt st.month_le (by decide))
  have hday := length_zeroPadded_two (Nat.lt_of_le_of_lt st.day_le (by decide))
  have hhour := length_zeroPadded_two (Nat.lt_of_le_of_lt st.hour_le (by decide))
  have hminute := length_zeroPadded_two (Nat.lt_of_le_of_lt st.minute_le (by decide))
  have hsecond := length_zeroPadded_two (Nat.lt_of_le_of_lt st.second_le (by decide))
  have hyear := le_length_zeroPadded 4 st.wYear
  simp only [SystemTime.text, List.length_append] at h ⊢
  omega

theorem text_inj {st st' : SystemTime} (hfits : st.text.length < 15)
    (hfits' : st'.text.length < 15) (h : st.text = st'.text) : st = st' := by
  have htwo : ∀ {n n' : Nat} {l l' : CString}, n < 100 → n' < 100 →
      zeroPadded 2 n ++ l = zeroPadded 2 n' ++ l' → n = n' ∧ l = l' := by
    intro n n' l l' hn hn' heq
    have hlength : (zeroPadded 2 n).length = (zeroPadded 2 n').length := by
      rw [length_zeroPadded_two hn, length_zeroPadded_two hn']
    obtain ⟨hpad, hrest⟩ := List.append_inj heq hlength
    exact ⟨zeroPadded_inj hpad, hrest⟩
  have hlength : (zeroPadded 4 st.wYear).length = (zeroPadded 4 st'.wYear).length := by
    rw [(length_text hfits).1, (length_text hfits').1]
  obtain ⟨hyear, h⟩ := List.append_inj h hlength
  obtain ⟨hmonth, h⟩ := htwo (Nat.lt_of_le_of_lt st.month_le (by decide))
    (Nat.lt_of_le_of_lt st'.month_le (by decide)) h
  obtain ⟨hday, h⟩ := htwo (Nat.lt_of_le_of_lt st.day_le (by decide))
    (Nat.lt_of_le_of_lt st'.day_le (by decide)) h
  obtain ⟨hhour, h⟩ := htwo (Nat.lt_of_le_of_lt st.hour_le (by decide))
    (Nat.lt_of_le_of_lt st'.hour_le (by decide)) h
  obtain ⟨hminute, h⟩ := htwo (Nat.lt_of_le_of_lt st.minute_le (by decide))
    (Nat.lt_of_le_of_lt st'.minute_le (by decide)) h
  exact SystemTime.ext (zeroPadded_inj hyear) hmonth hday hhour hminute (zeroPadded_inj h)

theorem isDigit_of_mem_text {st : SystemTime} {c : Char} (h : c ∈ st.text) : c.isDigit := by
  simp only [SystemTime.text, List.mem_append] at h
  rcases h with h | h | h | h | h | h <;> exact isDigit_of_mem_zeroPadded h

theorem getTimestampString_eq_some {st : SystemTime} {timestamp : CString}
    (h : getTimestampString st = some timestamp) :
    timestamp = st.text ∧ st.text.length < 15 := by
  obtain ⟨hfits, h⟩ := Option.ite_none_right_eq_some.mp h
  exact ⟨(Option.some.inj h).symm, hfits⟩

/-! ## Names -/

theorem strncatS_eq_some {dest source result : CString} {size count : Nat}
    (h : strncatS dest size source count = some result) : result = dest ++ source.take count :=
  (Option.some.inj (Option.ite_none_right_eq_some.mp h).2).symm

theorem take_strnlenMaxPath (s : CString) : s.take (strnlenMaxPath s) = s.take maxPath := by
  rw [strnlenMaxPath, Nat.min_comm, ← List.take_eq_take_min]

/-- The path that is built: the directory and the name, each cut, and the
time. -/
theorem buildLocationFilePath_eq_some {moduleFile : Option CString} {filepath specialDir : CString}
    {st : SystemTime} {qPath : CString}
    (h : buildLocationFilePath moduleFile (some filepath) (some specialDir) st =
      some (some qPath)) :
    ∃ location filename, getLocationCompletepath moduleFile specialDir = some (some location) ∧
      getFilenameFromPath filepath = some filename ∧ st.text.length < 15 ∧
      qPath = location.take maxPath ++ (filename.take maxPath ++ '_' :: st.text) := by
  simp only [buildLocationFilePath, Option.bind_eq_bind, Option.bind_eq_some_iff] at h
  obtain ⟨location, hlocation, h⟩ := h
  cases location with
  | none => cases h
  | some location =>
    cases hname : getFilenameFromPath filepath with
    | none =>
      rw [hname] at h
      cases h
    | some filename =>
      simp only [hname, Option.bind_eq_some_iff] at h
      obtain ⟨timestamp, htime, p₁, h₁, p₂, h₂, p₃, h₃, p₄, h₄, h⟩ := h
      obtain ⟨rfl, hfits⟩ := getTimestampString_eq_some htime
      refine ⟨location, filename, hlocation, rfl, hfits, ?_⟩
      have hshort : st.text.length ≤ maxPath := by
        simp only [maxPath]
        omega
      obtain rfl : p₄ = qPath := Option.some.inj (Option.some.inj h)
      rw [strncatS_eq_some h₄, strncatS_eq_some h₃, strncatS_eq_some h₂, strncatS_eq_some h₁]
      simp only [take_strnlenMaxPath, List.nil_append, List.append_assoc]
      rw [List.take_of_length_le hshort]
      rfl

section

variable (table : UpcaseTable)

theorem UpcaseTable.key_append (path path' : CString) :
    table.key (path ++ path') = table.key path ++ table.key path' :=
  List.map_append

theorem UpcaseTable.key_take (path : CString) (n : Nat) :
    table.key (path.take n) = (table.key path).take n :=
  List.map_take

theorem UpcaseTable.key_text (st : SystemTime) : table.key st.text = st.text := by
  rw [UpcaseTable.key,
    List.map_congr_left fun c hc => table.upcase_digit c (isDigit_of_mem_text hc),
    List.map_id']

theorem UpcaseTable.suffix_infoPath {path info : CString} (h : infoPath path = some info) :
    table.key ".info".toList <:+ table.key info := by
  obtain ⟨path', -, h⟩ := Option.bind_eq_some_iff.mp h
  rw [strncatS_eq_some h, take_strnlenMaxPath]
  exact List.IsSuffix.map _ ⟨path', rfl⟩

end

/-! ## One call -/

variable {process : Process} {quData : QuarantineData}

/-- An entry is where `BuildLocationFilePath` puts it. -/
def Located (process : Process) (quData : QuarantineData) (e : Entry) : Prop :=
  ∃ specialDir, quData.quarantineDir = some specialDir ∧
    buildLocationFilePath process.moduleFile (some e.path) (some specialDir) e.time =
      some (some e.newpath)

/-- The names of the files, as far as they are copied, differ at most in case,
and the seconds are the same. -/
def SameTarget (table : UpcaseTable) (e e' : Entry) : Prop :=
  (getFilenameFromPath e.path).map (fun name => (table.key name).take maxPath) =
    (getFilenameFromPath e'.path).map (fun name => (table.key name).take maxPath) ∧
  e.time = e'.time

instance (table : UpcaseTable) (e e' : Entry) : Decidable (SameTarget table e e') :=
  inferInstanceAs (Decidable (_ ∧ _))

theorem Located.newpath_eq_iff {e e' : Entry} (h : Located process quData e)
    (h' : Located process quData e') :
    process.table.key e.newpath = process.table.key e'.newpath ↔
      SameTarget process.table e e' := by
  obtain ⟨dir, hdir, hbuild⟩ := h
  obtain ⟨dir', hdir', hbuild'⟩ := h'
  obtain rfl := Option.some.inj (hdir.symm.trans hdir')
  obtain ⟨location, filename, hlocation, hname, hfits, hnew⟩ :=
    buildLocationFilePath_eq_some hbuild
  obtain ⟨location', filename', hlocation', hname', hfits', hnew'⟩ :=
    buildLocationFilePath_eq_some hbuild'
  obtain rfl := Option.some.inj (Option.some.inj (hlocation.symm.trans hlocation'))
  have hkey : ∀ (name : CString) (st : SystemTime),
      process.table.key (location.take maxPath ++ (name.take maxPath ++ '_' :: st.text)) =
        process.table.key (location.take maxPath) ++
          ((process.table.key name).take maxPath ++ process.table.upcase '_' :: st.text) := by
    intro name st
    rw [UpcaseTable.key_append, UpcaseTable.key_append, process.table.key_take name]
    show _ ++ (_ ++ process.table.upcase '_' :: process.table.key st.text) = _
    rw [UpcaseTable.key_text]
  rw [SameTarget, hname, hname', hnew, hnew', Option.map_some, Option.map_some,
    Option.some.injEq, hkey, hkey]
  constructor
  · intro heq
    have hlength : (process.table.upcase '_' :: e.time.text).length =
        (process.table.upcase '_' :: e'.time.text).length := by
      rw [List.length_cons, List.length_cons, (length_text hfits).2, (length_text hfits').2]
    obtain ⟨hnames, htimes⟩ := List.append_inj' (List.append_cancel_left heq) hlength
    exact ⟨hnames, text_inj hfits hfits' (List.cons.inj htimes).2⟩
  · rintro ⟨hnames, htimes⟩
    rw [hnames, htimes]

/-- No file is quarantined where an information file is. -/
theorem Located.not_info {e : Entry} (h : Located process quData e) :
    ¬ process.table.key ".info".toList <:+ process.table.key e.newpath := by
  obtain ⟨dir, -, hbuild⟩ := h
  obtain ⟨location, filename, -, -, hfits, hnew⟩ := buildLocationFilePath_eq_some hbuild
  intro hinfo
  have htext : e.time.text <:+ process.table.key e.newpath := by
    have hsuffix : e.time.text <:+ e.newpath :=
      ⟨location.take maxPath ++ (filename.take maxPath ++ ['_']), by rw [hnew]; simp⟩
    rw [← process.table.key_text e.time]
    exact hsuffix.map _
  have hlength := (length_text hfits).2
  have hle : (process.table.key ".info".toList).length ≤ e.time.text.length := by
    rw [UpcaseTable.key, List.length_map, hlength]
    decide
  -- the last letter of `.info` would be a digit of the time
  have hmem : process.table.upcase 'o' ∈ e.time.text :=
    (List.suffix_of_suffix_length_le hinfo htext hle).subset
      (List.mem_map_of_mem (by decide : 'o' ∈ ".info".toList))
  exact absurd (process.table.isDigit_upcase _ (isDigit_of_mem_text hmem)) (by decide)

/-- The information file and its copy are all that is written. -/
theorem writeQuarantineInfoFile_frame {calls : Calls} {files files' : Files}
    {oldfilepath quarantinePath : CString} {report : A6oReport} {ret : Int}
    (h : writeQuarantineInfoFile process calls files oldfilepath quarantinePath report =
      some (ret, files')) {p : CString} (hp : ¬ process.table.key ".info".toList <:+ p) :
    files' p = files p := by
  simp only [writeQuarantineInfoFile, Option.bind_eq_bind, Option.bind_eq_some_iff] at h
  obtain ⟨info, hinfo, alertTmp, -, alert, halert, date, -, fname, -, h⟩ := h
  have hne : p ≠ process.table.key info :=
    fun heq => hp (heq ▸ process.table.suffix_infoPath hinfo)
  have hne' : p ≠ process.table.key alert :=
    fun heq => hp (heq ▸ process.table.suffix_infoPath halert)
  cases hjson : process.jsonString (infoFields date fname oldfilepath report) with
  | none =>
    rw [hjson] at h
    cases h
    rfl
  | some content =>
    simp only [hjson] at h
    split_ifs at h
    · cases h
      rw [put_of_ne hne', put_of_ne hne]
    · cases h
      rw [put_of_ne hne]
    · cases h
      rw [put_of_ne hne]
    · cases h
      rfl

/-- What is needed to write the information about a file that was moved to
`newpath`. -/
def InfoWritten (process : Process) (calls : Calls) (report : A6oReport) (e : Entry) : Prop :=
  calls.createFile = true ∧ calls.writeFile = true ∧
    ∀ fname, getFilenameFromPath e.newpath = some fname →
      process.jsonString (infoFields calls.date.text fname e.path report) ≠ none

theorem writeQuarantineInfoFile_eq_zero {calls : Calls} {files files' : Files} {report : A6oReport}
    {e : Entry} {ret : Int}
    (h : writeQuarantineInfoFile process calls files e.path e.newpath report =
      some (ret, files')) : ret = 0 ↔ InfoWritten process calls report e := by
  simp only [writeQuarantineInfoFile, Option.bind_eq_bind, Option.bind_eq_some_iff] at h
  obtain ⟨info, -, alertTmp, -, alert, -, date, hdate, fname, hfname, h⟩ := h
  obtain ⟨rfl, -⟩ := getTimestampString_eq_some hdate
  have hjsonIff : InfoWritten process calls report e ↔
      calls.createFile = true ∧ calls.writeFile = true ∧
        process.jsonString (infoFields calls.date.text fname e.path report) ≠ none := by
    simp [InfoWritten, hfname]
  rw [hjsonIff]
  cases hjson : process.jsonString (infoFields calls.date.text fname e.path report) with
  | none =>
    rw [hjson] at h
    cases h
    simp
  | some content =>
    simp only [hjson] at h
    split_ifs at h with hcreate hwrite hcopy
    · cases h
      simp [hcreate, hwrite]
    · cases h
      simp [hcreate, hwrite]
    · cases h
      simp [hwrite]
    · cases h
      simp [hcreate]

/-- What `quarantine_do` does: nothing, or a file moved. -/
inductive Done (process : Process) (quData : QuarantineData) (calls : Calls) (files : Files)
    (report : A6oReport) : Option Entry → Int → Files → Prop where
  | unmoved {ret : Int} (hret : ret ≠ 0) : Done process quData calls files report none ret files
  | moved {ret : Int} {files' : Files} (e : Entry) (hpath : report.path = some e.path)
      (hlocated : Located process quData e)
      (hcontent : files (process.table.key e.path) = some e.content)
      (hframe : ∀ p, ¬ process.table.key ".info".toList <:+ p →
        files' p =
          move files (process.table.key e.path) (process.table.key e.newpath) e.content p)
      (hret : ret = 0 ↔ InfoWritten process calls report e) :
    Done process quData calls files report (some e) ret files'

theorem buildLocationFilePath_dir {moduleFile filepath specialDir : Option CString}
    {st : SystemTime} {qPath : CString}
    (h : buildLocationFilePath moduleFile filepath specialDir st = some (some qPath)) :
    ∃ dir, specialDir = some dir := by
  cases filepath with
  | none => cases h
  | some filepath =>
    cases specialDir with
    | none => cases h
    | some dir => exact ⟨dir, rfl⟩

theorem createAvDirectory_nonneg {calls : Calls} {dir location : CString} {created : Int}
    (hlocation : getLocationCompletepath process.moduleFile dir = some (some location))
    (h : createAvDirectory process calls (some dir) = some created) :
    ¬ created < 0 ↔ (calls.pathFileExists ∨ calls.createDirectory) := by
  simp only [createAvDirectory, hlocation, Option.bind_eq_bind, Option.bind_some, Option.pure_def,
    Option.some.injEq] at h
  subst h
  cases calls.pathFileExists with
  | true => simp
  | false =>
    cases calls.createDirectory with
    | true => simp
    | false => simp

theorem quarantineDo_cases {calls : Calls} {files files' : Files} {report : A6oReport} {ret : Int}
    (h : quarantineDo process quData calls files report.path report = some (ret, files')) :
    Done process quData calls files report (moved process quData calls files report) ret
      files' := by
  cases hpath : report.path with
  | none =>
    have hnone : moved process quData calls files report = none := by simp [moved, hpath]
    rw [hpath] at h
    cases h
    rw [hnone]
    exact .unmoved (by decide)
  | some path =>
    rw [hpath] at h
    obtain ⟨built, hbuild, h⟩ := Option.bind_eq_some_iff.mp h
    cases built with
    | none =>
      have hnone : moved process quData calls files report = none := by
        simp [moved, hpath, hbuild]
      cases h
      rw [hnone]
      exact .unmoved (by decide)
    | some newpath =>
      obtain ⟨dir, hdir⟩ := buildLocationFilePath_dir hbuild
      rw [hdir] at hbuild
      obtain ⟨location, -, hlocation, -⟩ := buildLocationFilePath_eq_some hbuild
      obtain ⟨created, hcreated, h⟩ := Option.bind_eq_some_iff.mp h
      rw [hdir] at hcreated
      have hexists := createAvDirectory_nonneg hlocation hcreated
      by_cases hneg : created < 0
      · have hnone : moved process quData calls files report = none := by
          simp [moved, mt hexists.mpr (not_not.mpr hneg)]
        rw [if_pos hneg] at h
        cases h
        rw [hnone]
        exact .unmoved (by decide)
      · rw [if_neg hneg, moveAndRecord] at h
        cases hcontent : calls.movedContent process.table files path with
        | none =>
          have hnone : moved process quData calls files report = none := by
            simp [moved, hpath, hdir, hbuild, hcontent]
          rw [hcontent] at h
          cases h
          rw [hnone]
          exact .unmoved (by decide)
        | some content =>
          simp only [hcontent] at h
          obtain ⟨⟨ret', files''⟩, hwrite, h⟩ := Option.bind_eq_some_iff.mp h
          cases h
          let e : Entry := ⟨path, calls.time, newpath, content⟩
          have hsome : moved process quData calls files report = some e := by
            simp [moved, hpath, hdir, hbuild, hcontent, hexists.mp hneg, e]
          have hzero := writeQuarantineInfoFile_eq_zero (e := e) hwrite
          rw [hsome]
          refine .moved e hpath ⟨dir, hdir, hbuild⟩ (Option.ite_none_right_eq_some.mp hcontent).2
            (fun p hp => writeQuarantineInfoFile_frame hwrite hp) ?_
          rw [← hzero]
          by_cases hret : ret' = 0
          · simp [hret]
          · simp [hret]

theorem quarantineCallback_cases {calls : Calls} {files : Files} {report : A6oReport}
    {r : A6oReport × Files} (h : quarantineCallback process quData calls files report = some r) :
    (quarantined process quData calls files report = none ∧ r = (report, files)) ∨
    ∃ ret files', Done process quData calls files report
      (quarantined process quData calls files report) ret files' ∧
      r = (marked (decide (ret = 0)) report, files') := by
  unfold quarantineCallback at h
  split_ifs at h with henable hstatus
  · refine .inl ⟨?_, (Option.some.inj h).symm⟩
    simp [quarantined, henable]
  · obtain ⟨⟨ret, files'⟩, hdo, h⟩ := Option.bind_eq_some_iff.mp h
    have hmoved : quarantined process quData calls files report =
        moved process quData calls files report := by simp [quarantined, henable, hstatus]
    refine .inr ⟨ret, files', ?_, ?_⟩
    · rw [hmoved]
      exact quarantineDo_cases hdo
    · by_cases hret : ret = 0
      · simp only [hret, if_true] at h
        simpa [marked, hret] using (Option.some.inj h).symm
      · simp only [hret, if_false] at h
        simpa [marked, hret] using (Option.some.inj h).symm
  · refine .inl ⟨?_, (Option.some.inj h).symm⟩
    simp [quarantined, hstatus]

/-! ## Runs -/

theorem step_callback {s s' : State} {report : A6oReport} {calls : Calls}
    (h : step process quData s (.callback report calls) = some s') :
    report.action = a6oActionNone ∧
      ∃ report' files,
        quarantineCallback process quData calls s.files report = some (report', files) ∧
        s' = s.called report' files (quarantined process quData calls s.files report) := by
  obtain ⟨haction, h⟩ := Option.ite_none_right_eq_some.mp h
  obtain ⟨⟨report', files⟩, hcall, h⟩ := Option.bind_eq_some_iff.mp h
  exact ⟨haction, report', files, hcall, (Option.some.inj h).symm⟩

/-- What was moved, by the new paths. -/
def ledger (table : UpcaseTable) (entries : List Entry) : List (CString × CString) :=
  entries.map fun e => (table.key e.newpath, e.content)

theorem ledger_paths (table : UpcaseTable) (entries : List Entry) :
    (ledger table entries).map Prod.fst = entries.map fun e => table.key e.newpath := by
  rw [ledger, List.map_map]
  rfl

/-- The path names no file in the quarantine. -/
def Outside (table : UpcaseTable) (entries : List Entry) (path : CString) : Prop :=
  table.key path ∉ entries.map fun e => table.key e.newpath

instance (table : UpcaseTable) (entries : List Entry) (path : CString) :
    Decidable (Outside table entries path) :=
  inferInstanceAs (Decidable (_ ∉ _))

/-- No step is about a file in the quarantine. -/
def Spares (table : UpcaseTable) (s : State) : Label → Prop
  | .callback report _ => ∀ p, report.path = some p → Outside table s.entries p
  | .other path _ => Outside table s.entries path

instance (table : UpcaseTable) (s : State) : ∀ l, Decidable (Spares table s l)
  | .callback report _ =>
    inferInstanceAs (Decidable (∀ p, report.path = some p → Outside table s.entries p))
  | .other path _ => inferInstanceAs (Decidable (Outside table s.entries path))

/-- The invariant: at each new path is the file that was moved there last. -/
structure Inv (process : Process) (quData : QuarantineData) (s : State) : Prop where
  latest : Latest s.files (ledger process.table s.entries)
  located : ∀ e ∈ s.entries, Located process quData e

theorem Inv.callback {s s' : State} {report : A6oReport} {calls : Calls}
    (h : Inv process quData s) (hspares : Spares process.table s (.callback report calls))
    (hstep : step process quData s (.callback report calls) = some s') :
    Inv process quData s' := by
  obtain ⟨-, report', files', hcall, rfl⟩ := step_callback hstep
  have hsame : Inv process quData (s.called report' s.files none) := by
    refine ⟨?_, ?_⟩
    · simpa using h.latest
    · simpa using h.located
  rcases quarantineCallback_cases hcall with ⟨hnone, heq⟩ | ⟨ret, files'', hdone, heq⟩
  · cases heq
    rw [hnone]
    exact hsame
  cases heq
  generalize hentry : quarantined process quData calls s.files report = entry at hdone
  cases hdone with
  | unmoved hret => exact hsame
  | moved e hpath hlocated hcontent hframe hret =>
    have hlocated' : ∀ e' ∈ s.entries ++ [e], Located process quData e' := by
      intro e' he'
      rcases List.mem_append.mp he' with he' | he'
      · exact h.located e' he'
      · rw [List.mem_singleton.mp he']
        exact hlocated
    refine ⟨?_, hlocated'⟩
    have hspared : process.table.key e.path ∉ (ledger process.table s.entries).map Prod.fst := by
      rw [ledger_paths]
      exact hspares _ hpath
    have hmoved := h.latest.move hspared (process.table.key e.newpath) e.content
    have hledger : ledger process.table (s.entries ++ [e]) =
        ledger process.table s.entries ++ [(process.table.key e.newpath, e.content)] := by
      rw [ledger, List.map_append]
      rfl
    rw [RunState.called_entries, RunState.called_files, Option.toList_some, hledger]
    refine hmoved.congr fun p hp => hframe p ?_
    rw [← hledger, ledger_paths] at hp
    obtain ⟨e', he', rfl⟩ := List.mem_map.mp hp
    exact (hlocated' e' he').not_info

theorem Inv.step {s s' : State} {l : Label} (h : Inv process quData s)
    (hspares : Spares process.table s l)
    (hstep : step process quData s l = some s') : Inv process quData s' := by
  cases l with
  | callback report calls => exact h.callback hspares hstep
  | other path content =>
    cases hstep
    exact ⟨h.latest.put (by rw [ledger_paths]; exact hspares) content, h.located⟩

/-- In a run in which no file in the quarantine is reported, or written by
another program, all files that were moved are found with their contents if
and only if no two different files whose names differ at most in case were
moved in one second. -/
theorem quarantined_found_iff {as : List Label} {s t : State} (hstart : s.entries = [])
    (hall : AllSteps (step process quData) (Spares process.table) s as)
    (hrun : run (step process quData) s as = some t) :
    (∀ e ∈ t.entries, t.files (process.table.key e.newpath) = some e.content) ↔
      t.entries.Pairwise fun e e' => SameTarget process.table e e' → e.content = e'.content := by
  have hinv : Inv process quData s := by
    refine ⟨?_, ?_⟩
    · rw [hstart]
      exact latest_nil _
    · rw [hstart]
      exact fun _ he => absurd he List.not_mem_nil
  have hinv' : Inv process quData t :=
    run_invariant_of_allSteps (fun _ _ _ h hspares hstep => h.step hspares hstep) as s t hinv hall
      hrun
  have hfound := hinv'.latest.found_iff
  rw [ledger, List.forall_mem_map, List.pairwise_map] at hfound
  rw [hfound]
  refine List.Pairwise.iff_of_mem fun {e e'} he he' => ?_
  rw [(hinv'.located e he).newpath_eq_iff (hinv'.located e' he')]

/-- Two files with one name, but for its case, in different directories. -/
def twoFiles : State :=
  { files := fun p =>
      if p = "C:\\A\\X.EXE".toList then some ['a']
      else if p = "C:\\B\\X.EXE".toList then some ['b'] else none
    entries := []
    reports := [] }

/-- A file that is reported. -/
def malwareReport (path : CString) : A6oReport :=
  { a6oReportInit (some path) with status := .malware }

/-- A time that every call returns. -/
def noon : SystemTime := ⟨2016, 2, 24, 12, 0, 0, by decide, by decide, by decide, by decide,
  by decide, by decide⟩

/-- Every call succeeds. -/
def allSucceed : Calls := ⟨noon, noon, noon, true, true, true, true, true, true⟩

/-- A field of a JSON object, for texts in which only a backslash needs an
escape. -/
def printField (field : String × CString) : CString :=
  '"' :: field.1.toList ++ "\": \"".toList ++
    field.2.flatMap (fun c => if c = '\\' then ['\\', '\\'] else [c]) ++ ['"']

/-- The letters of ASCII. -/
def asciiUpcase : UpcaseTable where
  upcase := Char.toUpper
  upcase_digit := by
    intro c hc
    refine dif_neg fun hletter => ?_
    simp only [Char.isDigit, Bool.and_eq_true, decide_eq_true_eq] at hc
    exact absurd (UInt32.le_trans hletter.1 hc.2) (by decide)
  isDigit_upcase := by
    intro c hc
    unfold Char.toUpper at hc
    split_ifs at hc with hletter
    · -- a capital letter is above the digits
      simp only [Char.isDigit, Bool.and_eq_true, decide_eq_true_eq, ge_iff_le,
        UInt32.le_iff_toNat_le, UInt32.toNat_add] at hc hletter
      have hshift : ('A'.val - 'a'.val).toNat = 2 ^ 32 - 32 := by decide
      have ha : 'a'.val.toNat = 97 := by decide
      have hz : 'z'.val.toNat = 122 := by decide
      have hnine : '9'.val.toNat = 57 := by decide
      omega
    · exact hc

/-- The service, with a table for ASCII letters. -/
def service : Process :=
  { moduleFile := some "C:\\Armadito\\armadito-svc.exe".toList
    jsonString := fun fields =>
      some ("\x7b ".toList ++ List.intercalate ", ".toList (fields.map printField) ++
        " \x7d".toList)
    table := asciiUpcase }

/-- The quarantine is enabled. -/
def enabled : QuarantineData := ⟨some "Quarantine".toList, 1⟩

/-- Two files whose names differ by case. -/
def bothMoved : List Label :=
  [.callback (malwareReport "C:\\a\\X.exe".toList) allSucceed,
    .callback (malwareReport "C:\\b\\x.EXE".toList) allSucceed]

theorem bothMoved_isSome : (run (step service enabled) twoFiles bothMoved).isSome = true := by
  decide

/-- The first file is lost. -/
theorem quarantined_found_iff_lost :
    ∃ t, run (step service enabled) twoFiles bothMoved = some t ∧
      ¬ ∀ e ∈ t.entries, t.files (service.table.key e.newpath) = some e.content := by
  refine ⟨Option.get _ bothMoved_isSome, (Option.some_get _).symm, ?_⟩
  rw [quarantined_found_iff rfl (by decide) (Option.some_get bothMoved_isSome).symm]
  decide

/-! ## Marked reports -/

/-- The reports that say so are those whose file was moved. -/
def MarksMoved (s : State) : Prop := RunState.MarksMoved Entry.path s

/-- The information about a file that is moved is written. -/
def Records (process : Process) (quData : QuarantineData) (s : State) : Label → Prop
  | .callback report calls => ∀ e, quarantined process quData calls s.files report = some e →
      InfoWritten process calls report e
  | .other _ _ => True

/-- One callback keeps the marks right if and only if it writes the
information about what it moves. -/
theorem marksMoved_step {s s' : State} {l : Label} (h : MarksMoved s)
    (hstep : step process quData s l = some s') :
    MarksMoved s' ↔ Records process quData s l := by
  cases l with
  | other path content =>
    cases hstep
    exact ⟨fun _ => trivial, fun _ => h⟩
  | callback report calls =>
    obtain ⟨haction, report', files', hcall, rfl⟩ := step_callback hstep
    rcases quarantineCallback_cases hcall with ⟨hnone, heq⟩ | ⟨ret, files'', hdone, heq⟩
    · cases heq
      have hrecords : Records process quData s (.callback report calls) := by
        intro e he
        rw [hnone] at he
        cases he
      rw [hnone]
      refine ⟨fun _ => hrecords, fun _ => ?_⟩
      exact (RunState.MarksMoved.called_iff h haction (fun _ he => by cases he) false _).mpr rfl
    cases heq
    have hrecords : Records process quData s (.callback report calls) ↔
        ∀ e, quarantined process quData calls s.files report = some e →
          InfoWritten process calls report e := Iff.rfl
    rw [hrecords]
    generalize quarantined process quData calls s.files report = entry at hdone
    have hpath : ∀ e, entry = some e → report.path = some e.path := by
      intro e he
      subst he
      cases hdone with
      | moved e hpath hlocated hcontent hframe hret => exact hpath
    rw [MarksMoved, RunState.MarksMoved.called_iff h haction hpath]
    cases hdone with
    | unmoved hret => simp [hret]
    | moved e hpath hlocated hcontent hframe hret => simp [hret]

/-- The reports marked as quarantined are those whose file was moved, in all
states of a run, if and only if the information about each file that is moved
is written. -/
theorem marksMoved_iff_records {as : List Label} {s t : State} (hentries : s.entries = [])
    (hreports : s.reports = []) (hrun : run (step process quData) s as = some t) :
    (∀ before after u, as = before ++ after → run (step process quData) s before = some u →
      MarksMoved u) ↔ AllSteps (step process quData) (Records process quData) s as := by
  refine reached_iff_allSteps (fun _ h => h)
    (fun _ _ _ h hstep hok => (marksMoved_step h hstep).mpr hok)
    (fun _ _ _ h hstep hnot hmarks => hnot ((marksMoved_step h hstep).mp hmarks)) as s t ?_ hrun
  rw [MarksMoved, RunState.MarksMoved, hentries, hreports]
  rfl

/-- A file is moved, but the information about it cannot be written. -/
theorem marksMoved_iff_records_unwritten :
    ¬ ∀ before after u,
      [.callback (malwareReport "C:\\a\\x.exe".toList) { allSucceed with createFile := false }] =
        before ++ after →
      run (step service enabled) twoFiles before = some u → MarksMoved u := by
  have hsome : (run (step service enabled) twoFiles
      [.callback (malwareReport "C:\\a\\x.exe".toList)
        { allSucceed with createFile := false }]).isSome = true := by decide
  rw [marksMoved_iff_records rfl rfl (Option.some_get hsome).symm]
  rintro ⟨hrecords, -⟩
  have hmoved : (quarantined service enabled { allSucceed with createFile := false } twoFiles.files
      (malwareReport "C:\\a\\x.exe".toList)).isSome = true := by decide
  have hwritten := hrecords _ (Option.some_get hmoved).symm
  exact absurd hwritten.1 (by decide)

end Armadito.Quarantine.Windows
