import Armadito.Conf.Loaded
import Armadito.Lib.Run

/-!
# Conf.ConfDir

How the daemon reads its configuration (`main.c`): the configuration file,
then each file of the configuration directory whose name ends in `.conf`, in
the order of `readdir`. Where the files define different keys, this order
does not matter.
-/

namespace Armadito.Conf

open Transition

/-- The texts of the files that can be opened. -/
abbrev FileTexts := CString → Option (List Char)

/-- `load_conf`; without a result, the daemon exits. -/
def loadConf (texts : FileTexts) (confFile : CString) (conf : A6oConf) : Option A6oConf :=
  let r := a6oConfLoadFile conf (texts confFile)
  if r.1 ≠ 0 then none else some r.2

/-- One round of the loop of `load_conf_dir`. -/
def loadConfDirEntry (texts : FileTexts) (confDir : CString) (conf : A6oConf)
    (fileName : CString) : Option A6oConf :=
  if fileName = ".".toList ∨ fileName = "..".toList then some conf
  else if 5 < fileName.length ∧ fileName.drop (fileName.length - 5) = ".conf".toList then
    loadConf texts (confDir ++ '/' :: fileName) conf
  else some conf

/-- `load_conf_dir`, with the names that `readdir` returns if the directory
can be opened. -/
def loadConfDir (texts : FileTexts) (confDir : CString) (dir : Option (List CString))
    (conf : A6oConf) : Option A6oConf :=
  match dir with
  | none => some conf
  | some names => run (loadConfDirEntry texts confDir) conf names

/-- The configuration that `start_daemon` opens Armadito with. -/
def daemonConf (texts : FileTexts) (confFile confDir : CString) (dir : Option (List CString)) :
    Option A6oConf :=
  (loadConf texts confFile a6oConfNew).bind fun conf => loadConfDir texts confDir dir conf

/-! ## What is loaded -/

/-- The name of a file that is loaded. -/
def isConfName (name : CString) : Bool := 5 < name.length ∧ ".conf".toList <:+ name

theorem isConfName_iff {name : CString} :
    isConfName name = true ↔ ¬ (name = ".".toList ∨ name = "..".toList) ∧
      5 < name.length ∧ name.drop (name.length - 5) = ".conf".toList := by
  have hsuffix : ".conf".toList <:+ name ↔ name.drop (name.length - 5) = ".conf".toList := by
    rw [List.suffix_iff_eq_drop]
    exact eq_comm
  rw [isConfName, decide_eq_true_iff, hsuffix]
  refine ⟨fun h => ⟨?_, h⟩, And.right⟩
  rintro (rfl | rfl)
  · exact absurd h.1 (by decide)
  · exact absurd h.1 (by decide)

theorem loadConf_eq (texts : FileTexts) (confFile : CString) (conf : A6oConf) :
    loadConf texts confFile conf = some (a6oConfLoadFile conf (texts confFile)).2 := rfl

theorem loadConfDirEntry_eq (texts : FileTexts) (confDir : CString) (conf : A6oConf)
    (name : CString) :
    loadConfDirEntry texts confDir conf name =
      if isConfName name then some (a6oConfLoadFile conf (texts (confDir ++ '/' :: name))).2
      else some conf := by
  rw [loadConfDirEntry]
  by_cases hname : isConfName name = true
  · obtain ⟨hdots, hconf⟩ := isConfName_iff.mp hname
    rw [if_neg hdots, if_pos hconf, if_pos hname, loadConf_eq]
  · rw [if_neg hname]
    split_ifs with hdots hconf
    · rfl
    · exact absurd (isConfName_iff.mpr ⟨hdots, hconf⟩) hname
    · rfl

/-- The texts that are loaded: that of the configuration file, and those of
the directory. -/
def loadedTexts (texts : FileTexts) (confFile confDir : CString) (names : List CString) :
    List (Option (List Char)) :=
  texts confFile :: (names.filter isConfName).map fun name => texts (confDir ++ '/' :: name)

/-- What a text adds to an empty configuration. -/
def added (text : Option (List Char)) : A6oConf := (a6oConfLoadFile a6oConfNew text).2

/-- The configuration has what the texts add, and nothing else. -/
def HasAll (conf : A6oConf) (texts : List (Option (List Char))) : Prop :=
  ∀ sect key v, valueOf conf sect key = some v ↔
    ∃ text ∈ texts, valueOf (added text) sect key = some v

theorem HasAll.load {conf : A6oConf} {texts : List (Option (List Char))} (h : HasAll conf texts)
    {text : Option (List Char)} (hdisj : ∀ t ∈ texts, KeysDisjoint (added t) (added text)) :
    HasAll (a6oConfLoadFile conf text).2 (texts ++ [text]) := by
  have hnew : KeysDisjoint conf (added text) := by
    rw [keysDisjoint_iff]
    intro sect key
    cases hv : valueOf conf sect key with
    | none => exact .inl rfl
    | some v =>
      obtain ⟨t, ht, htv⟩ := (h sect key v).mp hv
      refine .inr ((keysDisjoint_iff.mp (hdisj t ht) sect key).resolve_left fun hnone => ?_)
      rw [htv] at hnone
      cases hnone
  intro sect key v
  rw [load_union hnew sect key, Option.or_eq_some_iff]
  constructor
  · rintro (hv | ⟨-, hv⟩)
    · obtain ⟨t, ht, htv⟩ := (h sect key v).mp hv
      exact ⟨t, List.mem_append_left _ ht, htv⟩
    · exact ⟨text, List.mem_append_right _ List.mem_cons_self, hv⟩
  · rintro ⟨t, ht, htv⟩
    rcases List.mem_append.mp ht with ht | ht
    · exact .inl ((h sect key v).mpr ⟨t, ht, htv⟩)
    · rw [List.mem_singleton.mp ht] at htv
      refine .inr ⟨(keysDisjoint_iff.mp hnew sect key).resolve_right fun hnone => ?_, htv⟩
      have hsame := htv.symm.trans hnone
      cases hsame

/-- The loop adds the texts of the names that are left. -/
theorem run_loadConfDirEntry {texts : FileTexts} {confDir : CString} (names : List CString) :
    ∀ {conf : A6oConf} {done : List (Option (List Char))}, HasAll conf done →
      (done ++ (names.filter isConfName).map fun name => texts (confDir ++ '/' :: name)).Pairwise
        (fun t t' => KeysDisjoint (added t) (added t')) →
      ∃ conf', run (loadConfDirEntry texts confDir) conf names = some conf' ∧
        HasAll conf' (done ++ (names.filter isConfName).map
          fun name => texts (confDir ++ '/' :: name)) := by
  induction names with
  | nil =>
    intro conf done h _
    exact ⟨conf, rfl, by simpa using h⟩
  | cons name names ih =>
    intro conf done h hdisj
    by_cases hname : isConfName name = true
    · rw [List.filter_cons_of_pos hname, List.map_cons, List.append_cons] at hdisj ⊢
      have hprefix := (List.pairwise_append.mp hdisj).1
      have hload := h.load fun t ht =>
        (List.pairwise_append.mp hprefix).2.2 t ht _ List.mem_cons_self
      obtain ⟨conf', hrun, hall⟩ := ih hload hdisj
      refine ⟨conf', run_cons_eq_some.mpr ⟨_, ?_, hrun⟩, hall⟩
      rw [loadConfDirEntry_eq, if_pos hname]
    · rw [List.filter_cons_of_neg hname] at hdisj ⊢
      obtain ⟨conf', hrun, hall⟩ := ih h hdisj
      refine ⟨conf', run_cons_eq_some.mpr ⟨_, ?_, hrun⟩, hall⟩
      rw [loadConfDirEntry_eq, if_neg hname]

/-- **The order of the directory does not matter.** Where no key is added by
two of the files, the daemon starts whatever the order in which `readdir`
returns the names, and its configuration has the values of all files, and no
others. -/
theorem daemonConf_perm {texts : FileTexts} {confFile confDir : CString} {names : List CString}
    (hdisj : (loadedTexts texts confFile confDir names).Pairwise
      fun t t' => KeysDisjoint (added t) (added t'))
    {names' : List CString} (hperm : names'.Perm names) :
    ∃ conf, daemonConf texts confFile confDir (some names') = some conf ∧
      HasAll conf (loadedTexts texts confFile confDir names) := by
  have htexts : (loadedTexts texts confFile confDir names').Perm
      (loadedTexts texts confFile confDir names) :=
    ((hperm.filter _).map _).cons _
  have hdisj' := (htexts.pairwise_iff fun {t t'} (h : KeysDisjoint (added t) (added t')) =>
    fun sect key hboth => h sect key hboth.symm).mpr hdisj
  have hfirst : HasAll (added (texts confFile)) [texts confFile] :=
    fun sect key v => by simp
  obtain ⟨conf, hrun, hall⟩ := run_loadConfDirEntry names' hfirst hdisj'
  refine ⟨conf, ?_, fun sect key v => ?_⟩
  · rw [daemonConf, loadConf_eq, Option.bind_some]
    exact hrun
  · rw [hall sect key v]
    exact exists_congr fun t => and_congr_left fun _ => htexts.mem_iff

/-- A configuration file and two files in the directory, with one key each. -/
def threeTexts (path : CString) : Option (List Char) :=
  if path = "/a.conf".toList then some "[s]\na = 1\n".toList
  else if path = "/d/b.conf".toList then some "[s]\nb = 2\n".toList
  else if path = "/d/c.conf".toList then some "[s]\nc = 3\n".toList
  else none

theorem keysDisjoint_singleton {conf conf' : A6oConf} {sect sect' : CString} {k k' : KeyEntry}
    (h : conf.sections = [⟨sect, [k]⟩]) (h' : conf'.sections = [⟨sect', [k']⟩])
    (hne : k.key ≠ k'.key) : KeysDisjoint conf conf' := by
  rintro s key ⟨hkey, hkey'⟩
  rw [a6oConfHasKey_singleton h hkey] at hkey'
  exact hne (a6oConfHasKey_singleton h' hkey')

theorem daemonConf_perm_three :
    ∃ conf, daemonConf threeTexts "/a.conf".toList "/d".toList
        (some ["c.conf".toList, "..".toList, "b.conf".toList]) = some conf ∧
      HasAll conf (loadedTexts threeTexts "/a.conf".toList "/d".toList
        ["b.conf".toList, "c.conf".toList, "..".toList]) := by
  have hloaded : loadedTexts threeTexts "/a.conf".toList "/d".toList
      ["b.conf".toList, "c.conf".toList, "..".toList] =
      [some "[s]\na = 1\n".toList, some "[s]\nb = 2\n".toList, some "[s]\nc = 3\n".toList] := by
    decide
  have ha : (added (some "[s]\na = 1\n".toList)).sections = [⟨['s'], [⟨['a'], .int 1⟩]⟩] := by
    decide +kernel
  have hb : (added (some "[s]\nb = 2\n".toList)).sections = [⟨['s'], [⟨['b'], .int 2⟩]⟩] := by
    decide +kernel
  have hc : (added (some "[s]\nc = 3\n".toList)).sections = [⟨['s'], [⟨['c'], .int 3⟩]⟩] := by
    decide +kernel
  refine daemonConf_perm ?_ (by decide)
  rw [hloaded]
  refine List.pairwise_cons.mpr ⟨?_, List.pairwise_pair.mpr ?_⟩
  · rw [List.forall_mem_cons, List.forall_mem_singleton]
    exact ⟨keysDisjoint_singleton ha hb (by decide), keysDisjoint_singleton ha hc (by decide)⟩
  · exact keysDisjoint_singleton hb hc (by decide)

end Armadito.Conf
