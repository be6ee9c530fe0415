import Armadito.Conf.Scanner
import Armadito.Conf.Store

/-!
# Conf.Save

`a6o_conf_save_file`: the text that is written for a configuration. The
section line is written when the section is another one than before.
-/

namespace Armadito.Conf

/-- `struct conf_save_data`: what has been written, and the section it is in. -/
structure ConfSaveData where
  f : List Char
  p : Option CString
  deriving DecidableEq, Repr

/-- `%d`. -/
def printInt : Int → List Char
  | .ofNat n => Nat.toDigits 10 n
  | .negSucc n => '-' :: Nat.toDigits 10 (n + 1)

/-- `"%s"` between its quotes. -/
def quoted (s : CString) : List Char := '"' :: s ++ ['"']

/-- The elements of a list after the first. -/
def saveMore (values : List CString) : List Char :=
  values.flatMap fun v => ';' :: ' ' :: quoted v

/-- The switch of `conf_save_fun`. -/
def saveValue : A6oConfValue → List Char
  | .void => []
  | .int n => ' ' :: printInt n
  | .string s => ' ' :: quoted s
  | .list [] => []
  | .list (v :: values) => ' ' :: quoted v ++ saveMore values

/-- The line of a section, with the empty lines around it. -/
def sectionLine (sect : CString) : List Char := '\n' :: '[' :: sect ++ [']', '\n', '\n']

/-- The line of an entry. -/
def keyLine (k : KeyEntry) : List Char :=
  k.key ++ [' ', '='] ++ saveValue k.value ++ ['\n']

/-- `conf_save_fun`. -/
def confSaveFun (sect key : CString) (value : A6oConfValue) (data : ConfSaveData) :
    ConfSaveData :=
  let data :=
    if data.p ≠ some sect then { f := data.f ++ sectionLine sect, p := some sect } else data
  { data with f := data.f ++ keyLine ⟨key, value⟩ }

/-- `a6o_conf_apply`. -/
def a6oConfApply {δ : Type} (sections : List SectionEntry)
    (f : CString → CString → A6oConfValue → δ → δ) (userData : δ) : δ :=
  sections.foldl
    (fun data s => s.keys.foldl (fun data k => f s.sect k.key k.value data) data) userData

/-- The status and the contents of the file. -/
def a6oConfSaveFile (conf : A6oConf) : Int × List Char :=
  (0, (a6oConfApply conf.sections confSaveFun ⟨[], none⟩).f)

/-! ## The text, section by section -/

/-- The lines of a section. -/
def sectionText (s : SectionEntry) : List Char := sectionLine s.sect ++ s.keys.flatMap keyLine

/-- In its section a key is written as one line. -/
theorem confSaveFun_keys (sect : CString) (keys : List KeyEntry) (f : List Char) :
    keys.foldl (fun data k => confSaveFun sect k.key k.value data) ⟨f, some sect⟩ =
      ⟨f ++ keys.flatMap keyLine, some sect⟩ := by
  induction keys generalizing f with
  | nil => simp
  | cons k keys ih =>
    rw [List.foldl_cons, confSaveFun]
    simp only [ne_eq, not_true_eq_false, if_false]
    rw [ih, List.flatMap_cons, List.append_assoc]

/-- The first key of a section brings the section line. -/
theorem confSaveFun_section {s : SectionEntry} (hkeys : s.keys ≠ []) {data : ConfSaveData}
    (hp : data.p ≠ some s.sect) :
    s.keys.foldl (fun data k => confSaveFun s.sect k.key k.value data) data =
      ⟨data.f ++ sectionText s, some s.sect⟩ := by
  obtain ⟨k, keys, hcons⟩ := List.exists_cons_of_ne_nil hkeys
  rw [sectionText, hcons, List.foldl_cons, confSaveFun, if_pos hp, confSaveFun_keys,
    List.flatMap_cons]
  simp

theorem a6oConfApply_confSaveFun {sections : List SectionEntry}
    (hkeys : ∀ s ∈ sections, s.keys ≠ []) (hsects : (sections.map (·.sect)).Nodup) :
    ∀ data : ConfSaveData, (∀ s ∈ sections, data.p ≠ some s.sect) →
      (a6oConfApply sections confSaveFun data).f = data.f ++ sections.flatMap sectionText := by
  induction sections with
  | nil =>
    intro data _
    simp [a6oConfApply]
  | cons s sections ih =>
    intro data hp
    rw [List.map_cons, List.nodup_cons] at hsects
    have hsect : s.keys.foldl (fun data k => confSaveFun s.sect k.key k.value data) data =
        ⟨data.f ++ sectionText s, some s.sect⟩ :=
      confSaveFun_section (hkeys s List.mem_cons_self) (hp s List.mem_cons_self)
    have hother : ∀ t ∈ sections, some s.sect ≠ some t.sect := by
      intro t ht heq
      injection heq with heq
      exact hsects.1 (List.mem_map.mpr ⟨t, ht, heq.symm⟩)
    have hrest := ih (fun t ht => hkeys t (List.mem_cons_of_mem s ht)) hsects.2
      ⟨data.f ++ sectionText s, some s.sect⟩ hother
    rw [a6oConfApply] at hrest ⊢
    rw [List.foldl_cons, hsect, hrest, List.flatMap_cons, List.append_assoc]

/-! ## Configurations that are built -/

/-- A call of one of the `a6o_conf_add_*` functions. -/
inductive AddCall where
  | addValue (sect key : CString) (value : A6oConfValue)
  | addUint (sect key : CString) (val : Int)
  | addString (sect key val : CString)
  | addList (sect key : CString) (val : List CString)
  deriving DecidableEq, Repr

/-- The status of a call and the store after it. -/
def AddCall.run (conf : A6oConf) : AddCall → Int × A6oConf
  | .addValue sect key value => a6oConfAddValue conf sect key value
  | .addUint sect key val => a6oConfAddUint conf sect key val
  | .addString sect key val => a6oConfAddString conf sect key val
  | .addList sect key val => a6oConfAddList conf sect key val

/-- The configuration after the calls; some may have failed. -/
def build (calls : List AddCall) : A6oConf :=
  calls.foldl (fun conf call => (call.run conf).2) a6oConfNew

/-- Every call is an addition of some entry. -/
theorem AddCall.run_eq (conf : A6oConf) (call : AddCall) :
    ∃ sect k, call.run conf = addEntry conf sect k := by
  cases call with
  | addValue sect key value => exact ⟨sect, _, rfl⟩
  | addUint sect key val => exact ⟨sect, _, rfl⟩
  | addString sect key val => exact ⟨sect, _, rfl⟩
  | addList sect key val => exact ⟨sect, _, rfl⟩

/-- A section has a key as soon as it is there. -/
def NoEmptySection (sections : List SectionEntry) : Prop := ∀ s ∈ sections, s.keys ≠ []

theorem keyEntryAdd_noEmptySection {sections : List SectionEntry}
    (h : NoEmptySection sections) (sect : CString) (k : KeyEntry) :
    NoEmptySection (keyEntryAdd sections sect k).2 := by
  by_cases hsect : sect ∈ sections.map (·.sect)
  · by_cases hget : keyEntryGet sections sect k.key = none
    · have hwith : withSection sections sect = sections := by
        rw [withSection, if_neg]
        rw [Option.isNone_iff_eq_none, sectionEntryGet_eq_none]
        exact fun hnot => hnot hsect
      rw [keyEntryAdd_of_none hget, hwith]
      intro t ht
      rcases NamedArray.mem_modify ht with ht | ⟨s, -, rfl⟩
      · exact h t ht
      · simp [keyEntryAddSect]
    · rw [keyEntryAdd_of_ne_none hget]
      exact h
  · rw [keyEntryAdd_of_not_mem hsect]
    intro t ht
    rcases List.mem_append.mp ht with ht | ht
    · exact h t ht
    · rw [List.mem_singleton.mp ht]
      exact List.cons_ne_nil k []

theorem build_noEmptySection (calls : List AddCall) :
    NoEmptySection (build calls).sections := by
  have hempty : NoEmptySection a6oConfNew.sections := fun s hs => by cases hs
  refine List.foldlRecOn (motive := fun conf : A6oConf => NoEmptySection conf.sections)
    calls _ hempty ?_
  intro conf h call _
  obtain ⟨sect, k, hcall⟩ := call.run_eq conf
  show NoEmptySection (call.run conf).2.sections
  rw [hcall]
  exact keyEntryAdd_noEmptySection h sect k

/-- What is written for a configuration that has no empty section. -/
theorem a6oConfSaveFile_text {conf : A6oConf} (h : NoEmptySection conf.sections) :
    (a6oConfSaveFile conf).2 = conf.sections.flatMap sectionText :=
  a6oConfApply_confSaveFun h conf.distinct.sects ⟨[], none⟩
    fun _ _ => (Option.some_ne_none _).symm

end Armadito.Conf
