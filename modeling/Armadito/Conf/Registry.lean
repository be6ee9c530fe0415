import Mathlib.Data.List.TakeDrop
import Armadito.Conf.Store
import Armadito.Lib.Terminated

/-!
# Conf.Registry

`write_entry_in_registry` and `registry_walker` of the Windows `config.c`,
for one value of the configuration. The strings of a list are written one
after the other into a `REG_MULTI_SZ`, which ends with an empty string. The
registry gives the bytes back unchanged.

An access outside of a block and an `int` overflow have no result.
-/

namespace Armadito.Conf.Windows

open Terminated

/-- The longest string that the writer copies whole. -/
def maxLen : Nat := 512

/-- `MAX_PATH`, the longest string that the reader copies whole. -/
def maxPath : Nat := 260

/-- `INT_MAX`. -/
def intMax : Nat := 2147483647

/-- The data of a registry value, by its type. -/
inductive RegData where
  | dword (data : Int)
  | sz (data : List Char)
  | multiSz (data : List Char)
  deriving DecidableEq, Repr

/-! ## The writer -/

/-- A length as an `int`; none when it does not fit. -/
def int (n : Nat) : Option Nat := if n ≤ intMax then some n else none

theorem int_of_le {n : Nat} (h : n ≤ intMax) : int n = some n := if_pos h

theorem int_of_lt {n : Nat} (h : intMax < n) : int n = none := if_neg (Nat.not_le.mpr h)

/-- The first loop: the bytes of the strings with their terminators. -/
def regValLen (len : Nat) : List CString → Option Nat
  | [] => some len
  | s :: values => do
    let n ← strnlen nul maxLen (s ++ [nul])
    let len ← int (len + (n + 1))
    regValLen len values

/-- The second loop, with the offset of `tmp`. -/
def copyStrings (block : List Char) (tmp : Nat) : List CString → Option (List Char)
  | [] => some block
  | s :: values => do
    let n ← strnlen nul maxLen (s ++ [nul])
    let block ← copy block tmp (s ++ [nul]) (n + 1)
    copyStrings block (tmp + (n + 1)) values

/-- The data of a list: its strings one behind the other, and an empty one. -/
def multiSzData (values : List CString) : Option (List Char) := do
  let len ← regValLen 0 values
  -- one byte more, for the empty string at the end
  let regLen ← int (len + 1)
  copyStrings ((calloc nul regLen).set len nul) 0 values

/-- What `write_entry_in_registry` stores for a value, if it stores anything. -/
def writeEntryInRegistry (value : A6oConfValue) : Option (Option RegData) :=
  match value with
  | .void => some none
  | .int v => some (some (.dword (toUInt32 v)))
  | .string v => do
    let n ← strnlen nul maxLen (v ++ [nul])
    return some (.sz ((v ++ [nul]).take (n + 1)))
  | .list values => do
    let data ← multiSzData values
    return some (.multiSz data)

/-! ## The reader -/

/-- `data_str`: one byte more than the data. -/
def dataStr (data : List Char) : Option (List Char) :=
  copy (calloc nul (data.length + 1)) 0 data data.length

/-- `data_list[j]`. -/
def listEntry (tmp : List Char) : Option (List Char) := do
  let n ← strnlen nul maxPath tmp
  copy (calloc nul (n + 1)) 0 tmp (n + 1)

/-- `data_list`; both loops stop at the same places. -/
def dataList (block : List Char) : Option (List (List Char)) := do
  let tmps ← starts nul maxPath block
  tmps.mapM listEntry

/-- What `registry_walker` does with one value. The configuration copies the
strings that it is given. -/
def registryWalkerValue (conf : A6oConf) (sect : Option CString) (name : CString) (data : RegData) :
    Option A6oConf :=
  match data with
  | .dword data => some <| match sect with
    | none => conf
    | some sect => (a6oConfAddUint conf sect name data).2
  | .sz data => do
    let block ← dataStr data
    match sect with
    | none => return conf
    | some sect =>
      let val ← string nul block
      return (a6oConfAddString conf sect name val).2
  | .multiSz data => do
    let block ← dataStr data
    let list ← dataList block
    match sect with
    | none => return conf
    | some sect =>
      let val ← list.mapM (string nul)
      return (a6oConfAddList conf sect name val).2

/-! ## What is written -/

/-- What is written of a string: no terminator where it is too long. -/
def encodeString (s : CString) : List Char := (s ++ [nul]).take (min s.length maxLen + 1)

/-- The strings of a list one behind the other. -/
def encode (values : List CString) : List Char := values.flatMap encodeString

@[simp] theorem length_encodeString (s : CString) :
    (encodeString s).length = min s.length maxLen + 1 := by
  simp only [encodeString, List.length_take, List.length_append, List.length_cons,
    List.length_nil]
  omega

theorem encode_cons (s : CString) (values : List CString) :
    encode (s :: values) = encodeString s ++ encode values := List.flatMap_cons

theorem length_encode_cons (s : CString) (values : List CString) :
    (encode (s :: values)).length = min s.length maxLen + 1 + (encode values).length := by
  rw [encode_cons, List.length_append, length_encodeString]

theorem strnlen_nul {s : CString} (hs : NoNul s) (n : Nat) :
    strnlen nul n (s ++ [nul]) = some (min s.length n) := strnlen_eq_min hs n []

/-- The sum fits, or an addition overflows on the way. -/
theorem regValLen_eq {values : List CString} (h : ∀ s ∈ values, NoNul s) {len : Nat}
    (hlen : len ≤ intMax) :
    regValLen len values = int (len + (encode values).length) := by
  induction values generalizing len with
  | nil => exact (int_of_le hlen).symm
  | cons s values ih =>
    obtain ⟨hs, hvalues⟩ := List.forall_mem_cons.mp h
    simp only [regValLen, strnlen_nul hs, Option.bind_eq_bind, Option.bind_some]
    rw [length_encode_cons]
    rcases Nat.lt_or_ge intMax (len + (min s.length maxLen + 1)) with hover | hfits
    · rw [int_of_lt hover, Option.bind_none, int_of_lt (by omega)]
    · rw [int_of_le hfits, Option.bind_some, ih hvalues hfits, Nat.add_assoc len]

theorem copyStrings_eq {values : List CString} (h : ∀ s ∈ values, NoNul s)
    (data rest : List Char) (hroom : (encode values).length ≤ rest.length) :
    copyStrings (data ++ rest) data.length values =
      some (data ++ encode values ++ rest.drop (encode values).length) := by
  induction values generalizing data rest with
  | nil => simp [copyStrings, encode]
  | cons s values ih =>
    obtain ⟨hs, hvalues⟩ := List.forall_mem_cons.mp h
    rw [length_encode_cons] at hroom
    have hcopy := copy_append data rest (s ++ [nul]) (min s.length maxLen + 1)
      (by simp only [List.length_append, List.length_cons, List.length_nil]; omega) (by omega)
    have hnext := ih hvalues (data ++ encodeString s) (rest.drop (min s.length maxLen + 1))
      (by rw [List.length_drop]; omega)
    rw [List.length_append, length_encodeString] at hnext
    simp only [copyStrings, strnlen_nul hs, Option.bind_eq_bind, Option.bind_some, hcopy]
    rw [← encodeString, hnext, length_encode_cons, encode_cons, List.drop_drop]
    simp only [List.append_assoc]

/-- The data of a list, with the empty string at the end. -/
theorem multiSzData_eq {values : List CString} (h : ∀ s ∈ values, NoNul s) :
    multiSzData values =
      if (encode values).length < intMax then some (encode values ++ [nul]) else none := by
  have hlen := regValLen_eq h (Nat.zero_le intMax)
  rw [Nat.zero_add] at hlen
  have hcopy := copyStrings_eq h [] (calloc nul ((encode values).length + 1)) (by simp)
  rw [drop_calloc, Nat.add_sub_cancel_left] at hcopy
  simp only [multiSzData, hlen, Option.bind_eq_bind]
  split_ifs with hfits
  · rw [int_of_le (Nat.le_of_lt hfits), Option.bind_some, int_of_le hfits,
      Option.bind_some, set_calloc]
    exact hcopy
  · rcases Nat.lt_or_ge intMax (encode values).length with hover | hall
    · rw [int_of_lt hover, Option.bind_none]
    · rw [int_of_le hall, Option.bind_some, int_of_lt (by omega), Option.bind_none]

/-! ## What is read -/

theorem dataStr_eq (data : List Char) : dataStr data = some (data ++ [nul]) := by
  have hcopy := copy_append [] (calloc nul (data.length + 1)) data data.length (Nat.le_refl _)
    (by simp)
  rw [drop_calloc, Nat.add_sub_cancel_left, List.take_length] at hcopy
  exact hcopy

/-- The strings that the configuration is given. -/
def listStrings (block : List Char) : Option (List CString) :=
  (dataList block).bind fun list => list.mapM (string nul)

theorem listEntry_append {s : CString} (hs : NoNul s) (hn : s.length ≤ maxPath)
    (rest : List Char) : listEntry (s ++ nul :: rest) = some (s ++ [nul]) := by
  have hcopy := copy_whole (calloc nul (s.length + 1)) (s ++ nul :: rest) (by simp)
  rw [length_calloc] at hcopy
  simp only [listEntry, strnlen_append hs hn, Option.bind_eq_bind, Option.bind_some, hcopy]
  rw [List.take_append, List.take_of_length_le (Nat.le_succ _)]
  simp

theorem listEntry_long {s : CString} (hs : NoNul s) (hn : s.length = maxPath + 1)
    (rest : List Char) : listEntry (s ++ rest) = some s := by
  have hcopy := copy_whole (calloc nul (maxPath + 1)) (s ++ rest) (by simp [hn])
  rw [length_calloc] at hcopy
  have hlen := strnlen_long hs (n := maxPath) (by omega) rest
  simp only [listEntry, hlen, Option.bind_eq_bind, Option.bind_some, hcopy]
  rw [← hn, List.take_left]

theorem listStrings_empty (rest : List Char) : listStrings (nul :: rest) = some [] := by
  simp [listStrings, dataList]

/-- A string within the limit is read, and the others after it. -/
theorem listStrings_append {s : CString} (hs : NoNul s) (hne : s ≠ [])
    (hn : s.length ≤ maxPath) (rest : List Char) :
    listStrings (s ++ nul :: rest) = (listStrings rest).map (s :: ·) := by
  simp only [listStrings, dataList, starts_append hs hne hn]
  cases starts nul maxPath rest with
  | none => rfl
  | some tmps =>
    simp only [Option.map_some, Option.bind_eq_bind, Option.bind_some, List.mapM_cons,
      listEntry_append hs hn]
    cases tmps.mapM listEntry with
    | none => rfl
    | some list =>
      simp only [Option.bind_some, Option.pure_def, List.mapM_cons,
        Option.bind_eq_bind, string_append hs]
      cases list.mapM (string nul) with
      | none => rfl
      | some strings => rfl

/-- The entry of a string beyond the limit has no terminator. -/
theorem listStrings_long {s : CString} (hs : NoNul s) (hn : s.length = maxPath + 1)
    (rest : List Char) : listStrings (s ++ rest) = none := by
  have hne : s ≠ [] := by
    rintro rfl
    simp at hn
  obtain ⟨later, hstarts⟩ := starts_long hs hne (n := maxPath) (by omega) rest
  simp only [listStrings, dataList, hstarts]
  cases later with
  | none => rfl
  | some tmps =>
    simp only [Option.map_some, Option.bind_eq_bind, Option.bind_some, List.mapM_cons,
      listEntry_long hs hn]
    cases tmps.mapM listEntry with
    | none => rfl
    | some list =>
      simp only [Option.bind_some, Option.pure_def, List.mapM_cons, string_eq_none hs,
        Option.bind_eq_bind, Option.bind_none]

/-! ## There and back -/

theorem encodeString_short {s : CString} (hn : s.length ≤ maxPath) :
    encodeString s = s ++ [nul] := by
  have hmin : min s.length maxLen = s.length := Nat.min_eq_left (Nat.le_trans hn (by decide))
  rw [encodeString, hmin, List.take_of_length_le (by simp)]

theorem encodeString_long {s : CString} (hn : maxPath < s.length) :
    ∃ rest, encodeString s = s.take (maxPath + 1) ++ rest := by
  have hle : maxPath + 1 ≤ min s.length maxLen + 1 := by
    have hmax : maxPath ≤ maxLen := by decide
    omega
  have hprefix := List.take_prefix_take_left (l := s ++ [nul]) hle
  rw [List.take_append_of_le_length hn] at hprefix
  obtain ⟨rest, hrest⟩ := hprefix
  exact ⟨rest, hrest.symm⟩

/-- The reader finds the strings of the writer if none is empty or long. -/
theorem listStrings_encode_iff {values : List CString} (h : ∀ s ∈ values, NoNul s) :
    listStrings (encode values ++ [nul, nul]) = some values ↔
      ∀ s ∈ values, s ≠ [] ∧ s.length ≤ maxPath := by
  induction values with
  | nil => simp [encode, listStrings_empty]
  | cons s values ih =>
    obtain ⟨hs, hvalues⟩ := List.forall_mem_cons.mp h
    rw [List.forall_mem_cons, ← ih hvalues, encode_cons, List.append_assoc]
    rcases Nat.lt_or_ge maxPath s.length with hlong | hshort
    · -- nothing is read: the first entry has no terminator
      obtain ⟨rest, hrest⟩ := encodeString_long hlong
      have htake : NoNul (s.take (maxPath + 1)) := fun hmem => hs (List.mem_of_mem_take hmem)
      rw [hrest, List.append_assoc,
        listStrings_long htake (by rw [List.length_take]; omega)]
      simp only [reduceCtorEq, false_iff]
      rintro ⟨⟨-, hle⟩, -⟩
      omega
    · rw [encodeString_short hshort, List.append_assoc, List.singleton_append]
      by_cases hne : s = []
      · -- the loop takes the string for the end of the list
        subst hne
        rw [List.nil_append, listStrings_empty]
        simp
      · rw [listStrings_append hs hne hshort]
        simp [hne, hshort]

/-- The strings of an entry are added to the configuration. -/
theorem registryWalkerValue_multiSz (conf : A6oConf) (sect name : CString) (data : List Char) :
    registryWalkerValue conf (some sect) name (.multiSz data) =
      (listStrings (data ++ [nul])).map fun val => (a6oConfAddList conf sect name val).2 := by
  simp only [registryWalkerValue, dataStr_eq, Option.bind_eq_bind, Option.bind_some, listStrings]
  cases dataList (data ++ [nul]) with
  | none => rfl
  | some list =>
    simp only [Option.bind_some]
    cases list.mapM (string nul) with
    | none => rfl
    | some val => rfl

/-- What an addition leaves under a new key. -/
theorem keyEntryGet_addEntry {conf : A6oConf} {sect key : CString}
    (hkey : keyEntryGet conf.sections sect key = none) (value : A6oConfValue) :
    keyEntryGet (addEntry conf sect ⟨key, value⟩).2.sections sect key = some ⟨key, value⟩ := by
  have hget := keyEntryGet_keyEntryAdd (k := ⟨key, value⟩) hkey sect key
  rwa [if_pos ⟨rfl, rfl⟩] at hget

/-- The strings that were read are kept as they are. -/
theorem map_osStrdup_listStrings {block : List Char} {val : List CString}
    (h : listStrings block = some val) : val.map osStrdup = val := by
  obtain ⟨list, -, hval⟩ := Option.bind_eq_some_iff.mp h
  have hkeep := List.map_congr_left fun s hs =>
    osStrdup_of_noNul (notMem_of_mapM_string hval s hs)
  rw [hkeep, List.map_id']

/-- A value that is written under a key and read into a configuration without
the key is there again. -/
def RoundTrips (value : A6oConfValue) : Prop :=
  ∀ (conf : A6oConf) (sect key : CString), keyEntryGet conf.sections sect key = none →
    ∃ data conf', writeEntryInRegistry value = some (some data) ∧
      registryWalkerValue conf (some sect) key data = some conf' ∧
      keyEntryGet conf'.sections sect key = some ⟨key, value⟩

/-- No string is empty or long, and the bytes can be counted. -/
structure Restorable (values : List CString) : Prop where
  nonempty : ∀ s ∈ values, s ≠ []
  short : ∀ s ∈ values, s.length ≤ maxPath
  size : (values.flatMap fun s => s ++ [nul]).length < intMax

theorem encode_short {values : List CString} (h : ∀ s ∈ values, s.length ≤ maxPath) :
    encode values = values.flatMap fun s => s ++ [nul] := by
  induction values with
  | nil => rfl
  | cons s values ih =>
    obtain ⟨hs, hvalues⟩ := List.forall_mem_cons.mp h
    rw [encode_cons, encodeString_short hs, ih hvalues, List.flatMap_cons]

theorem roundTrips_int {v : Int} (h : IsInt32 v) : RoundTrips (.int v) := by
  intro conf sect key hkey
  have hvalue : a6oConfValueSetInt (toUInt32 (toUInt32 v)) = .int v := by
    have htwice : toUInt32 (toUInt32 v) = toUInt32 v := Int.emod_emod_of_dvd v ⟨1, by simp⟩
    rw [htwice, a6oConfValueSetInt, toInt32_toUInt32, toInt32_of_isInt32 h]
  have hget := keyEntryGet_addEntry hkey (a6oConfValueSetInt (toUInt32 (toUInt32 v)))
  refine ⟨.dword (toUInt32 v), (a6oConfAddUint conf sect key (toUInt32 v)).2, rfl, rfl, ?_⟩
  rwa [a6oConfAddUint, ← hvalue]

/-- The reader adds the terminator that the data of a long string lacks. -/
theorem string_encodeString {s : CString} (h : NoNul s) :
    string nul (encodeString s ++ [nul]) = some (s.take (maxLen + 1)) := by
  rcases Nat.lt_or_ge maxLen s.length with hlong | hshort
  · have htake : NoNul (s.take (maxLen + 1)) := fun hmem => h (List.mem_of_mem_take hmem)
    rw [encodeString, Nat.min_eq_right (Nat.le_of_lt hlong),
      List.take_append_of_le_length hlong]
    exact string_append htake []
  · rw [encodeString, Nat.min_eq_left hshort, List.take_of_length_le (by simp),
      List.append_assoc, List.take_of_length_le (by omega)]
    exact string_append h [nul]

theorem roundTrips_string_iff {s : CString} (h : NoNul s) :
    RoundTrips (.string s) ↔ s.length ≤ maxLen + 1 := by
  have hwrite : writeEntryInRegistry (.string s) = some (some (.sz (encodeString s))) := by
    simp only [writeEntryInRegistry, strnlen_nul h, encodeString]
    rfl
  have hread : ∀ (conf : A6oConf) (sect key : CString),
      registryWalkerValue conf (some sect) key (.sz (encodeString s)) =
        some (a6oConfAddString conf sect key (s.take (maxLen + 1))).2 := by
    intro conf sect key
    simp only [registryWalkerValue, dataStr_eq, string_encodeString h, Option.bind_eq_bind,
      Option.bind_some]
    rfl
  have hkeep : osStrdup (s.take (maxLen + 1)) = s.take (maxLen + 1) :=
    osStrdup_of_noNul fun hmem => h (List.mem_of_mem_take hmem)
  rw [← List.take_eq_self_iff s]
  constructor
  · intro htrips
    obtain ⟨data, conf', hdata, hconf', hget⟩ := htrips a6oConfNew [] [] rfl
    cases hwrite.symm.trans hdata
    cases (hread a6oConfNew [] []).symm.trans hconf'
    rw [a6oConfAddString, keyEntryGet_addEntry rfl, hkeep] at hget
    simpa using hget
  · intro htake conf sect key hkey
    refine ⟨_, _, hwrite, hread conf sect key, ?_⟩
    rw [a6oConfAddString, keyEntryGet_addEntry hkey, hkeep, htake]

/-- What is restored of a list, by what the reader finds. -/
theorem roundTrips_list {values : List CString} (h : ∀ s ∈ values, NoNul s) :
    RoundTrips (.list values) ↔ (encode values).length < intMax ∧
      listStrings (encode values ++ [nul, nul]) = some values := by
  have hwrite := multiSzData_eq h
  constructor
  · -- a new configuration tells
    intro htrips
    obtain ⟨data, conf', hdata, hconf', hget⟩ := htrips a6oConfNew [] [] rfl
    simp only [writeEntryInRegistry, hwrite, Option.bind_eq_bind] at hdata
    split_ifs at hdata with hfits
    · cases hdata
      rw [registryWalkerValue_multiSz, List.append_assoc] at hconf'
      obtain ⟨val, hval, rfl⟩ := Option.map_eq_some_iff.mp hconf'
      rw [a6oConfAddList, keyEntryGet_addEntry rfl, map_osStrdup_listStrings hval] at hget
      cases hget
      exact ⟨hfits, hval⟩
    · cases hdata
  · rintro ⟨hfits, hval⟩ conf sect key hkey
    refine ⟨.multiSz (encode values ++ [nul]), (a6oConfAddList conf sect key values).2, ?_, ?_, ?_⟩
    · simp only [writeEntryInRegistry, hwrite, if_pos hfits]
      rfl
    · rw [registryWalkerValue_multiSz, List.append_assoc, List.singleton_append, hval]
      rfl
    · rw [a6oConfAddList, keyEntryGet_addEntry hkey, map_osStrdup_listStrings hval]

/-- **The round trip** of a list. -/
theorem roundTrips_list_iff {values : List CString} (h : ∀ s ∈ values, NoNul s) :
    RoundTrips (.list values) ↔ Restorable values := by
  rw [roundTrips_list h, listStrings_encode_iff h]
  constructor
  · rintro ⟨hfits, hall⟩
    have hshort := fun s hs => (hall s hs).2
    exact ⟨fun s hs => (hall s hs).1, hshort, encode_short hshort ▸ hfits⟩
  · intro hrestorable
    refine ⟨?_, fun s hs => ⟨hrestorable.nonempty s hs, hrestorable.short s hs⟩⟩
    rw [encode_short hrestorable.short]
    exact hrestorable.size

theorem roundTrips_list_iff_two :
    (∀ s ∈ [['a'], ['b']], NoNul s) ∧
      (RoundTrips (.list [['a'], ['b']]) ↔ Restorable [['a'], ['b']]) :=
  have h : ∀ s ∈ [['a'], ['b']], NoNul s := by simp [NoNul]
  ⟨h, roundTrips_list_iff h⟩

/-- What follows an empty string is lost. -/
theorem empty_string_ends_list :
    (∀ s ∈ [['a'], [], ['b']], NoNul s) ∧ ¬ RoundTrips (.list [['a'], [], ['b']]) := by
  have h : ∀ s ∈ [['a'], [], ['b']], NoNul s := by simp [NoNul]
  refine ⟨h, ?_⟩
  rw [roundTrips_list h, listStrings_encode_iff h]
  simp

end Armadito.Conf.Windows
