import Mathlib.Data.List.Infix
import Armadito.Conf.Value
import Armadito.Lib.Terminated

/-!
# OnAccess.DevicePath

`ConvertDeviceNameToMsDosName` of the Windows `scan_onaccess.c`. The driver
names a file by the device that it is on; the scan opens it by the letter of
its drive. The drive is the first one in the system's list whose device name
is found anywhere in the path.
-/

namespace Armadito.OnAccess.Windows

open Conf (NoNul nul)
open Terminated

/-- The size of the buffer. -/
def maxPathSize : Nat := 512

/-- The drives of the system: the letters of `GetLogicalDriveStringsA`, in its
order, and the answers of `QueryDosDeviceA`, with `none` where it fails. -/
structure Drives where
  letters : List Char
  noNul : NoNul letters
  device : Char → Option CString

/-- The `FileName` of a message: a string in an array of `MAX_PATH_SIZE`
bytes, and the byte behind its terminator. -/
structure DeviceFileName where
  name : CString
  noNul : NoNul name
  fits : name.length < maxPathSize
  behind : Char

/-- The name as it lies in memory. -/
def DeviceFileName.bytes (path : DeviceFileName) : List Char := path.name ++ [nul, path.behind]

/-- An entry of the drive strings, such as `C:\`. -/
def driveString (letter : Char) : List Char := [letter, ':', '\\']

/-! ## The conversion -/

/-- The block that is allocated for a drive whose device name was found. -/
def deviceDosFilename (letter : Char) (deviceName : CString) (path : DeviceFileName) :
    Option (List Char) := do
  let len2 ← strnlen nul maxPathSize (deviceName ++ [nul])
  let pathLen ← strnlen nul maxPathSize path.bytes
  let len := pathLen - len2 + 3
  let block := (calloc nul (len + 1)).set len nul
  let block ← copy block 0 (driveString letter) 3
  -- the rest of the path, its terminator and the byte behind it
  copy block 2 (path.bytes.drop len2) (len - 1)

/-- The loop over the drives; NULL is `some none`, an access out of bounds
is `none`. -/
def driveLoop (drives : Drives) (path : DeviceFileName) :
    List Char → Option (Option (List Char))
  | [] => some none
  | letter :: letters =>
    match drives.device letter with
    | none => some none
    | some deviceName =>
      -- `strstr` finds the name at any place
      if deviceName <:+: path.name then (deviceDosFilename letter deviceName path).map some
      else driveLoop drives path letters

/-- `ConvertDeviceNameToMsDosName`. Without drives,
`GetLogicalDriveStringsA` answers 0. -/
def convertDeviceNameToMsDosName (drives : Drives) (path : Option DeviceFileName) :
    Option (Option (List Char)) :=
  match path with
  | none => some none
  | some path => if drives.letters = [] then some none else driveLoop drives path drives.letters

theorem convertDeviceNameToMsDosName_some (drives : Drives) (path : DeviceFileName) :
    convertDeviceNameToMsDosName drives (some path) = driveLoop drives path drives.letters := by
  rw [convertDeviceNameToMsDosName]
  split_ifs with hnone
  · rw [hnone, driveLoop]
  · rfl

/-! ## What is right -/

/-- The path is the device name, alone or followed by `\`. -/
def OnDevice (deviceName path : CString) : Prop := UnderDirectory ['\\'] deviceName path

theorem onDevice_iff (deviceName path : CString) :
    OnDevice deviceName path ↔ path = deviceName ∨ deviceName ++ ['\\'] <+: path := by
  refine or_congr_right ⟨?_, ?_⟩
  · rintro ⟨c, hc, r, rfl⟩
    obtain rfl := List.mem_singleton.mp hc
    exact ⟨r, by rw [List.append_assoc, List.singleton_append]⟩
  · rintro ⟨r, rfl⟩
    exact ⟨'\\', List.mem_singleton.mpr rfl, r,
      by rw [List.append_assoc, List.singleton_append]⟩

instance (deviceName path : CString) : Decidable (OnDevice deviceName path) :=
  decidable_of_iff _ (onDevice_iff deviceName path).symm

/-- The file by the letter of a drive that it is on. -/
def Translation (drives : Drives) (path dos : CString) : Prop :=
  ∃ letter ∈ drives.letters, ∃ deviceName rest, drives.device letter = some deviceName ∧
    path = deviceName ++ rest ∧ AtBoundary ['\\'] rest ∧ dos = letter :: ':' :: rest

/-- A block holds a translation, and there is a block if there is one. -/
structure Exact (drives : Drives) (path : CString) (r : Option (List Char)) : Prop where
  sound : ∀ block, r = some block → ∃ dos, string nul block = some dos ∧
    Translation drives path dos
  complete : (∃ dos, Translation drives path dos) → r ≠ none

/-- The file is on one of the drives. -/
def OnDrive (drives : Drives) (path : CString) : Prop :=
  ∃ letter ∈ drives.letters, ∃ deviceName, drives.device letter = some deviceName ∧
    OnDevice deviceName path

theorem exists_translation_iff (drives : Drives) (path : CString) :
    (∃ dos, Translation drives path dos) ↔ OnDrive drives path := by
  constructor
  · rintro ⟨-, letter, hmem, deviceName, rest, hdevice, hpath, hrest, rfl⟩
    exact ⟨letter, hmem, deviceName, hdevice, (underDirectory_iff _ _ _).mpr ⟨rest, hpath, hrest⟩⟩
  · rintro ⟨letter, hmem, deviceName, hdevice, hon⟩
    obtain ⟨rest, hpath, hrest⟩ := (underDirectory_iff _ _ _).mp hon
    exact ⟨_, letter, hmem, deviceName, rest, hdevice, hpath, hrest, rfl⟩

/-- The name of a device that the file is on is in the path. -/
theorem OnDevice.isInfix {deviceName path : CString} (h : OnDevice deviceName path) :
    deviceName <:+: path := by
  obtain ⟨rest, rfl, -⟩ := (underDirectory_iff _ _ _).mp h
  exact (List.prefix_append deviceName rest).isInfix

/-! ## Where the search stops -/

/-- The search goes on behind the drive. -/
def Passes (drives : Drives) (path : CString) (letter : Char) : Prop :=
  ∃ deviceName, drives.device letter = some deviceName ∧ ¬ deviceName <:+: path

/-- The first drive that is not passed. -/
structure StopsAt (drives : Drives) (path : CString) (letter : Char) : Prop where
  first : ∃ before after, drives.letters = before ++ letter :: after ∧
    ∀ l ∈ before, Passes drives path l
  stops : ¬ Passes drives path letter

/-- The search stops at a drive that the file is on, or, at a drive without
an answer, when the file is on no drive. -/
structure StopsRight (drives : Drives) (path : CString) : Prop where
  found : ∀ letter deviceName, StopsAt drives path letter →
    drives.device letter = some deviceName → OnDevice deviceName path
  failed : ∀ letter, StopsAt drives path letter → drives.device letter = none →
    ¬ OnDrive drives path

theorem driveLoop_passed {drives : Drives} (path : DeviceFileName) {before : List Char}
    (h : ∀ l ∈ before, Passes drives path.name l) (letters : List Char) :
    driveLoop drives path (before ++ letters) = driveLoop drives path letters := by
  induction before with
  | nil => rfl
  | cons letter before ih =>
    obtain ⟨hfirst, hrest⟩ := List.forall_mem_cons.mp h
    obtain ⟨deviceName, hdevice, hnot⟩ := hfirst
    rw [List.cons_append, driveLoop, hdevice]
    simp only [if_neg hnot]
    exact ih hrest

/-- Some drive stops the search, or all are passed. -/
theorem passes_or_stops (drives : Drives) (path : CString) :
    (∀ l ∈ drives.letters, Passes drives path l) ∨ ∃ l, StopsAt drives path l := by
  have hsplit : ∀ letters : List Char, (∀ l ∈ letters, Passes drives path l) ∨
      ∃ before l after, letters = before ++ l :: after ∧
        (∀ b ∈ before, Passes drives path b) ∧ ¬ Passes drives path l := by
    intro letters
    induction letters with
    | nil => simp
    | cons letter letters ih =>
      by_cases hpass : Passes drives path letter
      · rcases ih with hall | ⟨before, l, after, rfl, hbefore, hstop⟩
        · exact .inl (List.forall_mem_cons.mpr ⟨hpass, hall⟩)
        · exact .inr ⟨letter :: before, l, after, rfl,
            List.forall_mem_cons.mpr ⟨hpass, hbefore⟩, hstop⟩
      · exact .inr ⟨[], letter, letters, rfl, by simp, hpass⟩
  rcases hsplit drives.letters with hall | ⟨before, l, after, hletters, hbefore, hstop⟩
  · exact .inl hall
  · exact .inr ⟨l, ⟨before, after, hletters, hbefore⟩, hstop⟩

theorem StopsAt.mem {drives : Drives} {path : CString} {letter : Char}
    (h : StopsAt drives path letter) : letter ∈ drives.letters := by
  obtain ⟨before, after, hletters, -⟩ := h.first
  simp [hletters]

/-! ## What the block holds -/

theorem DeviceFileName.drop_bytes (path : DeviceFileName) {n : Nat}
    (hn : n ≤ path.name.length) :
    path.bytes.drop n = path.name.drop n ++ [nul, path.behind] :=
  List.drop_append_of_le_length hn

/-- As many bytes as the device name has are left out at the front of the
path, wherever the name was found. -/
theorem string_deviceDosFilename {letter : Char} {deviceName : CString} {path : DeviceFileName}
    (hletter : letter ≠ nul) (hin : deviceName <:+: path.name) :
    ∃ block, deviceDosFilename letter deviceName path = some block ∧
      string nul block = some (letter :: ':' :: path.name.drop deviceName.length) := by
  have hle := hin.length_le
  have hlen2 : strnlen nul maxPathSize (deviceName ++ [nul]) = some deviceName.length :=
    strnlen_append (fun hmem => path.noNul (hin.subset hmem))
      (Nat.le_trans hle (Nat.le_of_lt path.fits)) []
  have hlen : strnlen nul maxPathSize path.bytes = some path.name.length :=
    strnlen_append path.noNul (Nat.le_of_lt path.fits) [path.behind]
  have hbytes := path.drop_bytes hle
  generalize hrest : path.name.drop deviceName.length = rest at hbytes ⊢
  have hsub : path.name.length - deviceName.length = rest.length := by
    rw [← hrest, List.length_drop]
  -- the letter, the colon and a backslash, which the rest of the path replaces
  have hdrive : copy (calloc nul (rest.length + 3 + 1)) 0 (driveString letter) 3 =
      some ([letter, ':'] ++ '\\' :: calloc nul (rest.length + 1)) := by
    have hcopy := copy_append [] (calloc nul (rest.length + 3 + 1)) (driveString letter)
      3 (by simp [driveString]) (by simp)
    simpa [driveString, drop_calloc] using hcopy
  have hrun : copy ([letter, ':'] ++ '\\' :: calloc nul (rest.length + 1)) 2
      (rest ++ [nul, path.behind]) (rest.length + 2) =
        some (letter :: ':' :: rest ++ nul :: [path.behind]) := by
    have hcopy := copy_append [letter, ':'] ('\\' :: calloc nul (rest.length + 1))
      (rest ++ [nul, path.behind]) (rest.length + 2) (by simp) (by simp)
    simpa [List.take_of_length_le, drop_calloc, calloc] using hcopy
  refine ⟨letter :: ':' :: rest ++ nul :: [path.behind], ?_, string_append ?_ _⟩
  · simp only [deviceDosFilename, hlen2, hlen, hsub, hbytes, set_calloc, hdrive,
      Option.bind_eq_bind, Option.bind_some]
    exact hrun
  · rw [List.mem_cons, List.mem_cons]
    rintro (h | h | h)
    · exact hletter h.symm
    · exact absurd h (by decide)
    · rw [← hrest] at h
      exact path.noNul (List.mem_of_mem_drop h)

/-! ## The result, by where the search stops -/

section

variable {drives : Drives} {path : DeviceFileName} {letter : Char}

/-- The search of the drive where it stops. -/
theorem convert_stopsAt (h : StopsAt drives path.name letter) :
    ∃ after, convertDeviceNameToMsDosName drives (some path) =
      driveLoop drives path (letter :: after) := by
  obtain ⟨before, after, hletters, hbefore⟩ := h.first
  refine ⟨after, ?_⟩
  rw [convertDeviceNameToMsDosName_some, hletters, driveLoop_passed path hbefore]

/-- All drives are passed: none has the file. -/
theorem convert_passed (h : ∀ l ∈ drives.letters, Passes drives path.name l) :
    convertDeviceNameToMsDosName drives (some path) = some none ∧
      ¬ OnDrive drives path.name := by
  constructor
  · have hloop := driveLoop_passed path h []
    rwa [List.append_nil, ← convertDeviceNameToMsDosName_some] at hloop
  · rintro ⟨l, hl, deviceName, hdevice, hon⟩
    obtain ⟨deviceName', hdevice', hnot⟩ := h l hl
    cases hdevice.symm.trans hdevice'
    exact hnot hon.isInfix

theorem convert_failed (h : StopsAt drives path.name letter)
    (hdevice : drives.device letter = none) :
    convertDeviceNameToMsDosName drives (some path) = some none := by
  obtain ⟨after, hconvert⟩ := convert_stopsAt h
  rw [hconvert, driveLoop, hdevice]

theorem convert_found (h : StopsAt drives path.name letter) {deviceName : CString}
    (hdevice : drives.device letter = some deviceName) :
    ∃ block, convertDeviceNameToMsDosName drives (some path) = some (some block) ∧
      string nul block = some (letter :: ':' :: path.name.drop deviceName.length) := by
  obtain ⟨after, hconvert⟩ := convert_stopsAt h
  have hin : deviceName <:+: path.name := by
    by_contra hnot
    exact h.stops ⟨deviceName, hdevice, hnot⟩
  have hletter : letter ≠ nul := by
    intro heq
    have hmem := h.mem
    rw [heq] at hmem
    exact drives.noNul hmem
  obtain ⟨block, hblock, hstring⟩ := string_deviceDosFilename hletter hin
  refine ⟨block, ?_, hstring⟩
  rw [hconvert, driveLoop, hdevice]
  simp only [if_pos hin, hblock, Option.map_some]

/-- The string of the block is a translation when the file is on the device
of the drive. -/
theorem translation_found_iff (hmem : letter ∈ drives.letters) {deviceName : CString}
    (hdevice : drives.device letter = some deviceName) :
    Translation drives path.name (letter :: ':' :: path.name.drop deviceName.length) ↔
      OnDevice deviceName path.name := by
  rw [OnDevice, underDirectory_iff]
  constructor
  · rintro ⟨l, -, deviceName', rest, hdevice', hpath, hrest, hdos⟩
    -- the letter decides the drive, and the drive its device
    obtain ⟨rfl, hdos⟩ := List.cons.inj hdos
    cases hdevice.symm.trans hdevice'
    exact ⟨rest, hpath, hrest⟩
  · rintro ⟨rest, hpath, hrest⟩
    refine ⟨letter, hmem, deviceName, rest, hdevice, hpath, hrest, ?_⟩
    rw [hpath, List.drop_left]

end

/-- **Soundness of the translation**: the result is right exactly when the
search stops right. -/
theorem convertDeviceNameToMsDosName_exact_iff (drives : Drives) (path : DeviceFileName) :
    (∃ r, convertDeviceNameToMsDosName drives (some path) = some r ∧
      Exact drives path.name r) ↔ StopsRight drives path.name := by
  constructor
  · rintro ⟨r, hr, hexact⟩
    constructor
    case found =>
      intro letter deviceName hstop hdevice
      obtain ⟨block, hblock, hstring⟩ := convert_found hstop hdevice
      cases hblock.symm.trans hr
      obtain ⟨dos, hdos, htranslation⟩ := hexact.sound block rfl
      cases hstring.symm.trans hdos
      exact (translation_found_iff hstop.mem hdevice).mp htranslation
    case failed =>
      intro letter hstop hdevice hon
      cases (convert_failed hstop hdevice).symm.trans hr
      exact hexact.complete ((exists_translation_iff _ _).mpr hon) rfl
  · intro hright
    rcases passes_or_stops drives path.name with hall | ⟨letter, hstop⟩
    · obtain ⟨hconvert, hnot⟩ := convert_passed hall
      refine ⟨none, hconvert, by simp, fun hsome => ?_⟩
      exact absurd ((exists_translation_iff _ _).mp hsome) hnot
    · cases hdevice : drives.device letter with
      | none =>
        refine ⟨none, convert_failed hstop hdevice, by simp, fun hsome => ?_⟩
        exact absurd ((exists_translation_iff _ _).mp hsome) (hright.failed letter hstop hdevice)
      | some deviceName =>
        obtain ⟨block, hblock, hstring⟩ := convert_found hstop hdevice
        refine ⟨some block, hblock, ?_, by simp⟩
        intro block' heq
        cases heq
        exact ⟨_, hstring, (translation_found_iff hstop.mem hdevice).mpr
          (hright.found letter deviceName hstop hdevice)⟩

/-! ## Two volumes -/

def volume1 : CString := "\\Device\\HarddiskVolume1".toList
def volume10 : CString := "\\Device\\HarddiskVolume10".toList

/-- The drive `C:` is the first volume, `D:` the tenth. -/
def volumes : Drives where
  letters := ['C', 'D']
  noNul := by rw [NoNul]; decide
  device letter := if letter = 'C' then some volume1 else some volume10

/-- A file on the tenth volume. -/
def fileOnTenth : DeviceFileName where
  name := volume10 ++ ['\\', 'x']
  noNul := by rw [NoNul]; decide +kernel
  fits := by decide +kernel
  behind := nul

/-- The file on the tenth volume is looked for on the first. -/
theorem tenth_volume_as_first :
    ¬ ∃ r, convertDeviceNameToMsDosName volumes (some fileOnTenth) = some r ∧
      Exact volumes fileOnTenth.name r := by
  rintro ⟨r, hr, hexact⟩
  have hstop : StopsAt volumes fileOnTenth.name 'C' := by
    refine ⟨⟨[], ['D'], rfl, by simp⟩, ?_⟩
    rintro ⟨deviceName, hdevice, hnot⟩
    cases hdevice
    exact hnot (by decide +kernel)
  obtain ⟨block, hblock, hstring⟩ := convert_found hstop rfl
  cases hblock.symm.trans hr
  obtain ⟨dos, hdos, htranslation⟩ := hexact.sound block rfl
  cases hstring.symm.trans hdos
  have hon := (translation_found_iff hstop.mem rfl).mp htranslation
  exact absurd hon (by decide +kernel)

end Armadito.OnAccess.Windows
