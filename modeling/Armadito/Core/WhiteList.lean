import Armadito.Core.ScanCtx
import Armadito.Os.File

/-!
# Core.WhiteList

How exactly the two directory lists decide: the white list of a scan
configuration and the fixed list of directories that are never scanned.

The comparison moves past a pair of different characters before it finds
them different. When this is the last character of a listed directory,
the loop is at the end of the prefix and the path counts as matching:
`/tmp/ab` on the white list exempts `/tmp/ac`.
-/

namespace Armadito.Core

open Armadito.Os

/-- **The lists are exact on a path if and only if they list it or it is
no near miss**: for the white list of `scanconf.c`, for the list of
`file.c`, and for the files that are exempted from scanning. -/
theorem whiteList_exact_iff (conf : A6oScanConf) (path : CString) :
    ((a6oScanConfIsWhiteListed conf path = true ↔
        ∃ d ∈ conf.directoriesWhiteList, UnderDirectory ['/', '\\'] d path) ↔
      DecidesExactly ['/', '\\'] conf.directoriesWhiteList path) ∧
    (∀ file, (osFileDoNotScan (fun _ => some path) file = true ↔
        ∃ d ∈ doNotScanPaths, UnderDirectory ['/'] d path) ↔
      DecidesExactly ['/'] doNotScanPaths path) ∧
    (∀ sys ctx fd report ctx' conf' report',
      a6oScanContextGet sys ctx fd (some path) conf report
        = .ok (ctx', conf', report') →
      ((ctx'.status = .whiteListedDirectory →
          ∃ d ∈ conf.directoriesWhiteList, UnderDirectory ['/', '\\'] d path) ↔
        DecidesExactly ['/', '\\'] conf.directoriesWhiteList path)) := by
  refine ⟨any_strprefixWith_exact_iff _ _ path, fun _ => ?_, ?_⟩
  · exact any_strprefixWith_exact_iff _ _ path
  · intro sys ctx fd report ctx' conf' report' h
    rw [a6oScanContextGet_whiteListed_iff h]
    exact any_strprefixWith_imp_iff _ _ path

/-- A configuration whose only content is its white list. -/
def whiteListOnly (dirs : List CString) : A6oScanConf :=
  { mimeTypes := [], modules := [], mimeTypeCache := [], directoriesWhiteList := dirs }

/-- `/tmp/ac` is not below `/tmp/ab`, and `/sya` not below `/sys`. -/
theorem whiteList_near_miss :
    ¬ (a6oScanConfIsWhiteListed (whiteListOnly ["/tmp/ab".toList]) "/tmp/ac".toList = true ↔
      ∃ d ∈ ["/tmp/ab".toList], UnderDirectory ['/', '\\'] d "/tmp/ac".toList) ∧
    ¬ (osFileDoNotScan (fun _ => some "/sya".toList) "/sya".toList = true ↔
      ∃ d ∈ doNotScanPaths, UnderDirectory ['/'] d "/sya".toList) := by
  constructor
  · intro h
    obtain ⟨d, hd, hu⟩ := h.mp (by decide)
    simp only [List.mem_singleton] at hd
    subst hd
    simp [UnderDirectory] at hu
  · intro h
    obtain ⟨d, hd, hu⟩ := h.mp (by decide)
    simp only [doNotScanPaths, List.mem_cons, List.not_mem_nil, or_false] at hd
    rcases hd with rfl | rfl | rfl <;> simp [UnderDirectory] at hu

/-- A file of a listed directory, given with its descriptor, is exempted
for a good reason. -/
theorem whiteList_exact_at_listed :
    ∃ d ∈ ["/tmp/ab".toList], UnderDirectory ['/', '\\'] d "/tmp/ab/f".toList := by
  have hget : a6oScanContextGet ⟨fun _ => 3, fun _ => none⟩ (contextInit 0) 5
      (some "/tmp/ab/f".toList) (whiteListOnly ["/tmp/ab".toList]) none
      = .ok ({ contextInit 5 with status := .whiteListedDirectory },
        whiteListOnly ["/tmp/ab".toList], none) := rfl
  have hexact : DecidesExactly ['/', '\\'] ["/tmp/ab".toList] "/tmp/ab/f".toList :=
    .inl ⟨_, List.mem_singleton.mpr rfl, .inr ⟨'/', by decide, ['f'], rfl⟩⟩
  exact ((whiteList_exact_iff (whiteListOnly ["/tmp/ab".toList])
    "/tmp/ab/f".toList).2.2 _ _ _ _ _ _ _ hget).mpr hexact rfl

end Armadito.Core
