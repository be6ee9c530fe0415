import Armadito.Core.Report
import Armadito.Lib.Run
import Mathlib.Data.UInt

/-!
# Quarantine.Callback

What the quarantine callbacks of both systems have in common: the runs of a
callback among other programs that write files, and the action that it notes
in the report of a file it has quarantined.
-/

namespace Armadito.Quarantine

open Armadito.Core

variable {File Entry Calls : Type}

/-- The files, the entries made so far, and the reports that the callback has
returned. -/
structure RunState (File Entry : Type) where
  files : CString → Option File
  entries : List Entry
  reports : List A6oReport

/-- The callback of a scan, or a write of another program; without a file, it
removes the path. -/
inductive RunLabel (File Calls : Type) where
  | callback (report : A6oReport) (calls : Calls)
  | other (path : CString) (file : Option File)

/-- After a callback that has returned the report and made the entry. -/
def RunState.called (s : RunState File Entry) (report : A6oReport)
    (files : CString → Option File) (entry : Option Entry) : RunState File Entry where
  files := files
  entries := s.entries ++ entry.toList
  reports := s.reports ++ [report]

@[simp] theorem RunState.called_files (s : RunState File Entry) (report : A6oReport)
    (files : CString → Option File) (entry : Option Entry) :
    (s.called report files entry).files = files := rfl

@[simp] theorem RunState.called_entries (s : RunState File Entry) (report : A6oReport)
    (files : CString → Option File) (entry : Option Entry) :
    (s.called report files entry).entries = s.entries ++ entry.toList := rfl

/-! ## Marked reports -/

/-- The report that the callback returns: with the action, or as it came. -/
def marked (done : Bool) (report : A6oReport) : A6oReport :=
  if done then { report with action := report.action ||| a6oActionQuarantine } else report

/-- The report says that its file was quarantined. -/
def isMarked (report : A6oReport) : Bool := report.action &&& a6oActionQuarantine ≠ 0

/-- The reports that say so are those whose file was moved. -/
def RunState.MarksMoved (path : Entry → CString) (s : RunState File Entry) : Prop :=
  (s.reports.filter isMarked).map A6oReport.path = s.entries.map fun e => some (path e)

theorem isMarked_marked {done : Bool} {report : A6oReport}
    (hnone : report.action = a6oActionNone) : isMarked (marked done report) = done := by
  cases done <;> simp [isMarked, marked, hnone, a6oActionNone, a6oActionQuarantine]

theorem marked_path (done : Bool) (report : A6oReport) :
    (marked done report).path = report.path := by
  cases done <;> rfl

/-- A callback keeps the marks right if and only if it marks what it moves. -/
theorem RunState.MarksMoved.called_iff {path : Entry → CString} {s : RunState File Entry}
    (h : s.MarksMoved path) {report : A6oReport} (hnone : report.action = a6oActionNone)
    {entry : Option Entry} (hpath : ∀ e, entry = some e → report.path = some (path e))
    (done : Bool) (files : CString → Option File) :
    (s.called (marked done report) files entry).MarksMoved path ↔ done = entry.isSome := by
  have hmark : isMarked (marked done report) = done := isMarked_marked hnone
  unfold RunState.MarksMoved at h ⊢
  simp only [RunState.called]
  rw [List.filter_append, List.map_append, List.map_append, h, List.append_cancel_left_eq]
  cases entry with
  | none => cases done <;> simp [hmark]
  | some e => cases done <;> simp [hmark, marked_path, hpath e rfl]

end Armadito.Quarantine
