import Armadito.Core.Status

/-!
# Core.Report

`struct a6o_report`, which a scan fills, and its three functions.
-/

namespace Armadito.Core

/-- `enum a6o_action`: a mask of action bits. -/
abbrev A6oAction := Nat

def a6oActionNone : A6oAction := 0
def a6oActionAlert : A6oAction := 1 <<< 1
def a6oActionQuarantine : A6oAction := 1 <<< 2
def a6oActionRemove : A6oAction := 1 <<< 3

/-- `struct a6o_report`. -/
structure A6oReport where
  path : Option CString
  status : A6oFileStatus
  action : A6oAction
  moduleName : Option CString
  moduleReport : Option CString
  deriving DecidableEq, Repr

/-- `a6o_report_init`. -/
def a6oReportInit (path : Option CString) : A6oReport :=
  { path, status := .undecided, action := a6oActionNone, moduleName := none,
    moduleReport := none }

/-- A NULL argument leaves the field as it is. -/
def a6oReportChange (report : A6oReport) (status : A6oFileStatus)
    (moduleName moduleReport : Option CString) : A6oReport :=
  { report with
    status
    moduleName := moduleName <|> report.moduleName
    moduleReport := moduleReport <|> report.moduleReport }

@[simp] theorem a6oReportChange_status (report : A6oReport) (status : A6oFileStatus)
    (moduleName moduleReport : Option CString) :
    (a6oReportChange report status moduleName moduleReport).status = status := rfl

@[simp] theorem a6oReportChange_path (report : A6oReport) (status : A6oFileStatus)
    (moduleName moduleReport : Option CString) :
    (a6oReportChange report status moduleName moduleReport).path = report.path := rfl

end Armadito.Core
