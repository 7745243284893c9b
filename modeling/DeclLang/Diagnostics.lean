/-!
# Diagnostics

What the passes report, in the order of arrival.  No pass prints: a report is part of its result.
-/

namespace DeclLang

/-- How serious a report is. -/
inductive Severity where
  | log
  | info
  | warning
  | error
  deriving DecidableEq, Repr, Inhabited

/-- One report. -/
structure Diagnostic where
  severity : Severity
  message : String
  deriving DecidableEq, Repr, Inhabited

/-- The reports received so far, in order of arrival. -/
structure Diagnostics where
  reports : Array Diagnostic := #[]
  deriving DecidableEq, Repr, Inhabited

namespace Diagnostics

/-- Adds a report at the end. -/
def report (diagnostics : Diagnostics) (severity : Severity) (message : String) : Diagnostics :=
  ⟨diagnostics.reports.push ⟨severity, message⟩⟩

def log (diagnostics : Diagnostics) (message : String) : Diagnostics :=
  diagnostics.report .log message

def info (diagnostics : Diagnostics) (message : String) : Diagnostics :=
  diagnostics.report .info message

def warn (diagnostics : Diagnostics) (message : String) : Diagnostics :=
  diagnostics.report .warning message

def error (diagnostics : Diagnostics) (message : String) : Diagnostics :=
  diagnostics.report .error message

/-- The reports of both, one after the other. -/
def append (diagnostics others : Diagnostics) : Diagnostics :=
  ⟨diagnostics.reports ++ others.reports⟩

instance : Append Diagnostics := ⟨append⟩

/-- The reports as a list. -/
def toList (diagnostics : Diagnostics) : List Diagnostic :=
  diagnostics.reports.toList

/-- The texts of the reports of one severity. -/
def messages (diagnostics : Diagnostics) (severity : Severity) : List String :=
  (diagnostics.toList.filter (·.severity == severity)).map Diagnostic.message

/-- Whether an error was reported. -/
def hasErrors (diagnostics : Diagnostics) : Bool :=
  diagnostics.toList.any (·.severity == .error)

@[simp] theorem toList_report (diagnostics : Diagnostics) (severity : Severity)
    (message : String) :
    (diagnostics.report severity message).toList = diagnostics.toList ++ [⟨severity, message⟩] := by
  simp [report, toList]

end Diagnostics

end DeclLang
