import StyleLedger.Json.Value
import StyleLedger.Text.Blank

/-!
Findings: what an audit of the store, a check of the style sheet or a look at the history reports.
-/

namespace StyleLedger

/-- How serious a finding is. -/
inductive Severity
  | error
  | warning
  | info
deriving Repr, DecidableEq, Inhabited

/-- The word for a severity. -/
def Severity.name : Severity → String
  | error => "ERROR"
  | warning => "WARNING"
  | info => "INFO"

/-- A finding: the rule that made it, what it says, the row it is about and what would mend it. -/
structure Finding where
  rule : String
  severity : Severity
  message : String
  table : Option String := none
  rowId : Json := .null
  fix : Option String := none
deriving Repr, DecidableEq, Inhabited

namespace Finding

/-- Whether a finding is an error. -/
def isError (f : Finding) : Bool := f.severity = .error

/-- Whether a finding is a warning. -/
def isWarning (f : Finding) : Bool := f.severity = .warning

/-- The row of a finding in brackets. -/
def location (f : Finding) : String :=
  match Text.present? f.table with
  | some table =>
    if f.rowId.isTrue then " [" ++ table ++ ":" ++ f.rowId.shown ++ "]" else " [" ++ table ++ "]"
  | none => ""

/-- A finding in one line. -/
def text (f : Finding) : String :=
  f.severity.name ++ f.location ++ ": " ++ f.message

end Finding

end StyleLedger
