/-!
# Log lines
-/

namespace ShellSale

/-- How serious a log line is, the most serious first. -/
inductive Severity where
  | error | warn | info | debug
deriving DecidableEq

namespace Severity

/-- The word in front of a line. -/
def label : Severity → String
  | error => "ERROR"
  | warn => "WARN"
  | info => "INFO"
  | debug => "DEBUG"

/-- The rank of a severity; more serious lines have a lower one. -/
def rank : Severity → Nat
  | error => 0
  | warn => 1
  | info => 2
  | debug => 3

end Severity

/-- One line of the log. -/
structure LogLine where
  severity : Severity
  text : String
deriving DecidableEq

/-- The line as it is written: the severity, a blank and the text. -/
def LogLine.written (l : LogLine) : String :=
  l.severity.label ++ " " ++ l.text

end ShellSale
