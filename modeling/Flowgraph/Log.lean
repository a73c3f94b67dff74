/-!
# Log lines

What is reported to the operator, with its severity.
-/

namespace Flowgraph

/-- How much a line of the log matters. -/
inductive Severity where
  | info
  | warning
  | error
deriving DecidableEq

/-- A line of the log. -/
structure LogLine where
  severity : Severity
  text : String
deriving DecidableEq

namespace LogLine

/-- A line that tells what happens. -/
def info (text : String) : LogLine := ⟨.info, text⟩

/-- A line about something odd that is put up with. -/
def warning (text : String) : LogLine := ⟨.warning, text⟩

/-- A line about something that failed. -/
def error (text : String) : LogLine := ⟨.error, text⟩

/-- The letter that a printed line begins with. -/
def letter : Severity → String
  | .info => "I"
  | .warning => "W"
  | .error => "E"

/-- A line as it is printed. -/
def render (l : LogLine) : String := letter l.severity ++ ": " ++ l.text

end LogLine

end Flowgraph
