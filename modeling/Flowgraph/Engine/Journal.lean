import Flowgraph.Engine.Program

/-!
# The journal

Everything that happens in an engine, in order: what its programs leave behind, and each start of a
program. The trace, the texts for the host and the log are views of the journal.
-/

namespace Flowgraph

/-- Something that happened. -/
inductive Entry where
  | noted (time : Nat) (text : String)
  | logged (line : LogLine)
  | sent (text : String)
  | entered (time : Nat) (node : String) (walk : Walk)
  | initialising (graph : GraphId) (node : String)
  | initialised (graph : GraphId) (node : String)
  | unloaded (graph : GraphId) (node : String)
  | heard (listener : ListenerId) (key : EventKey) (before : Bool)
  | started (time : Nat) (task : TaskId)
  | worked (job : Nat)

/-- What happened, the latest first. -/
abbrev Journal := List Entry

namespace Journal

/-- The notes, the earliest first. -/
def trace (j : Journal) : List (Nat × String) :=
  j.reverse.filterMap fun
    | .noted time text => some (time, text)
    | _ => none

/-- The texts for the host, the earliest first. -/
def sent (j : Journal) : List String :=
  j.reverse.filterMap fun
    | .sent text => some text
    | _ => none

/-- The lines of the log, the earliest first. -/
def log (j : Journal) : List LogLine :=
  j.reverse.filterMap fun
    | .logged line => some line
    | _ => none

end Journal

end Flowgraph
