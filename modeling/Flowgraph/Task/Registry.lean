import Flowgraph.Task.Scheduler
import Flowgraph.Log

/-!
# Task registries

The tasks that belong to one graph, so that all of them can be cancelled together. A registry that
is *closed* cancels whatever is put into it, so a graph that was replaced cannot gain tasks.
-/

namespace Flowgraph

/-- The tasks of a graph. -/
structure TaskRegistry where
  tracked : List TaskId := []
  closed : Bool := false
deriving Inhabited

namespace TaskRegistry

variable {β : Type}

/-- What is reported when a graph that was replaced makes a task. -/
def refusal (id : TaskId) : LogLine :=
  .warning ("Task " ++ toString id ++ " scheduled by a replaced graph, cancelling")

/-- Puts a task into a registry, and takes out those that have ended. A closed registry cancels the
task instead and reports it. -/
def track (r : TaskRegistry) (s : Scheduler β) (id : TaskId) :
    Option LogLine × TaskRegistry × Scheduler β :=
  if r.closed then (some (refusal id), r, s.cancel id)
  else (none, { r with tracked := r.tracked.filter (!s.isEnded ·) ++ [id] }, s)

/-- Cancels all tasks and forgets them, and counts them. -/
def cancelAll (r : TaskRegistry) (s : Scheduler β) : Nat × TaskRegistry × Scheduler β :=
  (r.tracked.length, { r with tracked := [] }, r.tracked.foldl Scheduler.cancel s)

/-- Cancels all tasks, and takes no more. It tells how many they were. -/
def close (r : TaskRegistry) (s : Scheduler β) : Nat × TaskRegistry × Scheduler β :=
  cancelAll { r with closed := true } s

/-- How many tasks are tracked. -/
def size (r : TaskRegistry) : Nat := r.tracked.length

end TaskRegistry

end Flowgraph
