import Flowgraph.Engine.Program

/-!
# The interval

A trigger that starts a walk without variables at a fixed rate, for as long as its graph is live. A
node with nothing behind its output makes no task.
-/

namespace Flowgraph.Builtin.Interval

/-- The name of the type. -/
def name : String := "Interval"

/-- The field for the time between two walks. -/
def intervalField : String := "interval"

/-- The description of the type. -/
def metadata : NodeMetadata where
  name := name
  group := .trigger
  color := .emerald
  inputs := 0
  fields := [
    { name := intervalField
      consumer := some { kind := .double, default := some "1", unit := some .second } }]
  outputs := [⟨"Next", "On every tick"⟩]

/-- Makes the task that starts the walks. -/
def init (n : NodeInstance) (s : Setting) : Program :=
  .attempt (n.readSeconds intervalField ∅) fun period =>
  .attempt n.next fun
    | none => .done
    | some next =>
      .schedule s.graph (.fixedRate period period) (fun _ => .startWalk s.graph next ∅) fun r =>
        .attempt (r.mapError .scheduling) fun _ => .done

/-- A node of the type works while it is loaded. -/
def behaviour : Behaviour where
  init := init

end Flowgraph.Builtin.Interval
