import Flowgraph.Engine.Program

/-!
# The wait

A control node that ends the walk and hands the rest of it to a task: after a delay the walk goes on
with the variables and the number of hops that it had. A node with nothing behind its output just
ends the walk.
-/

namespace Flowgraph.Builtin.Wait

/-- The name of the type. -/
def name : String := "Wait"

/-- The field that reads how long to wait. -/
def delayField : String := "delay"

/-- The description of the type. -/
def metadata : NodeMetadata where
  name := name
  group := .control
  color := .amber
  fields := [
    { name := delayField
      consumer := some { kind := .double, default := some "1", unit := some .second } }]
  outputs := [⟨"Next", "After the delay"⟩]

/-- Hands the rest of the walk to a task. -/
def execute (n : NodeInstance) (w : Walk) : Program :=
  .attempt (n.readSeconds delayField w.vars) fun delay =>
  .attempt n.next fun
    | none => .finish w.vars none
    | some next =>
      .schedule w.graph (.once delay) (fun _ => .walkOn w next) fun _ => .finish w.vars none

/-- A node of the type does something only when a walk enters it. -/
def behaviour : Behaviour where
  execute := execute

end Flowgraph.Builtin.Wait
