import Flowgraph.Engine.Program

/-!
# The event listener

A trigger that starts a walk for each event of the selected type, either before or after the event
takes effect. The walk carries the event. A node with nothing behind its output does not listen.
-/

namespace Flowgraph.Builtin.EventListener

/-- The name of the type. -/
def name : String := "EventListener"

/-- The field that selects the type of events and names the variable for them. -/
def eventField : String := "event"

/-- The field that selects the phase: whether to react before the event takes effect. -/
def beforeField : String := "before"

/-- The description of the type. -/
def metadata : NodeMetadata where
  name := name
  group := .trigger
  color := .emerald
  inputs := 0
  fields := [
    { name := eventField
      consumer := some { kind := .eventType }
      producer := some { name := some "event" } },
    { name := beforeField
      consumer := some { kind := .boolean, required := false, default := some "false" } }]
  outputs := [⟨"Next", "When the event fires"⟩]

/-- The name under which a node listens. -/
def listenerId (n : NodeInstance) : ListenerId := ⟨some n.id, 0⟩

/-- Starts a walk if the phase is right. -/
def reaction (g : GraphId) (phase : Bool) (p : Producer) (next : String) : Reaction :=
  fun event before =>
    if before = phase then
      .startWalk g next (p.publish ∅ (.structured (.event event)))
    else .done

/-- Reads what to listen for, and starts a walk at the next node whenever it is heard. -/
def init (n : NodeInstance) (s : Setting) : Program :=
  .attempt (n.readEventType eventField s.catalog) fun key =>
  .attempt (n.readBoolean beforeField) fun phase =>
  .attempt (n.publisher eventField) fun p =>
  .attempt n.next fun
    | none => .done
    | some next =>
      .subscribe s.graph key (listenerId n) (reaction s.graph phase p next) fun _ => .done

/-- The node stops listening. -/
def unload (n : NodeInstance) (s : Setting) : Program :=
  .act (.withdraw s.graph (listenerId n)) fun _ => .done

/-- A node of the type works while it is loaded, and a walk that enters it goes on. -/
def behaviour : Behaviour where
  init := init
  unload := unload

end Flowgraph.Builtin.EventListener
