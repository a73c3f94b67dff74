import Flowgraph.Bus
import Flowgraph.Node.Reading
import Flowgraph.Task.Timing
import Flowgraph.Task.Scheduler
import Flowgraph.Log

/-!
# Programs

What a node, a listener, a task or a job does. A program is a tree: it ends, or it asks the engine
for something and goes on with the answer. Programs do not hold on to the engine or to its graphs;
they name graphs by number, and what a number stands for is settled when the engine carries the
request out. So a program can outlive the graph that it was made for.

Four things may be asked for:

* an `Action`, which changes or reads the engine and is over at once;
* a new task, a new listener or a new job, each with a program of its own;
* a `Command`, which makes the engine run further programs before it answers.

A `Behaviour` gives the programs of a node type.
-/

namespace Flowgraph

/-- The number of a graph; each one that is made has a number of its own. -/
abbrev GraphId := Nat

/-- A walk between two nodes: the graph it goes through, what it carries, the number of nodes that
it has entered, and the node to enter next. -/
structure Walk where
  graph : GraphId
  vars : Variables := ∅
  /-- Counted in 32 bits. -/
  hops : UInt32 := 0
  pending : Option String := none

/-- Where a task stands. -/
structure TaskState where
  cancelled : Bool
  ended : Bool
deriving DecidableEq

/-- What is done at once. -/
inductive Action where
  /-- Leaves a note, which is kept with the time. -/
  | note (text : String)
  | log (line : LogLine)
  | send (text : String)
  /-- Draws a number from a range that includes its lower end. -/
  | draw (low high : Float)
  | cancel (task : TaskId)
  | inspect (task : TaskId)
  /-- Takes the earliest registration of a listener under a key away. -/
  | remove (graph : GraphId) (key : EventKey) (listener : ListenerId)
  /-- Takes all registrations of a listener away. -/
  | withdraw (graph : GraphId) (listener : ListenerId)
  | live

/-- What an action answers. -/
@[reducible] def Action.Answer : Action → Type
  | .note _ => Unit
  | .log _ => Unit
  | .send _ => Unit
  | .draw _ _ => Float
  | .cancel _ => Unit
  | .inspect _ => TaskState
  | .remove _ _ _ => Bool
  | .withdraw _ _ => Unit
  | .live => GraphId

/-- What makes the engine run further programs. -/
inductive Command where
  /-- Walks on from the pending node. -/
  | walk (w : Walk)
  /-- Delivers an event, before or after it takes effect, to the listeners of the live graph. -/
  | fire (event : Event) (before : Bool)
  | load (context : Context)
  | restore
  | clear

/-- What a command answers. -/
@[reducible] def Command.Answer : Command → Type
  | .walk _ => Except WorkflowError Unit
  | .fire _ _ => Nat
  | .load _ => Except WorkflowError Unit
  | .restore => Except WorkflowError Unit
  | .clear => Unit

/-- What a node, a listener, a task or a job does. -/
inductive Program where
  /-- Ends. A node's program hands back the variables of the walk and the node to enter next; to
  other programs they mean nothing. -/
  | finish (vars : Variables) (next : Option String)
  | fail (e : WorkflowError)
  /-- Breaks off, together with the programs that wait for it, up to a guard. -/
  | panic
  | act (a : Action) (k : a.Answer → Program)
  /-- Makes a task for a graph; its body is given the number of the run, from zero. -/
  | schedule (graph : GraphId) (timing : Timing) (body : Nat → Program)
      (k : Except SchedulingError TaskId → Program)
  /-- Registers a listener with a graph; it is given the event and whether the event is still to
  take effect. -/
  | subscribe (graph : GraphId) (key : EventKey) (listener : ListenerId)
      (reaction : Event → Bool → Program) (k : Unit → Program)
  | submit (job : Program) (k : Except SchedulingError Unit → Program)
  | call (c : Command) (k : c.Answer → Program)

/-- What a listener does when it hears an event. -/
abbrev Reaction := Event → Bool → Program

namespace Program

/-- The program that does nothing. -/
def done : Program := .finish ∅ none

/-- Goes on with a result, or ends with its error. -/
def attempt {α : Type} (r : Except WorkflowError α) (k : α → Program) : Program :=
  match r with
  | .error e => .fail e
  | .ok a => k a

/-- The program that does nothing, or fails. -/
def conclude (r : Except WorkflowError Unit) : Program := attempt r fun _ => done

/-- Notes a text, and goes on. -/
def note (text : String) (k : Program) : Program := .act (.note text) fun _ => k

/-- Writes a line to the log, and goes on. -/
def log (line : LogLine) (k : Program) : Program := .act (.log line) fun _ => k

/-- Walks on from a node and ends the way the walk does. -/
def walkOn (w : Walk) (next : String) : Program :=
  .call (.walk { w with pending := some next }) conclude

/-- Starts a walk at a node of a graph. -/
def startWalk (graph : GraphId) (start : String) (vars : Variables) : Program :=
  walkOn { graph := graph, vars := vars } start

end Program

/-- What the engine offers to a node whose graph is being loaded or unloaded. -/
structure Setting where
  graph : GraphId
  nodes : List NodeInstance
  catalog : Catalog
  workers : Nat

/-- What a node does. -/
structure Behaviour where
  init : NodeInstance → Setting → Program := fun _ _ => .done
  unload : NodeInstance → Setting → Program := fun _ _ => .done
  /-- When a walk enters the node. By default it leaves through the first output. -/
  execute : NodeInstance → Walk → Program := fun n w =>
    .attempt n.next fun next => .finish w.vars next

end Flowgraph
