import Flowgraph.Engine.Clock
import Flowgraph.Graph.Validation

/-!
# The host's side of an engine

What a host may ask of an engine between its runs: what the live graph looks like, new node types
and event types, and listeners, tasks and walks of its own. Listeners and tasks of the host belong
to the live graph and go with it.
-/

namespace Flowgraph.Engine

/-! ### The live graph -/

/-- The number of the live graph. -/
def generation (e : Engine) : Nat := e.liveGraph.generation

/-- The description that the live graph was loaded from. -/
def context (e : Engine) : Context := e.liveGraph.context

/-- The names of the live nodes, in the order of loading. -/
def nodeIds (e : Engine) : List String := e.liveGraph.nodes.map (·.id)

/-- How many tasks the live graph tracks. -/
def taskCount (e : Engine) : Nat := e.liveGraph.tasks.size

/-- What is odd about the live graph. -/
def findings (e : Engine) : List Finding := e.context.findings (some e.registry.metadata?)

/-! ### Types -/

/-- Adds a node type, unless there is one of its name or its members clash. -/
def register (e : Engine) (t : NodeType Behaviour) : Except LoadError Engine :=
  (e.registry.register t).map fun registry => { e with registry := registry }

/-- Lets fields select an event type by a name. -/
def registerEvent (e : Engine) (name : String) (key : EventKey) : Engine :=
  { e with catalog := e.catalog.insert name key }

/-! ### Listeners, tasks and walks -/

/-- Registers a listener of the host's with the live graph. -/
def on (e : Engine) (key : EventKey) (listener : Listener Reaction) : Run Unit :=
  e.subscribe e.live key listener

/-- Takes a listener off the live graph, and tells whether it was there. -/
def remove (e : Engine) (key : EventKey) (listener : ListenerId) : Run Bool :=
  e.act (.remove e.live key listener)

/-- Makes a task that belongs to the live graph. -/
def addTask (e : Engine) (timing : Timing) (body : Nat → Program) :
    Run (Except SchedulingError TaskId) :=
  e.schedule e.live timing body

/-- Starts a walk at a node of a graph. -/
def start (fuel : Nat) (g : GraphId) (node : String) (vars : Variables) (e : Engine) :
    Run (Except WorkflowError Unit) :=
  call fuel (.walk { graph := g, vars := vars, pending := some node }) e

end Flowgraph.Engine
