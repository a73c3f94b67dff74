import Flowgraph.Engine.Journal
import Flowgraph.Config
import Flowgraph.Pool
import Flowgraph.Store
import Flowgraph.Task.Registry

/-!
# Engines

An engine holds the node types, the catalog of event types, the store, the clock with its tasks, the
worker pool, and all graphs that it ever loaded, numbered from zero. One graph is *live*. The others
have been *dropped*: they keep their nodes, for walks that are still under way, but their listeners
and tasks are gone and they gain no new ones.

While a graph is loaded or unloaded its nodes run programs of their own, and for that time the live
graph is out of reach: a program that asks for it never gets an answer. `Engine.hooks` is the graph
whose nodes are running such programs.

`Engine.act`, `Engine.schedule`, `Engine.subscribe` and `Engine.submit` carry out what programs ask
for without running other programs.
-/

namespace Flowgraph

/-- A node of a loaded graph, with what it does. -/
structure LiveNode where
  node : NodeInstance
  behaviour : Behaviour

/-- The name of the node. -/
def LiveNode.id (n : LiveNode) : String := n.node.id

/-- A graph that was loaded, or an empty one that stands in for one. -/
structure Graph where
  /-- How many graphs came before. -/
  generation : Nat := 0
  context : Context := {}
  /-- The nodes, in the order of loading. -/
  nodes : List LiveNode := []
  bus : Bus Reaction := {}
  tasks : TaskRegistry := {}
  dropped : Bool := false

/-- The node of a name. Names are distinct in a graph that was wired. -/
def Graph.node? (g : Graph) (id : String) : Option LiveNode := g.nodes.find? (·.id = id)

/-- A graph that is not there. -/
def Graph.absent : Graph := { dropped := true }

/-- The whole state of an engine. -/
structure Engine where
  config : Config
  registry : Registry Behaviour
  catalog : Catalog
  store : Store
  scheduler : Scheduler (Nat → Program)
  pool : Pool Program
  /-- All graphs, by number. -/
  graphs : List Graph := [{}]
  live : GraphId := 0
  /-- The graph whose nodes are being initialised or unloaded. -/
  hooks : Option GraphId := none
  /-- The source of random numbers: what is drawn from a range, for each number of draws before. -/
  dice : Nat → Float → Float → Float
  drawn : Nat := 0
  journal : Journal := []

/-- How a run goes on from an engine. -/
inductive Run (α : Type) where
  | returned (a : α) (e : Engine)
  /-- A program broke off. -/
  | panicked (e : Engine)
  /-- The run does not come to an end. -/
  | diverged

namespace Run

variable {α β : Type}

/-- Goes on where a run returns. -/
def bind (r : Run α) (k : α → Engine → Run β) : Run β :=
  match r with
  | .returned a e => k a e
  | .panicked e => .panicked e
  | .diverged => .diverged

/-- Changes the answer of a run. -/
def map (f : α → β) (r : Run α) : Run β := r.bind fun a e => .returned (f a) e

/-- Changes the engine that a program broke off in. -/
def onPanic (f : Engine → Engine) : Run α → Run α
  | .panicked e => .panicked (f e)
  | r => r

end Run

namespace Engine

/-! ### Records -/

/-- Adds an entry to the journal. -/
def record (e : Engine) (entry : Entry) : Engine := { e with journal := entry :: e.journal }

/-- Writes a line to the log. -/
def log (e : Engine) (line : LogLine) : Engine := e.record (.logged line)

/-- Writes lines to the log, one after another. -/
def logAll (e : Engine) (lines : List LogLine) : Engine := lines.foldl log e

/-- Lines are logged by the journal alone; the latest stands in front. -/
theorem logAll_eq (e : Engine) (lines : List LogLine) :
    e.logAll lines = { e with journal := (lines.map Entry.logged).reverse ++ e.journal } := by
  induction lines generalizing e with
  | nil => rfl
  | cons line rest ih =>
    -- the first line comes to stand behind the others
    rw [logAll, List.foldl_cons]
    refine (ih (e.log line)).trans ?_
    simp [log, record]

/-- The time on the clock, in milliseconds. -/
def now (e : Engine) : Nat := e.scheduler.now

/-! ### Graphs -/

/-- The graph of a number; one that is absent counts as dropped. -/
def graph (e : Engine) (g : GraphId) : Graph := e.graphs[g]?.getD Graph.absent

/-- The graph that events and the host's requests go to. -/
def liveGraph (e : Engine) : Graph := e.graph e.live

/-- Changes the graph of a number, if there is one. -/
def modifyGraph (e : Engine) (g : GraphId) (f : Graph → Graph) : Engine :=
  { e with graphs := e.graphs.modify g f }

/-- Adds a graph behind those that were made before, with the number that it gets. -/
def addGraph (e : Engine) (graph : Graph) : GraphId × Engine :=
  (e.graphs.length, { e with graphs := e.graphs ++ [graph] })

/-- The graph that is changed. -/
theorem graph_modifyGraph_self {e : Engine} {g : GraphId} (f : Graph → Graph)
    (h : g < e.graphs.length) : (e.modifyGraph g f).graph g = f (e.graph g) := by
  simp [modifyGraph, graph, h]

/-- Another graph than the one that is changed. -/
theorem graph_modifyGraph_of_ne {e : Engine} {g g' : GraphId} (f : Graph → Graph) (h : g ≠ g') :
    (e.modifyGraph g f).graph g' = e.graph g' := by
  simp [modifyGraph, graph, h]

/-- The graph that is added. -/
theorem graph_addGraph_self (e : Engine) (graph : Graph) :
    (e.addGraph graph).2.graph (e.addGraph graph).1 = graph := by
  simp [addGraph, Engine.graph]

/-- A graph that was there before one is added. -/
theorem graph_addGraph_of_lt {e : Engine} {g : GraphId} (graph : Graph)
    (h : g < e.graphs.length) : (e.addGraph graph).2.graph g = e.graph g := by
  simp [addGraph, Engine.graph, List.getElem?_append_left h]

/-- Whether a graph can be asked for: while nodes are initialised or unloaded the live graph cannot,
unless they are its own nodes. -/
def reaches (e : Engine) (g : GraphId) : Bool :=
  match e.hooks with
  | none => true
  | some h => g = h || g ≠ e.live

/-- What the programs of a graph's nodes can see of the engine. -/
def setting (e : Engine) (g : GraphId) : Setting where
  graph := g
  nodes := (e.graph g).nodes.map (·.node)
  catalog := e.catalog
  workers := e.pool.size

/-! ### Requests -/

/-- Carries out an action. None of them reaches further than the journal, the draws, the cancelling
of a task and a graph's listeners. -/
def act (e : Engine) : (a : Action) → Run a.Answer
  | .note text => .returned () (e.record (.noted e.now text))
  | .log line => .returned () (e.log line)
  | .send text => .returned () (e.record (.sent text))
  | .draw low high => .returned (e.dice e.drawn low high) { e with drawn := e.drawn + 1 }
  | .cancel task => .returned () { e with scheduler := e.scheduler.cancel task }
  | .inspect task => .returned ⟨e.scheduler.isCancelled task, e.scheduler.isEnded task⟩ e
  | .remove g key listener =>
    -- where the graph cannot be asked for, the program waits for itself
    if e.reaches g then
      let (found, bus) := (e.graph g).bus.remove key listener
      .returned found (e.modifyGraph g ({ · with bus := bus }))
    else .diverged
  | .withdraw g listener =>
    if e.reaches g then
      .returned () (e.modifyGraph g fun graph => { graph with bus := graph.bus.withdraw listener })
    else .diverged
  | .live => if e.hooks.isNone then .returned e.live e else .diverged

/-- Registers a listener. A dropped graph gains none. -/
def subscribe (e : Engine) (g : GraphId) (key : EventKey) (listener : Listener Reaction) :
    Run Unit :=
  if e.reaches g then
    .returned () (e.modifyGraph g fun graph =>
      if graph.dropped then graph else { graph with bus := graph.bus.on key listener })
  else .diverged

/-- What is reported when a program makes a task for a graph that is gone. -/
def orphanLog (task : TaskId) : LogLine :=
  .warning ("Task " ++ toString task ++ " scheduled after its graph was dropped, cancelling")

/-- Puts a task into the registry of its graph. If the graph was dropped the task is cancelled. -/
def track (e : Engine) (g : GraphId) (task : TaskId) : Engine :=
  let graph := e.graph g
  if graph.dropped then
    -- the task keeps its number, though it never runs
    { e with scheduler := e.scheduler.cancel task }.log (orphanLog task)
  else
    let (line, tasks, scheduler) := graph.tasks.track e.scheduler task
    ({ e with scheduler := scheduler }.modifyGraph g ({ · with tasks := tasks })).logAll line.toList

/-- Makes a task for a graph, and tracks it there. -/
def schedule (e : Engine) (g : GraphId) (timing : Timing) (body : Nat → Program) :
    Run (Except SchedulingError TaskId) :=
  if e.reaches g then
    match e.scheduler.schedule (some g) timing body with
    | .error err => .returned (.error err) e
    | .ok (task, scheduler) => .returned (.ok task) ({ e with scheduler := scheduler }.track g task)
  else .diverged

/-- Hands a job to the workers. -/
def submit (e : Engine) (job : Program) : Except SchedulingError Unit × Engine :=
  match e.pool.submit job with
  | .ok pool => (.ok (), { e with pool := pool })
  -- a full pool is the one refusal that is reported
  | .error (.poolSaturated size) =>
    (.error (.poolSaturated size), e.log (.warning "Worker pool saturated, rejecting job"))
  | .error err => (.error err, e)

end Engine

end Flowgraph
