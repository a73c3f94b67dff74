import Flowgraph.Engine.State
import Flowgraph.Graph.Validation

/-!
# The life of a graph

How the live graph is replaced. Replacing takes the old graph down first: its nodes are unloaded in
the order in which they were loaded, its listeners are forgotten and its tasks cancelled. Until the
new graph is complete an empty one takes its place. The new graph is wired as a whole, and then its
nodes are initialised one after another. If one of them fails, those before it are unloaded, the
listeners and tasks of the new graph go, and the empty graph stays.

The functions here take the interpreter of programs as an argument, `run`.

* `Engine.load`, `Engine.restore` and `Engine.clear` are the commands.
* `Engine.wire` is the first half of loading; it runs no program.
-/

namespace Flowgraph

/-- What a node's program hands back: the variables of the walk and the node to enter next. -/
structure Step where
  vars : Variables
  next : Option String

/-- What runs the programs of nodes. -/
abbrev Interpreter := Program → Engine → Run (Except WorkflowError Step)

namespace Engine

/-! ### Wiring -/

/-- Wires the nodes of a graph one after another behind those that are wired already. -/
def wireAfter (registry : Registry Behaviour) (nodes : List LiveNode) :
    List NodeEntry → Except LoadError (List LiveNode)
  | [] => .ok nodes
  | entry :: rest =>
    match registry.instantiate entry.id entry.name with
    | .error err => .error err
    | .ok (metadata, behaviour) =>
      match NodeInstance.ofEntry entry metadata with
      | .error err => .error err
      | .ok node =>
        if nodes.any (·.id = node.id) then .error (.duplicateNodeId node.id)
        else wireAfter registry (nodes ++ [⟨node, behaviour⟩]) rest

/-- Wires the nodes of a graph, or tells what is wrong with the first that cannot be wired. -/
def wire (registry : Registry Behaviour) (c : Context) : Except LoadError (List LiveNode) :=
  wireAfter registry [] c.nodes

/-! ### Taking a graph down -/

/-- Unloads nodes. An unloading that fails is passed over. -/
def unloadAll (run : Interpreter) (g : GraphId) : List LiveNode → Engine → Run Unit
  | [], e => .returned () e
  | n :: rest, e =>
    (run (n.behaviour.unload n.node (e.setting g)) (e.record (.unloaded g n.id))).bind
      fun _ e => unloadAll run g rest e

/-- Drops a graph: its listeners are forgotten, its tasks cancelled and counted. -/
def drop (e : Engine) (g : GraphId) : Nat × Engine :=
  let (cancelled, tasks, scheduler) := (e.graph g).tasks.close e.scheduler
  (cancelled, { e with scheduler := scheduler }.modifyGraph g
    ({ · with bus := {}, tasks := tasks, dropped := true }))

/-- Gives a graph up without cancelling its tasks, and lets the live graph be reached again: what is
left when a program breaks off. -/
def abandon (g : GraphId) (e : Engine) : Engine :=
  { e with hooks := none }.modifyGraph g ({ · with bus := {}, dropped := true })

/-- What is reported when a graph was taken down; of the one that an engine begins with nothing
is. -/
def unloadedLog (graph : Graph) (listeners cancelled : Nat) : List LogLine :=
  if graph.generation = 0 then []
  else [.info ("Graph " ++ toString graph.generation ++ " unloaded (" ++ toString graph.nodes.length
    ++ " nodes, " ++ toString listeners ++ " listeners, " ++ toString cancelled
    ++ " tasks cancelled)")]

/-- Unloads the nodes of a graph, and drops it. If a program breaks off the graph is given up. -/
def teardown (run : Interpreter) (g : GraphId) (e : Engine) : Run Unit :=
  ((unloadAll run g (e.graph g).nodes { e with hooks := some g }).onPanic (abandon g)).bind
    fun _ e =>
      -- the listeners are counted before they are forgotten
      let graph := e.graph g
      let (cancelled, e) := { e with hooks := none }.drop g
      .returned () (e.logAll (unloadedLog graph graph.bus.size cancelled))

/-! ### Bringing a graph up -/

/-- What is reported of a node whose initialisation fails. -/
def initLog (n : LiveNode) (err : WorkflowError) : LogLine :=
  .error ("Init failed for node '" ++ n.id ++ "' (" ++ n.node.nodeType ++ "): " ++ err.message)

/-- Initialises nodes one after another. The first that fails is reported, and the nodes before it
are unloaded. -/
def initAll (run : Interpreter) (g : GraphId) (before : List LiveNode) :
    List LiveNode → Engine → Run (Except WorkflowError Unit)
  | [], e => .returned (.ok ()) e
  | n :: rest, e =>
    (run (n.behaviour.init n.node (e.setting g)) (e.record (.initialising g n.id))).bind fun
      | .ok _, e => initAll run g (before ++ [n]) rest (e.record (.initialised g n.id))
      | .error err, e =>
        -- the node that failed is not unloaded
        (unloadAll run g before (e.log (initLog n err))).map fun _ => .error err

/-- Wires and initialises a graph next to the live one, and makes it live. On an error the live
graph stays. -/
def build (run : Interpreter) (c : Context) (generation : Nat) (e : Engine) :
    Run (Except WorkflowError Unit) :=
  match wire e.registry c with
  | .error err => .returned (.error (.load err)) e
  | .ok nodes =>
    let (g, e) := e.addGraph { generation := generation, context := c, nodes := nodes }
    ((initAll run g [] nodes { e with hooks := some g }).onPanic (abandon g)).bind fun
      | .error err, e => .returned (.error err) ({ e with hooks := none }.drop g).2
      | .ok (), e =>
        -- the empty graph that stood in gains nothing any more
        let e := { e with hooks := none }.modifyGraph e.live ({ · with dropped := true })
        .returned (.ok ()) { e with live := g }

/-! ### Commands -/

/-- What is reported when a graph has become live. -/
def loadedLog (graph : Graph) : LogLine :=
  .info ("Graph " ++ toString graph.generation ++ " loaded (" ++ toString graph.nodes.length
    ++ " nodes, " ++ toString graph.bus.size ++ " listeners, " ++ toString graph.tasks.size
    ++ " tasks)")

/-- What is reported of what is odd about a graph. -/
def findingsLog (e : Engine) (c : Context) : List LogLine :=
  (c.findings (some e.registry.metadata?)).map fun f => .warning ("Workflow: " ++ f.text)

/-- Puts an empty graph in place of the live one and takes that down. -/
def replace (run : Interpreter) (empty : Graph) (e : Engine) : Run GraphId :=
  let old := e.live
  -- the empty graph is live while the nodes of the old one are unloaded
  let (g, e) := e.addGraph empty
  (teardown run old { e with live := g }).map fun _ => g

/-- Puts a graph in place of the live one. The graph is stored before it is wired, so a graph that
is refused is stored too. One that cannot be stored is not wired at all; the old graph is gone by
then. -/
def load (run : Interpreter) (c : Context) (e : Engine) : Run (Except WorkflowError Unit) :=
  let e := e.log (.info ("Loading workflow (" ++ toString c.nodes.length ++ " nodes)"))
  -- the load that is under way holds the live graph, and the program that asks is a part of it
  if e.hooks.isSome then .diverged
  else
    let generation := e.liveGraph.generation + 1
    (replace run {} e).bind fun g e =>
      -- from here on the empty graph counts as the new one, whatever becomes of that
      let e := e.modifyGraph g ({ · with generation := generation, context := c })
      let stored := { e with store := e.store.writeContext c }
      match e.store.writeError? with
      | some err => .returned (.error err) stored
      | none =>
        (build run c generation stored).bind fun
          | .error err, e => .returned (.error err) e
          | .ok (), e =>
            .returned (.ok ()) ((e.logAll (e.findingsLog c)).log (loadedLog e.liveGraph))

/-- Loads the stored graph, if it can be read. -/
def restore (run : Interpreter) (e : Engine) : Run (Except WorkflowError Unit) :=
  match e.store.readContext with
  | .error err => .returned (.error err) e
  | .ok c => load run c e

/-- Takes the live graph down, and leaves an empty one. -/
def clear (run : Interpreter) (e : Engine) : Run Unit :=
  if e.hooks.isSome then .diverged
  else
    (replace run { generation := e.liveGraph.generation + 1 } e).bind fun _ e =>
      .returned () (e.log (.info "Workflow unloaded"))

end Engine

end Flowgraph
