import Flowgraph.Engine.State

/-!
# Making an engine, and what it offers

* `Engine.create` puts an engine together.
* `Engine.palette` lists the node types for an editor. A field that selects an event type, and has
  no options of its own, offers the names in the catalog.
-/

namespace Flowgraph

/-- The consumer as an editor shows it. -/
def Consumer.offering (c : Consumer) (names : List String) : Consumer :=
  if c.kind = .eventType && c.options.isEmpty then c.addOptions names else c

/-- A description whose event types are offered by name. -/
def NodeMetadata.offering (m : NodeMetadata) (names : List String) : NodeMetadata :=
  { m with fields := m.fields.map fun f =>
      { f with consumer := f.consumer.map (·.offering names) } }

namespace Engine

/-- The node types as an editor shows them, in ascending order of names. -/
def palette (e : Engine) : List NodeMetadata :=
  e.registry.allMetadata.map (·.offering e.catalog.keys)

/-- What is reported when an engine was made. -/
def readyLog (types workers : Nat) : LogLine :=
  .info ("Workflow engine ready (" ++ toString types ++ " node types, " ++ toString workers
    ++ " workers)")

/-- Puts an engine together. There has to be a scheduler. Without a worker pool the engine makes one
of the configured size. -/
def create (config : Config) (registry : Registry Behaviour) (catalog : Catalog) (store : Store)
    (scheduler : Option (Scheduler (Nat → Program))) (pool : Option (Pool Program))
    (dice : Nat → Float → Float → Float) : Except WorkflowError Engine :=
  match scheduler with
  | none => .error (.scheduling .noRuntime)
  | some scheduler =>
    let (pool, lines) := match pool with
      | some pool => (pool, [])
      | none => (Pool.ofSize config.workers, Pool.sizeLog config.workers)
    let e : Engine := {
      config := config
      registry := registry
      catalog := catalog
      store := store
      scheduler := scheduler
      pool := pool
      dice := dice }
    .ok ((e.logAll lines).log (readyLog registry.size pool.size))

end Engine

end Flowgraph
