import Flowgraph.Engine.State

/-!
# Stages of nodes

What happens to the nodes of a graph when it is brought up and taken down, as the journal tells it.
A node begins to be initialised, the initialisation succeeds, and at last the node is unloaded. A
node is known by its graph and its name there: a node that is loaded once more, with another graph,
is another one.

* `Engine.stages` — the stages in the journal, the earliest first.
* `inits`, `unloads` — the stages of bringing nodes up and of taking them down.
* `initialisedIn`, `unloadedIn` — the nodes that passed a stage, in the order in which they did.
-/

namespace Flowgraph

/-- A node of a graph, by number and name. -/
structure NodeRef where
  graph : GraphId
  node : String
deriving DecidableEq

/-- What may happen to a node outside of walks. -/
inductive Stage where
  | initialising (n : NodeRef)
  | initialised (n : NodeRef)
  | unloaded (n : NodeRef)
deriving DecidableEq

/-- The node whose initialisation has succeeded, if the stage says so. -/
def Stage.initialised? : Stage → Option NodeRef
  | .initialised n => some n
  | _ => none

/-- The node that is unloaded, if the stage says so. -/
def Stage.unloaded? : Stage → Option NodeRef
  | .unloaded n => some n
  | _ => none

/-- The stage that an entry of the journal tells of. -/
def Entry.stage? : Entry → Option Stage
  | .initialising g node => some (.initialising ⟨g, node⟩)
  | .initialised g node => some (.initialised ⟨g, node⟩)
  | .unloaded g node => some (.unloaded ⟨g, node⟩)
  | _ => none

namespace Engine

/-- The stages that an engine has seen, the earliest first. -/
def stages (e : Engine) : List Stage := e.journal.reverse.filterMap Entry.stage?

/-- An entry adds the stage that it tells of. -/
theorem stages_record (e : Engine) (entry : Entry) :
    (e.record entry).stages = e.stages ++ entry.stage?.toList := by
  rw [stages, record, List.reverse_cons, List.filterMap_append, List.filterMap_cons,
    List.filterMap_nil]
  -- the journal lists the latest entry first, the stages list it last
  cases entry.stage? <;> rfl

/-- A line of the log tells of no stage. -/
theorem stages_log (e : Engine) (line : LogLine) : (e.log line).stages = e.stages :=
  (stages_record e (.logged line)).trans (List.append_nil _)

theorem stages_logAll (e : Engine) (lines : List LogLine) :
    (e.logAll lines).stages = e.stages := by
  induction lines generalizing e with
  | nil => rfl
  | cons line rest ih => exact (ih (e.log line)).trans (stages_log e line)

end Engine

/-! ### Nodes of one graph -/

variable (g : GraphId)

/-- Nodes are initialised, one after another. -/
def inits (ids : List String) : List Stage :=
  ids.flatMap fun id => [.initialising ⟨g, id⟩, .initialised ⟨g, id⟩]

/-- Nodes are unloaded, one after another. -/
def unloads (ids : List String) : List Stage := ids.map fun id => .unloaded ⟨g, id⟩

/-- The first node is initialised before the others. -/
theorem inits_cons (id : String) (ids : List String) :
    inits g (id :: ids) = .initialising ⟨g, id⟩ :: .initialised ⟨g, id⟩ :: inits g ids := rfl

/-! ### Nodes that passed a stage -/

/-- The nodes that were initialised, in the order in which they were. -/
def initialisedIn (stages : List Stage) : List NodeRef := stages.filterMap Stage.initialised?

/-- The nodes that were unloaded, in the order in which they were. -/
def unloadedIn (stages : List Stage) : List NodeRef := stages.filterMap Stage.unloaded?

theorem initialisedIn_append (s s' : List Stage) :
    initialisedIn (s ++ s') = initialisedIn s ++ initialisedIn s' := List.filterMap_append

theorem unloadedIn_append (s s' : List Stage) :
    unloadedIn (s ++ s') = unloadedIn s ++ unloadedIn s' := List.filterMap_append

/-- Bringing nodes up initialises all of them. -/
@[simp] theorem initialisedIn_inits (ids : List String) :
    initialisedIn (inits g ids) = ids.map (NodeRef.mk g) := by
  induction ids with
  | nil => rfl
  | cons id ids ih =>
    -- each node passes both stages, and only the second one counts
    rw [List.map_cons, ← ih]
    rfl

/-- Bringing nodes up unloads none. -/
@[simp] theorem unloadedIn_inits (ids : List String) : unloadedIn (inits g ids) = [] := by
  induction ids with
  | nil => rfl
  | cons id ids ih => exact ih

/-- Taking nodes down initialises none. -/
@[simp] theorem initialisedIn_unloads (ids : List String) : initialisedIn (unloads g ids) = [] := by
  induction ids with
  | nil => rfl
  | cons id ids ih => exact ih

/-- Taking nodes down unloads all of them. -/
@[simp] theorem unloadedIn_unloads (ids : List String) :
    unloadedIn (unloads g ids) = ids.map (NodeRef.mk g) := by
  induction ids with
  | nil => rfl
  | cons id ids ih =>
    rw [List.map_cons, ← ih]
    rfl

/-- A node was initialised if that is one of the stages. -/
theorem mem_initialisedIn {stages : List Stage} {n : NodeRef} :
    n ∈ initialisedIn stages ↔ .initialised n ∈ stages := by
  rw [initialisedIn, List.mem_filterMap]
  constructor
  · rintro ⟨s, hs, h⟩
    -- of the three stages only one tells that a node was initialised
    cases s with
    | initialised n' => cases h; exact hs
    | initialising n' => cases h
    | unloaded n' => cases h
  · intro h
    exact ⟨_, h, rfl⟩

/-- A node was unloaded if that is one of the stages. -/
theorem mem_unloadedIn {stages : List Stage} {n : NodeRef} :
    n ∈ unloadedIn stages ↔ .unloaded n ∈ stages := by
  rw [unloadedIn, List.mem_filterMap]
  constructor
  · rintro ⟨s, hs, h⟩
    -- of the three stages only one tells that a node was unloaded
    cases s with
    | unloaded n' => cases h; exact hs
    | initialising n' => cases h
    | initialised n' => cases h
  · intro h
    exact ⟨_, h, rfl⟩

end Flowgraph
