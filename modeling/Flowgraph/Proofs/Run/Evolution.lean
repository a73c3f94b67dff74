import Flowgraph.Engine.Host
import Flowgraph.Engine.Palette
import Flowgraph.Proofs.Run.Moves

/-!
# What an engine may become

`Change` is everything that may happen to an engine at once, and `Evolves` is any number of such
changes. There are three kinds. A `Deed` is what programs bring about, by themselves or by commands:
a move, or a turn in the life of a graph, each of which is open only while no other is under way. A
`Pulse` is what the clock and the workers bring about: the beginning and the end of a task's run,
the time that passes, and what becomes of the jobs. A `Supply` is what the host does to types and
store.

A program may stand between any two changes, so an engine that is reached need not be one that a run
has returned: it may be one in the middle of a run, where a listener or the body of a task is about
to load a graph. What is proved of `Evolves` and `Reachable` holds there too, and along runs that
never return.

* `load_ends`, `clear_ends` — what a load and a clearing do, turn by turn.
* `call_deeds`, `exec_deeds` — commands and programs do nothing else than deeds, and so they make
  changes only (`call_evolves`, `exec_evolves`).
* `closePool_eq` — a shutdown of the pool begins, waits for the jobs under way, and ends.
* `Serving`, `Keeping`, `Working` — what everything keeps that a host may ask for, or that such a
  request is made up of, with or without what the host does to types and store.
* `Chore`, `Routine`, `HostStep.keeps` — apart from commands everything is routine, by which no
  graph is made or taken down: what routine and commands keep is kept by whatever the host asks for.
* `HostStep.evolves` — so the host makes changes only.
-/

namespace Flowgraph

/-- A graph to which nothing has happened. -/
structure Graph.Fresh (graph : Graph) : Prop where
  bus : graph.bus = {}
  tasks : graph.tasks = {}
  dropped : graph.dropped = false

namespace Engine

/-! ### Turns in the life of a graph -/

/-- An empty graph takes the place of the live one, whose nodes begin to be unloaded. -/
def retire (e : Engine) (empty : Graph) : Engine :=
  { (e.addGraph empty).2 with live := e.graphs.length, hooks := some e.live }

/-- The nodes of a graph have run their programs and the graph is dropped. -/
def release (e : Engine) (g : GraphId) : Engine := ({ e with hooks := none }.drop g).2

/-- The graph that stands in for one to be loaded takes over its number and its context, which is
stored. -/
def entitle (e : Engine) (generation : Nat) (c : Context) : Engine :=
  { e.modifyGraph e.live ({ · with generation := generation, context := c }) with
    store := e.store.writeContext c }

/-- A new graph is put next to the live one, and its nodes begin to be initialised. -/
def raise (e : Engine) (graph : Graph) : Engine :=
  { (e.addGraph graph).2 with hooks := some e.graphs.length }

/-- The new graph is complete and becomes live. -/
def promote (e : Engine) (g : GraphId) : Engine :=
  { { e with hooks := none }.modifyGraph e.live ({ · with dropped := true }) with live := g }

/-- The run of a task starts. -/
def startTask (e : Engine) (task : TaskId) (due : Nat) : Engine :=
  { e with scheduler := e.scheduler.begin task due }.record
    (.started (e.scheduler.begin task due).now task)

/-- The run of a job starts. -/
def startJob (e : Engine) (number : Nat) : Engine := e.record (.worked number)

/-- A change that programs bring about, by themselves or by commands. -/
inductive Deed : Engine → Engine → Prop
  | move {e e' : Engine} (h : Move e e') : Deed e e'
  | retire (e : Engine) (empty : Graph) (hfree : e.hooks = none) (hempty : empty.Fresh)
      (hnodes : empty.nodes = []) : Deed e (e.retire empty)
  | release (e : Engine) (g : GraphId) (hg : e.hooks = some g) : Deed e (e.release g)
  | abandon (e : Engine) (g : GraphId) (hg : e.hooks = some g) : Deed e (abandon g e)
  | entitle (e : Engine) (generation : Nat) (c : Context) (hfree : e.hooks = none) :
      Deed e (e.entitle generation c)
  | raise (e : Engine) (graph : Graph) (hfree : e.hooks = none) (hgraph : graph.Fresh) :
      Deed e (e.raise graph)
  | promote (e : Engine) (g : GraphId) (hg : e.hooks = some g) : Deed e (e.promote g)

/-- A change that the clock and the workers bring about. -/
inductive Pulse : Engine → Engine → Prop
  | settle (e : Engine) : Pulse e e.settle
  /-- Only the task that is to run next is started. -/
  | start (e : Engine) (limit : Nat) (task : TaskId) (due : Nat)
      (h : e.scheduler.next? limit = some (task, due)) : Pulse e (e.startTask task due)
  | complete (e : Engine) (task : TaskId) :
      Pulse e { e with scheduler := e.scheduler.complete task }
  | tick (e : Engine) (time : Nat) :
      Pulse e { e with scheduler := { e.scheduler with now := max e.now time } }
  | job (e : Engine) (number : Nat) : Pulse e (e.startJob number)
  | pool (e : Engine) (pool : Pool Program) : Pulse e { e with pool := pool }

/-- A change of what the host provides. -/
inductive Supply : Engine → Engine → Prop
  | store (e : Engine) (store : Store) : Supply e { e with store := store }
  | types (e : Engine) (registry : Registry Behaviour) (catalog : Catalog) :
      Supply e { e with registry := registry, catalog := catalog }

/-- Everything that may happen to an engine at once. -/
inductive Change (e e' : Engine) : Prop
  | deed (h : Deed e e')
  | pulse (h : Pulse e e')
  | supply (h : Supply e e')

theorem Move.change {e e' : Engine} (h : Move e e') : Change e e' := .deed (.move h)

/-- The same graphs, and the same turns under way. -/
structure SameGraphs (e e' : Engine) : Prop where
  graphs : e'.graphs = e.graphs
  live : e'.live = e.live
  hooks : e'.hooks = e.hooks

/-- The graph of a number is the same. -/
theorem SameGraphs.graph_eq {e e' : Engine} (h : SameGraphs e e') (g : GraphId) :
    e'.graph g = e.graph g := by
  rw [Engine.graph, h.graphs]
  rfl

/-- The clock and the workers know nothing of graphs. -/
theorem Pulse.sameGraphs {e e' : Engine} (h : Pulse e e') : SameGraphs e e' := by
  cases h <;> exact ⟨rfl, rfl, rfl⟩

/-- The host's supplies know nothing of graphs. -/
theorem Supply.sameGraphs {e e' : Engine} (h : Supply e e') : SameGraphs e e' := by
  cases h <;> exact ⟨rfl, rfl, rfl⟩

/-- The host's supplies leave the clock alone. -/
theorem Supply.scheduler {e e' : Engine} (h : Supply e e') : e'.scheduler = e.scheduler := by
  cases h <;> rfl

/-- Nothing is recorded of the host's supplies. -/
theorem Supply.journal {e e' : Engine} (h : Supply e e') : e'.journal = e.journal := by
  cases h <;> rfl

/-- A change by which no graph is made or taken down, no node comes to another stage, and neither
the types nor the store become others. -/
inductive Chore (e e' : Engine) : Prop
  | quiet (h : Quiet e e')
  | pulse (h : Pulse e e')

/-- A change by which no graph is made or taken down, and no node comes to another stage. -/
inductive Routine (e e' : Engine) : Prop
  | chore (h : Chore e e')
  | supply (h : Supply e e')

/-- A chore is a change. -/
theorem Chore.change {e e' : Engine} (h : Chore e e') : Change e e' := by
  cases h with
  | quiet h => exact h.move.change
  | pulse h => exact .pulse h

/-- Routine is a change. -/
theorem Routine.change {e e' : Engine} (h : Routine e e') : Change e e' := by
  cases h with
  | chore h => exact h.change
  | supply h => exact .supply h

/-- The clock and the workers leave the types alone. -/
theorem Pulse.registry {e e' : Engine} (h : Pulse e e') : e'.registry = e.registry := by
  cases h <;> rfl

/-- A chore leaves the types alone. -/
theorem Chore.registry {e e' : Engine} (h : Chore e e') : e'.registry = e.registry := by
  cases h with
  | quiet h => exact h.move.frame.registry
  | pulse h => exact h.registry

/-- The clock and the workers bring no stage. -/
theorem Pulse.stages {e e' : Engine} (h : Pulse e e') : e'.stages = e.stages := by
  cases h with
  | start limit task due h =>
    exact (stages_record { e with scheduler := e.scheduler.begin task due } _).trans
      (List.append_nil _)
  | job number => exact (stages_record e (.worked number)).trans (List.append_nil _)
  | settle => rfl
  | complete task => rfl
  | tick time => rfl
  | pool pool => rfl

/-- A chore brings no stage. -/
theorem Chore.stages {e e' : Engine} (h : Chore e e') : e'.stages = e.stages := by
  cases h with
  | quiet h => exact h.stages
  | pulse h => exact h.stages

/-- Routine brings no stage. -/
theorem Routine.stages {e e' : Engine} (h : Routine e e') : e'.stages = e.stages := by
  cases h with
  | chore h => exact h.stages
  | supply h => cases h <;> rfl

/-- Any number of steps. -/
abbrev Evolves : Engine → Engine → Prop := Relation.ReflTransGen Change

/-- Any number of steps of programs. -/
abbrev Deeds : Engine → Engine → Prop := Relation.ReflTransGen Deed

theorem Deeds.evolves {e e' : Engine} (h : Deeds e e') : Evolves e e' := by
  induction h with
  | refl => exact .refl
  | tail _ hd ih => exact ih.tail (.deed hd)

/-- The engines that come to be. What the scheduler holds before there is an engine belongs to none
of its graphs. -/
inductive Reachable : Engine → Prop
  | created {config : Config} {registry : Registry Behaviour} {catalog : Catalog} {store : Store}
      {s : Scheduler (Nat → Program)} {pool : Option (Pool Program)}
      {dice : Nat → Float → Float → Float} {e : Engine}
      (h : create config registry catalog store (some s) pool dice = .ok e)
      (hs : ∀ t ∈ s.tasks, t.owner = none) : Reachable e
  | change {e e' : Engine} (h : Reachable e) (hc : Change e e') : Reachable e'

/-- An engine that was made a moment ago, with the given node types: the settings are the defaults,
the store is in memory, and every draw gives the lower bound. -/
def newborn (registry : Registry Behaviour) : Engine :=
  let e : Engine := {
    config := {}
    registry := registry
    catalog := ∅
    store := .inMemory
    scheduler := {}
    pool := .ofSize 20
    dice := fun _ low _ => low }
  e.log (readyLog registry.size e.pool.size)

/-- An engine that was just made has come to be. -/
theorem reachable_newborn (registry : Registry Behaviour) : Reachable (newborn registry) := by
  have h : create {} registry ∅ .inMemory (some {}) none (fun _ low _ => low) =
      .ok (newborn registry) := rfl
  exact .created h nofun

/-- Engines that have come to be go on to such. -/
theorem Reachable.evolves {e e' : Engine} (h : Reachable e) (hs : Evolves e e') : Reachable e' := by
  induction hs with
  | refl => exact h
  | tail _ hs ih => exact ih.change hs

/-- Moves are deeds. -/
theorem Moves.deeds {e e' : Engine} (h : Moves e e') : Deeds e e' := by
  induction h with
  | refl => exact .refl
  | tail _ hm ih => exact ih.tail (.move hm)

theorem Moves.evolves {e e' : Engine} (h : Moves e e') : Evolves e e' := h.deeds.evolves

/-- A run does the deeds on the way to it and its own. -/
theorem Deeds.ends {α : Type} {r : Run α} {e e' : Engine} (h : Deeds e e')
    (hr : r.Ends (fun _ => Deeds e') (Deeds e')) : r.Ends (fun _ => Deeds e) (Deeds e) :=
  hr.mono (fun _ _ => h.trans) fun _ => h.trans

/-! ### Replacing the live graph -/

/-- A graph is taken down: its nodes are unloaded one after another, and then it is dropped. -/
theorem teardown_ends (fuel : Nat) (g : GraphId) (e : Engine) :
    (teardown (exec (call fuel)) g e).Ends
      (fun _ e' => ∃ m lines, Tended g (e.graph g).nodes { e with hooks := some g }
          (unloads g ((e.graph g).nodes.map (·.id))) m ∧
        e' = (m.release g).logAll lines)
      (fun e' => ∃ m, Moves { e with hooks := some g } m ∧ e' = abandon g m) := by
  have h := unloadAll_tended fuel g { e with hooks := some g } (List.Subset.refl (e.graph g).nodes)
    rfl
  -- a program that breaks off gives the graph up, and the panic goes on
  refine (h.onPanic (f := abandon g) fun m hm => ⟨m, hm, rfl⟩).bind ?_
  intro _ m ht
  exact ⟨m, _, ht, rfl⟩

/-- The nodes of the live graph have been unloaded, while an empty graph stands in for it. -/
def Unloaded (empty : Graph) (e m : Engine) : Prop :=
  Tended e.live ((e.retire empty).graph e.live).nodes (e.retire empty)
    (unloads e.live (((e.retire empty).graph e.live).nodes.map (·.id))) m

/-- Nodes that are unloaded make moves. -/
theorem Unloaded.moves {empty : Graph} {e m : Engine} (h : Unloaded empty e m) :
    Moves (e.retire empty) m :=
  Tended.moves h rfl

/-- Nodes that are unloaded bring these stages and no other. -/
theorem Unloaded.stages {empty : Graph} {e m : Engine} (h : Unloaded empty e m) :
    m.stages = e.stages ++ unloads e.live (((e.retire empty).graph e.live).nodes.map (·.id)) := by
  -- retiring a graph adds nothing to the journal
  have hs : m.stages = (e.retire empty).stages ++ _ := Tended.stages_eq h rfl
  exact hs

/-- The empty graph is live when the old one has been unloaded, dropped and reported on. -/
theorem replace_ends (fuel : Nat) (empty : Graph) (e : Engine) :
    (replace (exec (call fuel)) empty e).Ends
      (fun g e' => g = e.graphs.length ∧
        ∃ m lines, Unloaded empty e m ∧ e' = (m.release e.live).logAll lines)
      (fun e' => ∃ m, Moves (e.retire empty) m ∧ e' = abandon e.live m) := by
  refine (teardown_ends fuel e.live { (e.addGraph empty).2 with live := e.graphs.length }).map ?_
  rintro _ e' ⟨m, lines, ht, he'⟩
  exact ⟨rfl, m, lines, ht, he'⟩

/-- How a graph is brought up: it is refused before any program runs, or a node fails and it is
dropped, or it becomes live. -/
inductive Built (c : Context) (generation : Nat) (e : Engine) :
    Except WorkflowError Unit → Engine → Prop
  | refused {err : LoadError} (h : wire e.registry c = .error err) :
      Built c generation e (.error (.load err)) e
  | failed {nodes : List LiveNode} {err : WorkflowError} {stages : List Stage} {m : Engine}
      (h : wire e.registry c = .ok nodes)
      (ht : Tended e.graphs.length nodes
        (e.raise { generation := generation, context := c, nodes := nodes }) stages m)
      (ha : Attempted e.graphs.length [] nodes (.error err) stages) :
      Built c generation e (.error err) (m.release e.graphs.length)
  | live {nodes : List LiveNode} {stages : List Stage} {m : Engine}
      (h : wire e.registry c = .ok nodes)
      (ht : Tended e.graphs.length nodes
        (e.raise { generation := generation, context := c, nodes := nodes }) stages m)
      (ha : Attempted e.graphs.length [] nodes (.ok ()) stages) :
      Built c generation e (.ok ()) (m.promote e.graphs.length)

/-- What a building that returns has done, and that one that breaks off gives the graph up. -/
theorem build_ends (fuel : Nat) (c : Context) (generation : Nat) (e : Engine) :
    (build (exec (call fuel)) c generation e).Ends (Built c generation e) (fun e' =>
      ∃ nodes m, Moves (e.raise { generation := generation, context := c, nodes := nodes }) m ∧
        e' = abandon e.graphs.length m) := by
  unfold build
  split
  · next err h => exact .refused h
  · next nodes h =>
    have hinit := initAll_tended fuel e.graphs.length
      (e.raise { generation := generation, context := c, nodes := nodes }) (List.nil_subset nodes)
      (List.Subset.refl nodes) rfl
    refine (hinit.onPanic (f := abandon e.graphs.length) fun m hm => ⟨nodes, m, hm, rfl⟩).bind ?_
    -- the two ways in which the initialisation of all nodes ends
    rintro (err | _) m ⟨stages, ht, ha⟩
    · exact .failed h ht ha
    · exact .live h ht ha

/-- The engine in which a load has been announced. -/
def announce (c : Context) (e : Engine) : Engine :=
  e.log (.info ("Loading workflow (" ++ toString c.nodes.length ++ " nodes)"))

/-- The engine that a graph is built in: the graph before it was retired, its nodes made the moves
up to `m`, and it was released and reported on. -/
def vacated (c : Context) (e m : Engine) (lines : List LogLine) : Engine :=
  ((m.release e.live).logAll lines).entitle (e.generation + 1) c

/-- What a load that returns has done. The graph is built only if it could be stored. -/
inductive Loaded (c : Context) (e : Engine) : Except WorkflowError Unit → Engine → Prop
  | unstored {m : Engine} {lines : List LogLine} {err : WorkflowError}
      (hm : Unloaded {} (announce c e) m) (hw : e.store.writeError? = some err) :
      Loaded c e (.error err) (vacated c e m lines)
  | failed {m e' : Engine} {lines : List LogLine} {err : WorkflowError}
      (hm : Unloaded {} (announce c e) m) (hw : e.store.writeError? = none)
      (hb : Built c (e.generation + 1) (vacated c e m lines) (.error err) e') :
      Loaded c e (.error err) e'
  | done {m e' : Engine} {lines lines' : List LogLine}
      (hm : Unloaded {} (announce c e) m) (hw : e.store.writeError? = none)
      (hb : Built c (e.generation + 1) (vacated c e m lines) (.ok ()) e') :
      Loaded c e (.ok ()) (e'.logAll lines')

/-- While nodes of the retired graph run, the graph that stands in stays live. -/
theorem live_of_retire {e m : Engine} {empty : Graph} (hm : Moves (e.retire empty) m) :
    m.live = e.graphs.length := hm.frame.live

/-- The nodes of the old graph run while it is retired. -/
theorem hooks_of_retire {e m : Engine} {empty : Graph} (hm : Moves (e.retire empty) m) :
    m.hooks = some e.live := hm.frame.hooks

/-- The nodes of the new graph run while it is raised. -/
theorem hooks_of_raise {e m : Engine} {graph : Graph} (hm : Moves (e.raise graph) m) :
    m.hooks = some e.graphs.length := hm.frame.hooks

/-- No nodes run between the old graph and the new one. -/
theorem hooks_vacated (c : Context) (e m : Engine) (lines : List LogLine) :
    (vacated c e m lines).hooks = none :=
  (Frame.logAll (m.release e.live) lines).hooks

/-- One line more is logged behind the others. -/
theorem logAll_concat (e : Engine) (lines : List LogLine) (line : LogLine) :
    e.logAll (lines ++ [line]) = (e.logAll lines).log line := by
  rw [logAll, List.foldl_append]; rfl

section Life

variable {e m : Engine} {empty graph : Graph}

/-- The deeds by which a graph is retired. -/
theorem deeds_retire (hfree : e.hooks = none) (hempty : empty.Fresh) (hnodes : empty.nodes = [])
    (hm : Moves (e.retire empty) m) : Deeds e m :=
  .head (.retire e empty hfree hempty hnodes) hm.deeds

/-- The deeds by which a graph is raised. -/
theorem deeds_raise (hfree : e.hooks = none) (hgraph : graph.Fresh)
    (hm : Moves (e.raise graph) m) : Deeds e m :=
  .head (.raise e graph hfree hgraph) hm.deeds

/-- The deeds from the announcement of a load on. -/
theorem deeds_announce (c : Context) (hfree : e.hooks = none)
    (hm : Moves ((announce c e).retire {}) m) : Deeds e m := by
  have h : Deeds e (announce c e) := .single (.move (.log e _))
  exact h.trans (deeds_retire (e := announce c e) hfree ⟨rfl, rfl, rfl⟩ rfl hm)

/-- The way from the release of the old graph to where the new one is built. -/
theorem deeds_vacated (c : Context) (e m : Engine) (lines : List LogLine) :
    Deeds (m.release e.live) (vacated c e m lines) :=
  (moves_logAll (m.release e.live) lines).deeds.tail
    (.entitle _ _ c (hooks_vacated c e m lines))

/-- The deeds by which a graph is built. -/
theorem Built.deeds {c : Context} {generation : Nat} {r : Except WorkflowError Unit} {e' : Engine}
    (hfree : e.hooks = none) (h : Built c generation e r e') : Deeds e e' := by
  cases h with
  | refused _ => exact .refl
  | failed _ ht _ =>
    have hm := ht.moves rfl
    exact (deeds_raise hfree ⟨rfl, rfl, rfl⟩ hm).tail (.release _ _ (hooks_of_raise hm))
  | live _ ht _ =>
    have hm := ht.moves rfl
    exact (deeds_raise hfree ⟨rfl, rfl, rfl⟩ hm).tail (.promote _ _ (hooks_of_raise hm))

/-- What releases a graph on the way is done by programs only. -/
theorem deeds_of_released {g : GraphId} {e' : Engine}
    (h : ∃ m, Deeds e m ∧ m.hooks = some g ∧ Deeds (m.release g) e') : Deeds e e' := by
  obtain ⟨m, hm, hhooks, hend⟩ := h
  exact (hm.tail (.release m g hhooks)).trans hend

/-- The old graph is released on the way of a load. -/
theorem Loaded.released {c : Context} {r : Except WorkflowError Unit} {e' : Engine}
    (hfree : e.hooks = none) (h : Loaded c e r e') :
    ∃ m, Deeds e m ∧ m.hooks = some e.live ∧ Deeds (m.release e.live) e' := by
  cases h with
  | @unstored m lines _ hm _ =>
    exact ⟨m, deeds_announce c hfree hm.moves, hooks_of_retire (e := announce c e) hm.moves,
      deeds_vacated c e m lines⟩
  | @failed m _ lines _ hm _ hb =>
    -- the release comes after the last move of the old nodes and before the building
    have hend := (deeds_vacated c e m lines).trans (hb.deeds (hooks_vacated c e m lines))
    exact ⟨m, deeds_announce c hfree hm.moves, hooks_of_retire (e := announce c e) hm.moves, hend⟩
  | @done m e' lines lines' hm _ hb =>
    have hend := (deeds_vacated c e m lines).trans (hb.deeds (hooks_vacated c e m lines))
    exact ⟨m, deeds_announce c hfree hm.moves, hooks_of_retire (e := announce c e) hm.moves,
      hend.trans (moves_logAll e' lines').deeds⟩

/-- The deeds of a load. -/
theorem Loaded.deeds {c : Context} {r : Except WorkflowError Unit} {e' : Engine}
    (hfree : e.hooks = none) (h : Loaded c e r e') : Deeds e e' :=
  deeds_of_released (h.released hfree)

end Life

/-- **How a load ends**: with what `Loaded` tells, or somewhere on the way. -/
theorem load_ends (fuel : Nat) (c : Context) (e : Engine) (hfree : e.hooks = none) :
    (load (exec (call fuel)) c e).Ends (Loaded c e) (Deeds e) := by
  have hfree' : ¬ e.hooks.isSome = true := by
    rw [hfree]
    exact Bool.false_ne_true
  -- no other turn is under way, so the load takes its own
  have hload : load (exec (call fuel)) c e = _ := if_neg hfree'
  rw [hload]
  have hreplace := replace_ends fuel {} (announce c e)
  refine (hreplace.mono (fun _ _ h => h) ?_).bind ?_
  · -- a node of the old graph breaks off while it is unloaded
    rintro _ ⟨m, hm, rfl⟩
    have h := deeds_retire (e := announce c e) hfree ⟨rfl, rfl, rfl⟩ rfl hm
    exact (Relation.ReflTransGen.head (.move (.log e _)) h).tail (.abandon m _ (hooks_of_retire hm))
  rintro g e₁ ⟨rfl, m, lines, hm, rfl⟩
  -- the graph that stands in is the live one
  have hlive : (announce c e).graphs.length = ((m.release e.live).logAll lines).live := by
    rw [(Frame.logAll _ lines).live]
    exact (live_of_retire hm.moves).symm
  have hbuild := build_ends fuel c (e.generation + 1) (vacated c e m lines)
  have hvac : Deeds e (vacated c e m lines) :=
    ((deeds_announce c hfree hm.moves).tail (.release m _ (hooks_of_retire hm.moves))).trans
      (deeds_vacated c e m lines)
  have hstore : ((m.release e.live).logAll lines).store = e.store := by
    rw [(Frame.logAll _ lines).store]
    exact hm.moves.frame.store
  rw [hlive]
  dsimp only
  split
  · next err hw => exact .unstored hm (hstore ▸ hw)
  next hw =>
  have hw : e.store.writeError? = none := hstore ▸ hw
  refine (hbuild.mono (fun _ _ h => h) ?_).bind ?_
  · -- a node of the new graph breaks off while it is initialised
    rintro _ ⟨nodes, m', hm', rfl⟩
    have h := deeds_raise (hooks_vacated c e m lines) ⟨rfl, rfl, rfl⟩ hm'
    exact (hvac.trans h).tail (.abandon m' _ (hooks_of_raise hm'))
  rintro (err | _) e₂ hb
  · exact .failed hm hw hb
  · show Loaded c e (.ok ()) ((e₂.logAll (e₂.findingsLog c)).log _)
    rw [← logAll_concat]
    exact .done hm hw hb

/-- What a clearing that returns has done. -/
inductive Cleared (e : Engine) : Engine → Prop
  | mk {m : Engine} {lines : List LogLine}
      (hm : Unloaded { generation := e.generation + 1 } e m) :
      Cleared e ((m.release e.live).logAll lines)

/-- The old graph is released on the way of a clearing. -/
theorem Cleared.released {e e' : Engine} (hfree : e.hooks = none) (h : Cleared e e') :
    ∃ m, Deeds e m ∧ m.hooks = some e.live ∧ Deeds (m.release e.live) e' := by
  cases h with
  | @mk m lines hm =>
    exact ⟨m, deeds_retire hfree ⟨rfl, rfl, rfl⟩ rfl hm.moves, hooks_of_retire hm.moves,
      (moves_logAll _ lines).deeds⟩

/-- The deeds of a clearing. -/
theorem Cleared.deeds {e e' : Engine} (hfree : e.hooks = none) (h : Cleared e e') :
    Deeds e e' :=
  deeds_of_released (h.released hfree)

/-- **How a clearing ends**: with what `Cleared` tells, or somewhere on the way. -/
theorem clear_ends (fuel : Nat) (e : Engine) (hfree : e.hooks = none) :
    (clear (exec (call fuel)) e).Ends (fun _ => Cleared e) (Deeds e) := by
  have hclear : clear (exec (call fuel)) e =
      (replace (exec (call fuel)) { generation := e.generation + 1 } e).bind fun _ e =>
        .returned () (e.log (.info "Workflow unloaded")) := by
    refine if_neg ?_
    rw [hfree]
    exact Bool.false_ne_true
  rw [hclear]
  refine ((replace_ends fuel _ e).mono (fun _ _ h => h) ?_).bind ?_
  · -- a node of the old graph panicked as it was unloaded, and the graph is abandoned
    rintro _ ⟨m, hm, rfl⟩
    have h := deeds_retire hfree ⟨rfl, rfl, rfl⟩ rfl hm
    exact h.tail (.abandon m _ (hooks_of_retire hm))
  · rintro _ _ ⟨-, m, lines, hm, rfl⟩
    show Cleared e (((m.release e.live).logAll lines).log _)
    rw [← logAll_concat]
    exact .mk hm

/-! ### Commands and programs -/

/-- **Commands do nothing else than deeds.** -/
theorem call_deeds (fuel : Nat) (c : Command) (e : Engine) :
    (call fuel c e).Ends (fun _ => Deeds e) (Deeds e) := by
  have hmove : ∀ {e' e''}, Quiet e' e'' → Deeds e e' → Deeds e e'' :=
    fun hm h => h.tail (.move hm.move)
  refine call_ends hmove ?_ ?_ fuel c e .refl
  · -- a load runs if no graph's nodes are running programs, and otherwise it waits for ever
    intro fuel c e' h
    cases hh : e'.hooks with
    | none => exact h.ends ((load_ends fuel c e' hh).mono (fun _ _ hl => hl.deeds hh) fun _ => id)
    | some g =>
      rw [load_of_hooks _ c (hh ▸ rfl)]
      trivial
  · intro fuel e' h
    cases hh : e'.hooks with
    | none => exact h.ends ((clear_ends fuel e' hh).mono (fun _ _ hc => hc.deeds hh) fun _ => id)
    | some g =>
      rw [clear_of_hooks _ (hh ▸ rfl)]
      trivial

/-- **Programs do nothing else than deeds.** -/
theorem exec_deeds (fuel : Nat) (p : Program) (e : Engine) :
    (exec (call fuel) p e).Ends (fun _ => Deeds e) (Deeds e) :=
  exec_ends (fun hm h => h.tail (.move hm.move)) (fun c e' h => h.ends (call_deeds fuel c e')) p e
    .refl

/-- What a program leaves behind, its deeds lead to. -/
theorem deeds_of_exec {fuel : Nat} {p : Program} {e m : Engine}
    (h : (exec (call fuel) p e).Leaves m) : Deeds e m :=
  ((exec_deeds fuel p e).mono (fun _ _ hd => hd) fun _ hd => hd).leaves h

/-- **Commands make changes only.** -/
theorem call_evolves (fuel : Nat) (c : Command) (e : Engine) :
    (call fuel c e).Ends (fun _ => Evolves e) (Evolves e) :=
  (call_deeds fuel c e).mono (fun _ _ h => h.evolves) fun _ h => h.evolves

/-- **Programs make changes only.** -/
theorem exec_evolves (fuel : Nat) (p : Program) (e : Engine) :
    (exec (call fuel) p e).Ends (fun _ => Evolves e) (Evolves e) :=
  (exec_deeds fuel p e).mono (fun _ _ h => h.evolves) fun _ h => h.evolves

/-! ### The clock, the workers and the end -/

/-- A shutdown of the pool waits for the jobs under way, if it has to. -/
def awaitDrain (fuel : Nat) (timeout : Duration) (number : Nat) (e : Engine) : Run Unit :=
  if e.pool.isDrained number then .returned () e else advance fuel timeout.ceilMillis e

/-- A shutdown of the pool ends, and it is logged what it has not waited for. -/
def concludeDrain (timeout : Duration) (number : Nat) (e : Engine) : Engine :=
  let ended := { e with pool := e.pool.endDrain number }
  (if e.pool.isDrained number then ended else ended.log (ended.pool.drainLog timeout)).log
    Pool.closedLog

/-- A pool that is open begins to shut down, waits, and ends the shutdown. -/
theorem closePool_eq (fuel : Nat) (timeout : Duration) {e : Engine}
    (hopen : e.pool.closed = false) :
    closePool fuel timeout e =
      (awaitDrain fuel timeout e.pool.shutdowns { e with pool := e.pool.startDrain }).bind
        fun _ m => .returned (m.pool.isDrained e.pool.shutdowns)
          (m.concludeDrain timeout e.pool.shutdowns) := by
  rw [closePool, if_neg (by rw [hopen]; exact Bool.false_ne_true), awaitDrain]
  dsimp only
  split
  · next hdrained => simp only [Run.bind, concludeDrain, hdrained, if_true]
  · rfl

/-- A pool that is closed stays as it is. -/
theorem closePool_of_closed (fuel : Nat) (timeout : Duration) {e : Engine}
    (hclosed : e.pool.closed = true) : closePool fuel timeout e = .returned true e :=
  if_pos hclosed

/-- If a shutdown has to wait, time passes. -/
theorem awaitDrain_ends {Q : Unit → Engine → Prop} {P : Engine → Prop} {fuel : Nat}
    {timeout : Duration} (number : Nat) {e : Engine} (h : Q () e)
    (hadvance : (advance fuel timeout.ceilMillis e).Ends Q P) :
    (awaitDrain fuel timeout number e).Ends Q P := by
  unfold awaitDrain
  split
  · exact h
  · exact hadvance

/-- A shutdown that waits lets its time pass; otherwise nothing happens. -/
theorem awaitDrain_returned {fuel number : Nat} {timeout : Duration} {e m : Engine}
    (h : awaitDrain fuel timeout number e = .returned () m) :
    m = e ∨ advance fuel timeout.ceilMillis e = .returned () m := by
  unfold awaitDrain at h
  split at h
  · cases h
    exact .inl rfl
  · exact .inr h

/-- The end of a shutdown is the end of its drain, apart from what is logged. -/
theorem concludeDrain_keeps {P : Engine → Prop}
    (hlog : ∀ (m : Engine) line, P m → P (m.log line)) (timeout : Duration) {number : Nat}
    {e : Engine} (h : P { e with pool := e.pool.endDrain number }) :
    P (e.concludeDrain timeout number) := by
  unfold concludeDrain
  dsimp only
  split
  · exact hlog _ _ h
  · exact hlog _ _ (hlog _ _ h)

/-- What a shutdown leaves of the pool. -/
theorem pool_concludeDrain (timeout : Duration) (number : Nat) (e : Engine) :
    (e.concludeDrain timeout number).pool = e.pool.endDrain number :=
  concludeDrain_keeps (P := (·.pool = e.pool.endDrain number)) (fun _ _ h => h) timeout rfl

/-- A body or a job that goes wrong is reported, and everything else goes on: nothing breaks off. -/
theorem guarded_ends {P P' : Engine → Prop} (hlog : ∀ (e : Engine) line, P e → P (e.log line))
    {r : Run (Except WorkflowError Flowgraph.Step)} (failed : WorkflowError → LogLine)
    (panicked : LogLine) (hr : r.Ends (fun _ => P) P) :
    (guarded r failed panicked).Ends (fun _ => P) P' := by
  match r, hr with
  | .returned (.ok _) _, h => exact h
  | .returned (.error _) e, h => exact hlog e _ h
  | .panicked e, h => exact hlog e _ h
  | .diverged, _ => trivial

/-- What everything keeps that time is made up of: what programs do, and the tasks that are due. -/
structure Ticking (P : Engine → Prop) : Prop where
  quiet : ∀ {e e' : Engine}, Quiet e e' → P e → P e'
  call : ∀ fuel c e, P e → (Engine.call fuel c e).Ends (fun _ => P) P
  settle : ∀ e, P e → P e.settle
  /-- While no body is under way, the task that is to run next runs. -/
  task : ∀ fuel limit task due e, e.scheduler.resting = true →
    e.scheduler.next? limit = some (task, due) → P e →
    (runTask (exec (Engine.call fuel)) task due e).Ends (fun _ => P) P
  /-- While no body is under way, the clock moves on, past nothing that is due. -/
  tick : ∀ (e : Engine) time, e.scheduler.resting = true → e.scheduler.next? time = none → P e →
    P { e with scheduler := { e.scheduler with now := max e.now time } }

namespace Ticking

variable {P : Engine → Prop} (K : Ticking P)
include K

theorem log (e : Engine) (line : LogLine) (h : P e) : P (e.log line) := K.quiet (.log e line) h

/-- What commands keep, programs keep. -/
theorem exec (fuel : Nat) (p : Program) (e : Engine) (h : P e) :
    (Engine.exec (Engine.call fuel) p e).Ends (fun _ => P) P :=
  exec_ends K.quiet (K.call fuel) p e h

/-- The clock keeps what its pulses and the bodies of tasks keep. -/
theorem advanceTo (fuel time rounds : Nat) (e : Engine) (h : P e) :
    (Engine.advanceTo fuel time rounds e).Ends (fun _ => P) P := by
  induction rounds generalizing e with
  | zero => trivial
  | succ rounds ih =>
    have hsettle : P e.settle := K.settle e h
    rw [Engine.advanceTo]
    split
    · next hresting =>
      have hresting : e.settle.scheduler.resting = true :=
        (Scheduler.resting_settle _).trans hresting
      dsimp only
      split
      · -- nothing is due up to the time, and the clock is set to it
        next hnext => exact K.tick e.settle time hresting hnext hsettle
      · next task due hnext =>
        exact (K.task fuel time task due e.settle hresting hnext hsettle).bind fun _ e' he' =>
          ih e' he'
    · trivial

end Ticking

/-- What everything keeps that a host may ask for, a registration of node types apart. -/
structure Serving (P : Engine → Prop) : Prop extends Ticking P where
  workOff : ∀ fuel rounds e, P e → (Engine.workOff fuel rounds e).Ends (fun _ => P) P
  closePool : ∀ fuel timeout e, P e → (Engine.closePool fuel timeout e).Ends (fun _ => P) P
  store : ∀ (e : Engine) store, P e → P { e with store := store }
  catalog : ∀ (e : Engine) catalog, P e → P { e with catalog := catalog }

/-- What everything keeps that time and work are made up of. -/
structure Working (P : Engine → Prop) : Prop extends Ticking P where
  job : ∀ e number, P e → P (e.startJob number)
  pool : ∀ (e : Engine) pool, P e → P { e with pool := pool }

/-- What everything keeps that a host's request is made up of. -/
structure Keeping (P : Engine → Prop) : Prop extends Working P where
  store : ∀ (e : Engine) store, P e → P { e with store := store }
  catalog : ∀ (e : Engine) catalog, P e → P { e with catalog := catalog }

namespace Working

variable {P : Engine → Prop} (K : Working P)
include K

/-- A job keeps what its program and its end keep. -/
theorem runJob (fuel : Nat) (job : Job Program) (e : Engine) (h : P e) :
    (Engine.runJob (Engine.exec (Engine.call fuel)) job e).Ends (fun _ => P) P := by
  have hwork := K.exec fuel job.work (e.startJob job.number) (K.job e job.number h)
  exact (guarded_ends K.log jobLog jobPanicLog hwork).bind fun _ e' he' => K.pool e' _ he'

/-- Jobs keep it one after another. -/
theorem workOff (fuel rounds : Nat) (e : Engine) (h : P e) :
    (Engine.workOff fuel rounds e).Ends (fun _ => P) P := by
  induction rounds generalizing e with
  | zero => trivial
  | succ rounds ih =>
    rw [Engine.workOff]
    split
    · exact h
    · next job _ _ => exact (K.runJob fuel job e h).bind fun _ e' he' => ih e' he'

/-- A pool that is closed keeps it. -/
theorem closePool (fuel : Nat) (timeout : Duration) (e : Engine) (h : P e) :
    (Engine.closePool fuel timeout e).Ends (fun _ => P) P := by
  cases hpool : e.pool.closed with
  | true =>
    rw [closePool_of_closed fuel timeout hpool]
    exact h
  | false =>
    have hstart : P { e with pool := e.pool.startDrain } := K.pool e _ h
    rw [closePool_eq fuel timeout hpool]
    refine (awaitDrain_ends _ hstart (K.advanceTo fuel _ fuel _ hstart)).bind fun _ m hm => ?_
    exact concludeDrain_keeps K.log timeout (K.pool m _ hm)

end Working

/-- What chores and commands keep is kept: a task that is to run next is started, runs its body, and
completes the run. -/
theorem working_of_chores {P : Engine → Prop}
    (hchore : ∀ {e e' : Engine}, Chore e e' → P e → P e')
    (hcall : ∀ fuel c e, P e → (call fuel c e).Ends (fun _ => P) P) : Working P where
  quiet hq := hchore (.quiet hq)
  call := hcall
  settle e := hchore (.pulse (.settle e))
  task fuel limit task due e _ hnext h := by
    have hlog : ∀ (e : Engine) line, P e → P (e.log line) := fun e line =>
      hchore (.quiet (.log e line))
    unfold runTask
    split
    · exact h
    · next t _ =>
      have hstart : P (e.startTask task due) := hchore (.pulse (.start e limit task due hnext)) h
      -- a run that fails or breaks off is logged, and completed as any other
      have hbody := exec_ends (fun hq => hchore (.quiet hq)) (hcall fuel) (t.body t.runs)
        (e.startTask task due) hstart
      exact (guarded_ends hlog (taskLog task) (taskPanicLog task) hbody).bind fun _ e' he' =>
        hchore (.pulse (.complete e' task)) he'
  tick e time _ _ := hchore (.pulse (.tick e time))
  job e number := hchore (.pulse (.job e number))
  pool e pool := hchore (.pulse (.pool e pool))

/-- What routine and commands keep is kept. -/
theorem keeping_of_routine {P : Engine → Prop}
    (hroutine : ∀ {e e' : Engine}, Routine e e' → e'.registry = e.registry → P e → P e')
    (hcall : ∀ fuel c e, P e → (call fuel c e).Ends (fun _ => P) P) : Keeping P :=
  { working_of_chores (fun hc => hroutine (.chore hc) hc.registry) hcall with
    store := fun e store => hroutine (.supply (.store e store)) rfl
    catalog := fun e catalog => hroutine (.supply (.types e e.registry catalog)) rfl }

/-! ### The host -/

/-- What the host may ask for that changes neither types nor store by itself, and where that leaves
the engine. -/
inductive Dealing (e : Engine) : Engine → Prop
  | call (fuel : Nat) (c : Command) {e' : Engine} (h : (call fuel c e).Leaves e') : Dealing e e'
  | perform (fuel : Nat) (p : Program) {e' : Engine} (h : (perform fuel p e).Leaves e') :
      Dealing e e'
  | advance (fuel millis : Nat) {e' : Engine} (h : (advance fuel millis e).Leaves e') :
      Dealing e e'
  | work (fuel : Nat) {e' : Engine} (h : (work fuel e).Leaves e') : Dealing e e'
  | closePool (fuel : Nat) (timeout : Duration) {e' : Engine}
      (h : (closePool fuel timeout e).Leaves e') : Dealing e e'
  | shutdown (fuel : Nat) {e' : Engine} (h : (shutdown fuel e).Leaves e') : Dealing e e'
  | on (key : EventKey) (l : Listener Reaction) {e' : Engine} (h : (e.on key l).Leaves e') :
      Dealing e e'
  | remove (key : EventKey) (l : ListenerId) {e' : Engine} (h : (e.remove key l).Leaves e') :
      Dealing e e'
  | addTask (timing : Timing) (body : Nat → Program) {e' : Engine}
      (h : (e.addTask timing body).Leaves e') : Dealing e e'
  | act (a : Action) {e' : Engine} (h : (e.act a).Leaves e') : Dealing e e'
  | submit (job : Program) : Dealing e (e.submit job).2

/-- What the host may ask for, and where that leaves the engine. -/
inductive HostStep (e : Engine) : Engine → Prop
  | dealing {e' : Engine} (h : Dealing e e') : HostStep e e'
  | register (t : NodeType Behaviour) {e' : Engine} (h : e.register t = .ok e') : HostStep e e'
  | registerEvent (name : String) (key : EventKey) : HostStep e (e.registerEvent name key)
  | write (store : Store) : HostStep e { e with store := store }

/-- A type that is registered is added to the others, and nothing else changes. -/
theorem of_register {e e' : Engine} {t : NodeType Behaviour} (h : e.register t = .ok e') :
    ∃ registry, e.registry.register t = .ok registry ∧ e' = { e with registry := registry } := by
  unfold register at h
  cases hreg : e.registry.register t with
  | error err => rw [hreg] at h; cases h
  | ok registry =>
    rw [hreg] at h
    cases h
    exact ⟨registry, rfl, rfl⟩

/-- A type that is registered is a supply. -/
theorem supply_of_register {e e' : Engine} {t : NodeType Behaviour} (h : e.register t = .ok e') :
    Supply e e' := by
  obtain ⟨registry, -, rfl⟩ := of_register h
  exact .types e registry e.catalog

/-- What programs, time and work keep is kept by the host's dealings. -/
theorem Ticking.dealing {P : Engine → Prop} (K : Ticking P)
    (hwork : ∀ fuel rounds e, P e → (Engine.workOff fuel rounds e).Ends (fun _ => P) P)
    (hclose : ∀ fuel timeout e, P e → (Engine.closePool fuel timeout e).Ends (fun _ => P) P)
    {e e' : Engine} (hd : Dealing e e') (h : P e) : P e' := by
  cases hd with
  | call fuel c hl => exact (K.call fuel c e h).leaves hl
  | perform fuel p hl => exact (K.exec fuel p e h).leaves hl
  | advance fuel millis hl => exact (K.advanceTo fuel _ fuel e h).leaves hl
  | work fuel hl => exact (hwork fuel fuel e h).leaves hl
  | closePool fuel timeout hl => exact (hclose fuel timeout e h).leaves hl
  | shutdown fuel hl =>
    -- a shutdown clears the graph first, and then closes the pool
    have hclear := K.call fuel .clear e h
    exact (hclear.bind fun _ e' he' => hclose fuel _ e' he').leaves hl
  | on key l hl => exact (ends_of_moves K.quiet (subscribe_ends e e.live key l) h).leaves hl
  | remove key l hl =>
    exact (ends_of_moves K.quiet (act_ends e (.remove e.live key l)) h).leaves hl
  | addTask timing body hl =>
    exact (ends_of_moves K.quiet (schedule_ends e e.live timing body) h).leaves hl
  | act a hl => exact (ends_of_moves K.quiet (act_ends e a) h).leaves hl
  | submit job => exact keep_moves K.quiet (submit_moves e job) h

/-- What everything keeps that time and work are made up of, the host's dealings keep. -/
theorem Working.dealing {P : Engine → Prop} (K : Working P) {e e' : Engine} (hd : Dealing e e')
    (h : P e) : P e' :=
  K.toTicking.dealing K.workOff K.closePool hd h

/-- What everything keeps that the host may ask for is kept. Only a registration changes the node
types. -/
theorem Serving.hostStep {P : Engine → Prop} (K : Serving P) {e e' : Engine}
    (hregister : ∀ t, e.register t = .ok e' → P e') (hstep : HostStep e e') (h : P e) : P e' := by
  cases hstep with
  | dealing hd => exact K.toTicking.dealing K.workOff K.closePool hd h
  | register t hr => exact hregister t hr
  | registerEvent name key => exact K.catalog e _ h
  | write store => exact K.store e store h

theorem Keeping.serving {P : Engine → Prop} (K : Keeping P) : Serving P :=
  { K with
    workOff := K.workOff
    closePool := K.closePool }

/-- What everything keeps that a request is made up of, the host keeps. -/
theorem Keeping.hostStep {P : Engine → Prop} (K : Keeping P) {e e' : Engine}
    (hregister : ∀ t, e.register t = .ok e' → P e') (hstep : HostStep e e') (h : P e) : P e' :=
  K.serving.hostStep hregister hstep h

/-- **What routine and commands keep, everything that the host asks for keeps.** Only a registration
changes the node types. -/
theorem HostStep.keeps {P : Engine → Prop} {e e' : Engine}
    (hroutine : ∀ {e e' : Engine}, Routine e e' → e'.registry = e.registry → P e → P e')
    (hregister : ∀ t, e.register t = .ok e' → P e')
    (hcall : ∀ fuel c e, P e → (Engine.call fuel c e).Ends (fun _ => P) P)
    (hstep : HostStep e e') (h : P e) : P e' :=
  (keeping_of_routine hroutine hcall).hostStep hregister hstep h

/-- **Whatever the host asks for makes changes only.** -/
theorem HostStep.evolves {e e' : Engine} (h : HostStep e e') : Evolves e e' :=
  h.keeps (P := Evolves e) (fun hr _ hs => hs.tail hr.change)
    (fun _ hr => .single (.supply (supply_of_register hr)))
    (fun fuel c e' hs => (call_evolves fuel c e').mono (fun _ _ => hs.trans) fun _ => hs.trans)
    .refl

end Engine

end Flowgraph
