import Flowgraph.Proofs.Run.Service
import Flowgraph.Proofs.Run.Twins

/-!
# Loading uniform nodes

What a load does with nodes that keep to their graph. It always returns, and what it makes depends
on nothing but its circumstances: the settings, the node types, the catalog and the time, and
whether the graph can be stored.

* `Loaded.circumstances` — loads and clearings leave the circumstances as they are.
* `Uniform.load_returns`, `Uniform.clear_returns` — with uniform nodes both always return.
* `Settled.vacated` — where the new graph is built, nothing is left of the old one but tasks that
  are over.
* `loads_level` — two engines in the same circumstances load a graph with the same result, and leave
  graphs that are alike (`Level`), if their stores answer alike.
-/

namespace Flowgraph

/-- What engines are in while a graph is loaded. -/
structure Circumstances where
  config : Config
  registry : Registry Behaviour
  catalog : Catalog
  now : Nat

/-- The behaviours of all node types are uniform. -/
def Registry.Uniform (registry : Registry Behaviour) : Prop :=
  ∀ name t b, registry.get? name = some t → t.behaviour = some b → b.Uniform

namespace Engine

variable {c : Context} {e e' m : Engine}

/-- What a load may read of an engine, besides the graph. -/
def circumstances (e : Engine) : Circumstances := ⟨e.config, e.registry, e.catalog, e.now⟩

/-! ### Circumstances are kept -/

/-- To cancel a task takes no time. -/
theorem now_cancel (s : Scheduler (Nat → Program)) (task : TaskId) :
    (s.cancel task).now = s.now := by
  cases task <;> rfl

/-- To cancel tasks takes no time. -/
theorem now_foldl_cancel (s : Scheduler (Nat → Program)) (tasks : List TaskId) :
    (tasks.foldl Scheduler.cancel s).now = s.now := by
  induction tasks generalizing s with
  | nil => rfl
  | cons task rest ih => exact (ih (s.cancel task)).trans (now_cancel s task)

/-- Of the circumstances, cancelling tasks could change the time only. -/
theorem circumstances_of_now {s : Scheduler (Nat → Program)} (h : s.now = e.scheduler.now) :
    { e with scheduler := s }.circumstances = e.circumstances :=
  congrArg (Circumstances.mk e.config e.registry e.catalog) h

/-- The log is none of the circumstances. -/
theorem circumstances_logAll (e : Engine) (lines : List LogLine) :
    (e.logAll lines).circumstances = e.circumstances := by
  rw [logAll_eq]
  rfl

/-- The tasks are none of the circumstances. -/
theorem circumstances_track (e : Engine) (g : GraphId) (task : TaskId) :
    (e.track g task).circumstances = e.circumstances := by
  obtain ⟨s, _, _, hs, -, htrack⟩ := track_eq e g task
  rw [htrack]
  rcases hs with rfl | rfl
  · exact circumstances_of_now (e := e) (now_cancel _ task)
  · rfl

/-- A move leaves the circumstances as they are. -/
theorem Move.circumstances (h : Move e e') : e'.circumstances = e.circumstances := by
  cases h with
  | cancel task => exact circumstances_of_now (now_cancel _ task)
  | schedule g timing body task s _ hs =>
    obtain ⟨-, -, rfl⟩ := Scheduler.of_schedule hs
    exact circumstances_track _ g task
  | record entry _ => rfl
  | draw => rfl
  | remove g key l _ => rfl
  | withdraw g l _ => rfl
  | subscribe g key l _ => rfl
  | submit job pool _ => rfl

/-- Moves leave the circumstances as they are. -/
theorem Moves.circumstances (h : Moves e e') : e'.circumstances = e.circumstances := by
  induction h with
  | refl => rfl
  | tail _ hm ih => exact hm.circumstances.trans ih

/-- A release leaves the circumstances as they are. -/
theorem circumstances_release (e : Engine) (g : GraphId) :
    (e.release g).circumstances = e.circumstances :=
  circumstances_of_now (now_foldl_cancel e.scheduler (e.graph g).tasks.tracked)

/-- The new graph is built in the circumstances of the load. -/
theorem circumstances_vacated (lines : List LogLine) (hm : Unloaded {} (announce c e) m) :
    (vacated c e m lines).circumstances = e.circumstances := by
  have hmoves : m.circumstances = e.circumstances := hm.moves.circumstances
  show ((m.release e.live).logAll lines).circumstances = _
  rw [circumstances_logAll, circumstances_release, hmoves]

/-- To build a graph leaves the circumstances as they are. -/
theorem Built.circumstances {generation : Nat} {r : Except WorkflowError Unit}
    (h : Built c generation e r e') : e'.circumstances = e.circumstances := by
  cases h with
  | refused _ => rfl
  | failed _ ht _ => exact (circumstances_release _ _).trans (ht.moves rfl).circumstances
  | live _ ht _ => exact (ht.moves rfl).circumstances

/-- **Loads leave the circumstances as they are.** -/
theorem Loaded.circumstances {r : Except WorkflowError Unit} (h : Loaded c e r e') :
    e'.circumstances = e.circumstances := by
  cases h with
  | unstored hm _ => exact circumstances_vacated _ hm
  | failed hm _ hb => exact hb.circumstances.trans (circumstances_vacated _ hm)
  | done hm _ hb =>
    exact (circumstances_logAll _ _).trans (hb.circumstances.trans (circumstances_vacated _ hm))

/-- A clearing leaves the circumstances as they are. -/
theorem Cleared.circumstances (h : Cleared e e') : e'.circumstances = e.circumstances := by
  cases h with
  | mk hm =>
    have hmoves := hm.moves.circumstances
    exact (circumstances_logAll _ _).trans ((circumstances_release _ _).trans hmoves)

/-! ### Uniform nodes -/

/-- The node types are uniform, and so are the nodes of the live graph. -/
structure Uniform (e : Engine) : Prop where
  registry : e.registry.Uniform
  nodes : ∀ n ∈ e.liveGraph.nodes, n.behaviour.Uniform

/-- Nodes of uniform types are uniform. -/
theorem uniform_of_wire {registry : Registry Behaviour} (hr : registry.Uniform)
    {nodes : List LiveNode} (h : wire registry c = .ok nodes) : ∀ n ∈ nodes, n.behaviour.Uniform :=
  behaves_of_wire hr h

/-- The types are among the circumstances. -/
theorem registry_of_circumstances (h : e'.circumstances = e.circumstances) :
    e'.registry = e.registry := congrArg Circumstances.registry h

/-- A load leaves uniform nodes. -/
theorem Uniform.loaded (hu : Uniform e) (hlt : e.live < e.graphs.length)
    {r : Except WorkflowError Unit} (h : Loaded c e r e') : Uniform e' := by
  have hreg := registry_of_circumstances h.circumstances
  refine ⟨hreg ▸ hu.registry, ?_⟩
  -- where the load fails no node is left
  have hnone : e'.nodeIds = [] → ∀ n ∈ e'.liveGraph.nodes, n.behaviour.Uniform := fun hids => by
    rw [List.map_eq_nil_iff.mp hids]
    exact List.forall_mem_nil _
  obtain ⟨stages, -, hc⟩ := h.concluded hlt
  cases hc with
  | unstored _ _ _ hids => exact hnone hids
  | refused _ _ _ _ hids => exact hnone hids
  | failed _ _ _ _ _ hids => exact hnone hids
  | loaded hwire _ _ hnodes =>
    rw [hnodes]
    exact uniform_of_wire hu.registry hwire

/-- An engine stays uniform when it is cleared, since there is no node then. -/
theorem Uniform.cleared (hu : Uniform e) (hlt : e.live < e.graphs.length) (h : Cleared e e') :
    Uniform e' := by
  have hreg := registry_of_circumstances h.circumstances
  refine ⟨hreg ▸ hu.registry, ?_⟩
  rw [List.map_eq_nil_iff.mp (h.vacant hlt).nodeIds]
  exact List.forall_mem_nil _

/-! ### Replacements return -/

section Returns

variable (fuel : Nat)

/-- A graph of uniform nodes can be taken down, whatever the node types are. -/
theorem replace_returns (hnodes : ∀ n ∈ e.liveGraph.nodes, n.behaviour.Uniform)
    (hlt : e.live < e.graphs.length) (empty : Graph) :
    ∃ m lines, replace (exec (call fuel)) empty e =
      .returned e.graphs.length ((m.release e.live).logAll lines) ∧ Unloaded empty e m := by
  -- the graph that is taken down is the one that was live
  have hnodes : ∀ n ∈ ((e.retire empty).graph e.live).nodes, n.behaviour.Uniform := by
    rw [graph_retire empty hlt]
    exact hnodes
  obtain ⟨m, hm⟩ := unloadAll_returns (call fuel) (e := e.retire empty) hnodes rfl
  have hreplace : replace (exec (call fuel)) empty e = .returned e.graphs.length
      ((m.release e.live).logAll (unloadedLog (m.graph e.live) (m.graph e.live).bus.size
        ({ m with hooks := none }.drop e.live).1)) := by
    show (((unloadAll _ e.live ((e.retire empty).graph e.live).nodes
      (e.retire empty)).onPanic _).bind _).map _ = _
    rw [hm]
    rfl
  have hends := replace_ends fuel empty e
  rw [hreplace] at hends
  obtain ⟨-, m', lines, hunloaded, hm'⟩ := hends
  exact ⟨m', lines, hm' ▸ hreplace, hunloaded⟩

/-- A graph of uniform nodes can be taken down. -/
theorem Uniform.replace_returns (hu : Uniform e) (hlt : e.live < e.graphs.length) (empty : Graph) :
    ∃ m lines, replace (exec (call fuel)) empty e =
      .returned e.graphs.length ((m.release e.live).logAll lines) ∧ Unloaded empty e m :=
  Engine.replace_returns fuel hu.nodes hlt empty

/-- How the building of a graph ends, once its nodes have been initialised or one of them failed. -/
def endBuild (e : Engine) (g : GraphId) : Except WorkflowError Unit → Engine
  | .error _ => e.release g
  | .ok _ => e.promote g

/-- A graph that can be wired is built as far as its nodes can be initialised. -/
theorem build_of_initAll {generation : Nat} {nodes : List LiveNode} {r : Except WorkflowError Unit}
    (hwire : wire e.registry c = .ok nodes)
    (hinit : initAll (exec (call fuel)) e.graphs.length [] nodes
      (e.raise { generation := generation, context := c, nodes := nodes }) = .returned r m) :
    build (exec (call fuel)) c generation e = .returned r (m.endBuild e.graphs.length r) := by
  rw [build, hwire]
  show ((initAll _ e.graphs.length [] nodes (e.raise _)).onPanic _).bind _ = _
  rw [hinit]
  cases r with
  | error err => rfl
  | ok _ => rfl

/-- A graph of uniform types can be built, or fails; in any case that returns. -/
theorem build_returns (hr : e.registry.Uniform) (generation : Nat) :
    ∃ r m, build (exec (call fuel)) c generation e = .returned r m := by
  cases hwire : wire e.registry c with
  | error err => exact ⟨_, e, by rw [build, hwire]⟩
  | ok nodes =>
    obtain ⟨r, m, hinit⟩ := initAll_returns (call fuel)
      (e := e.raise { generation := generation, context := c, nodes := nodes })
      (List.forall_mem_nil _) (uniform_of_wire hr hwire) rfl
    exact ⟨r, _, build_of_initAll fuel hwire hinit⟩

/-- A load stores the graph where the old one was taken down, and then builds it there. -/
theorem load_eq {lines : List LogLine} (hfree : e.hooks = none)
    (hm : Unloaded {} (announce c e) m)
    (hreplace : replace (exec (call fuel)) {} (announce c e) =
      .returned e.graphs.length ((m.release e.live).logAll lines)) :
    load (exec (call fuel)) c e =
      match e.store.writeError? with
      | some err => .returned (.error err) (vacated c e m lines)
      | none =>
        (build (exec (call fuel)) c (e.generation + 1) (vacated c e m lines)).bind fun
          | .error err, e => .returned (.error err) e
          | .ok (), e =>
            .returned (.ok ()) ((e.logAll (e.findingsLog c)).log (loadedLog e.liveGraph)) := by
  have hlive : ((m.release e.live).logAll lines).live = e.graphs.length := by
    rw [(Frame.logAll _ lines).live]
    show m.live = _
    exact live_of_retire (e := announce c e) hm.moves
  have hfree' : ¬ e.hooks.isSome = true := by
    rw [hfree]
    exact Bool.false_ne_true
  -- no graph is being brought up, so the load does not have to wait
  have hload : load (exec (call fuel)) c e = _ := if_neg hfree'
  rw [hload]
  show ((replace _ {} (announce c e)).bind _) = _
  rw [hreplace, vacated, entitle, hlive, ← store_released lines hm.moves]
  rfl

/-- **With uniform nodes a load always returns.** -/
theorem Uniform.load_returns (hu : Uniform e) (hlt : e.live < e.graphs.length)
    (hfree : e.hooks = none) (c : Context) :
    ∃ r e', load (exec (call fuel)) c e = .returned r e' := by
  obtain ⟨m, lines, hreplace, hm⟩ :=
    Uniform.replace_returns fuel (e := announce c e) ⟨hu.registry, hu.nodes⟩ hlt {}
  -- taking down the old graph leaves the registry alone
  have hr : (vacated c e m lines).registry.Uniform := by
    rw [registry_vacated lines hm]
    exact hu.registry
  obtain ⟨r, e', hbuild⟩ := build_returns fuel (c := c) hr (e.generation + 1)
  rw [load_eq fuel hfree hm hreplace, hbuild]
  cases e.store.writeError? with
  | some err => exact ⟨_, _, rfl⟩
  | none =>
    cases r with
    | error err => exact ⟨_, _, rfl⟩
    | ok _ => exact ⟨_, _, rfl⟩

/-- A graph that can be stored and wired is loaded, if its nodes do nothing when they are
initialised. -/
theorem Uniform.loads (hu : Uniform e) (hlt : e.live < e.graphs.length) (hfree : e.hooks = none)
    (hw : e.store.writeError? = none) {nodes : List LiveNode}
    (hwire : wire e.registry c = .ok nodes)
    (hinit : ∀ n ∈ nodes, ∀ setting, n.behaviour.init n.node setting = .done) :
    ∃ e', load (exec (call fuel)) c e = .returned (.ok ()) e' := by
  obtain ⟨m, lines, hreplace, hm⟩ :=
    Uniform.replace_returns fuel (e := announce c e) ⟨hu.registry, hu.nodes⟩ hlt {}
  -- the registry is the same when the graph is wired
  have hwire' : wire (vacated c e m lines).registry c = .ok nodes := by
    rw [registry_vacated lines hm]
    exact hwire
  obtain ⟨m', hinit'⟩ := initAll_of_done (call fuel) [] hinit
    ((vacated c e m lines).raise { generation := e.generation + 1, context := c, nodes := nodes })
  rw [load_eq fuel hfree hm hreplace, hw, build_of_initAll fuel hwire' hinit']
  exact ⟨_, rfl⟩

/-- **With uniform nodes a clearing always returns.** -/
theorem Uniform.clear_returns (hu : Uniform e) (hlt : e.live < e.graphs.length)
    (hfree : e.hooks = none) : ∃ e', clear (exec (call fuel)) e = .returned () e' := by
  obtain ⟨m, lines, hreplace, -⟩ :=
    hu.replace_returns fuel hlt { generation := e.liveGraph.generation + 1 }
  have hfree' : ¬ e.hooks.isSome = true := by
    rw [hfree]
    exact Bool.false_ne_true
  have hclear : clear (exec (call fuel)) e = _ := if_neg hfree'
  rw [hclear, hreplace]
  exact ⟨_, rfl⟩

end Returns

/-! ### Where the new graph is built -/

/-- In a settled engine without tracked tasks all tasks are over. -/
theorem Settled.isOver_of_mem (he : Reachable e) (h : Settled e) (hnone : e.taskCount = 0) :
    ∀ t ∈ e.scheduler.tasks, t.isOver = true := by
  intro t ht
  obtain ⟨place, hlt, hplace⟩ := List.mem_iff_getElem.mp ht
  exact h.isOver he hnone (place + 1) t (hplace ▸ List.getElem?_eq_getElem hlt)

section Vacated

variable (lines : List LogLine) (hm : Unloaded {} (announce c e) m)
include hm

/-- The old graph is released on the way to where the new one is built. -/
theorem Unloaded.released (hfree : e.hooks = none) :
    ∃ r, Deeds e r ∧ r.hooks = some e.live ∧ Deeds (r.release e.live) (vacated c e m lines) :=
  ⟨m, deeds_announce c hfree hm.moves, hooks_of_retire (e := announce c e) hm.moves,
    deeds_vacated c e m lines⟩

/-- An engine is settled where the new graph is built. -/
theorem Settled.vacated (he : Reachable e) (h : Settled e) : Settled (vacated c e m lines) := by
  have hreleased := hm.released lines h.hooks
  have hs := (deeds_of_released hreleased).evolves
  have hlive : (Engine.vacated c e m lines).live = e.graphs.length := live_vacated lines hm.moves
  have hlen := length_vacated (c := c) lines hm.moves
  refine ⟨hooks_vacated c e m lines, fun g hne => ?_, owned_of_evolves hs h.owned⟩
  rw [hlive] at hne
  rcases Nat.lt_or_ge g e.graphs.length with hlt | hge
  · by_cases hold : g = e.live
    · -- the old graph gave up its tasks when it was released
      rw [hold]
      exact (closed_of_released he.placed hreleased).2.tracked
    · exact h.tracked_of_evolves he hs hlt hold
  · -- behind the stand-in there are no graphs yet
    rw [graph_of_le (hlen ▸ Nat.lt_of_le_of_ne hge (Ne.symm hne))]
    rfl

/-- **Where the new graph is built, all tasks are over.** -/
theorem Settled.isOver_vacated (he : Reachable e) (h : Settled e) :
    ∀ t ∈ (Engine.vacated c e m lines).scheduler.tasks, t.isOver = true := by
  have hs := (deeds_of_released (hm.released lines h.hooks)).evolves
  refine (h.vacated lines hm he).isOver_of_mem (he.evolves hs) ?_
  rw [taskCount, liveGraph, live_vacated lines hm.moves,
    graph_vacated lines hm.moves he.placed.live_lt]
  rfl

end Vacated

/-! ### Graphs that are loaded alike -/

/-- **Engines whose live graphs are alike**, and in which everything that was made before them is
over. -/
structure Level (v v' : Vantage) (e e' : Engine) : Prop where
  alike : Alike v v' .hook e e'
  live : e.live = v.graph
  live' : e'.live = v'.graph
  hooks : e.hooks = none
  hooks' : e'.hooks = none
  past : ∀ t ∈ v.tasks, t.isOver = true
  past' : ∀ t ∈ v'.tasks, t.isOver = true

variable {v v' : Vantage}

/-- Records make no difference to graphs that were just loaded. -/
theorem Level.withJournal (h : Level v v' e e') (j j' : Journal) :
    Level v v' { e with journal := j } { e' with journal := j' } :=
  { h with alike := { h.alike with shared := nofun } }

/-- Graphs are alike that hold nothing but the same nodes. -/
theorem alike_of_nodes {g g' : GraphId} {n n' : Nat} {nodes : List LiveNode}
    (hsame : e.circumstances = e'.circumstances) (hnodes : ∀ n ∈ nodes, n.behaviour.Uniform)
    (hreach : e.reaches g = true) (hreach' : e'.reaches g' = true)
    (hgraph : e.graph g = { generation := n, context := c, nodes := nodes })
    (hgraph' : e'.graph g' = { generation := n', context := c, nodes := nodes }) :
    Alike ⟨g, e.scheduler.tasks, e.journal⟩ ⟨g', e'.scheduler.tasks, e'.journal⟩ .hook e e' where
  config := congrArg Circumstances.config hsame
  catalog := congrArg Circumstances.catalog hsame
  now := congrArg Circumstances.now hsame
  reaches := hreach
  reaches' := hreach'
  graph := by
    -- the two graphs are the same but for their generations
    rw [hgraph, hgraph']
    exact ⟨rfl, rfl, hnodes, fun _ => .nil, ⟨[], rfl, rfl⟩, ⟨rfl, rfl⟩, ⟨rfl, rfl⟩⟩
  tasks := ⟨[], [], (List.append_nil _).symm, (List.append_nil _).symm, .nil⟩
  shared := nofun

/-- The graphs stay alike when they become live. -/
theorem Alike.promote (h : Alike v v' .hook e e') (hlive : e.live ≠ v.graph)
    (hlive' : e'.live ≠ v'.graph) :
    Alike v v' .hook (e.promote v.graph) (e'.promote v'.graph) :=
  { h with
    reaches := rfl
    reaches' := rfl
    graph := by
      -- what is promoted keeps its nodes
      have hgraph : (e.promote v.graph).graph v.graph = e.graph v.graph :=
        graph_modifyGraph_of_ne _ hlive
      have hgraph' : (e'.promote v'.graph).graph v'.graph = e'.graph v'.graph :=
        graph_modifyGraph_of_ne _ hlive'
      rw [hgraph, hgraph']
      exact h.graph
    shared := nofun }

/-- **Graphs are built alike in the same circumstances.** -/
theorem build_alike (fuel fuel' n n' : Nat) (hsame : e.circumstances = e'.circumstances)
    (hr : e.registry.Uniform) (hlt : e.live < e.graphs.length) (hlt' : e'.live < e'.graphs.length)
    (hover : ∀ t ∈ e.scheduler.tasks, t.isOver = true)
    (hover' : ∀ t ∈ e'.scheduler.tasks, t.isOver = true) :
    ∃ r m m', build (exec (call fuel)) c n e = .returned r m ∧
      build (exec (call fuel')) c n' e' = .returned r m' ∧
      (r = .ok () → ∃ v v', Level v v' m m') := by
  have hregistry : e'.registry = e.registry := registry_of_circumstances hsame.symm
  cases hwire : wire e.registry c with
  | error err =>
    -- wiring reads nothing but the node types, so both are refused
    exact ⟨.error (.load err), e, e', by rw [build, hwire], by rw [build, hregistry, hwire], nofun⟩
  | ok nodes =>
    have hnodes := uniform_of_wire hr hwire
    have hgraph : ∀ (b : Engine) n,
        (b.raise { generation := n, context := c, nodes := nodes }).graph b.graphs.length =
          { generation := n, context := c, nodes := nodes } :=
      fun b n => graph_addGraph_self b _
    -- the new graphs are alike before their nodes are initialised, and so they are afterwards
    have hraise : Alike ⟨e.graphs.length, e.scheduler.tasks, e.journal⟩
        ⟨e'.graphs.length, e'.scheduler.tasks, e'.journal⟩ .hook
        (e.raise { generation := n, context := c, nodes := nodes })
        (e'.raise { generation := n', context := c, nodes := nodes }) :=
      alike_of_nodes (show (e.raise _).circumstances = (e'.raise _).circumstances from hsame) hnodes
        (reaches_of_hooks rfl) (reaches_of_hooks rfl) (hgraph e n) (hgraph e' n')
    obtain ⟨r, m, hinit⟩ := initAll_returns (call fuel)
      (e := e.raise { generation := n, context := c, nodes := nodes })
      (List.forall_mem_nil _) hnodes rfl
    have hinits := initAll_alike (call fuel) (call fuel') (List.forall_mem_nil _) hnodes hraise
    rw [hinit] at hinits
    generalize hinit' : initAll (exec (call fuel')) e'.graphs.length [] nodes (e'.raise _) = r'
      at hinits
    cases hinits with
    | @returned _ _ m' hm =>
      refine ⟨r, _, _, build_of_initAll fuel hwire hinit,
        build_of_initAll fuel' (hregistry ▸ hwire) hinit', ?_⟩
      rintro rfl
      have hlive : m.live = e.live := (moves_of_initAll rfl hinit).frame.live
      have hlive' : m'.live = e'.live := (moves_of_initAll rfl hinit').frame.live
      have halike := hm.promote (hlive ▸ Nat.ne_of_lt hlt) (hlive' ▸ Nat.ne_of_lt hlt')
      exact ⟨_, _, halike, rfl, rfl, rfl, rfl, hover, hover'⟩

/-- A load that fails leaves a graph that holds nothing, and tasks that are over. -/
theorem Served.bare_of_failed {fuel : Nat} {err : WorkflowError} (he : Served e)
    (h : call fuel (.load c) e = .returned (.error err) m) :
    m.circumstances = e.circumstances ∧ m.hooks = none ∧
      m.graph m.live = { generation := e.generation + 1, context := c } ∧
      ∀ t ∈ m.scheduler.tasks, t.isOver = true := by
  have hm : Served m := he.replaced (c := .load c) trivial h
  obtain ⟨-, hl⟩ := loaded_of_call h
  obtain ⟨hlive, hhooks, -, hgraph, -⟩ := hl.failure he.reachable.placed.live_lt
  rw [← hlive] at hgraph
  -- the live graph owns no task, so all tasks there are are over
  have hnone : m.taskCount = 0 := by
    rw [taskCount, liveGraph, hgraph]
    rfl
  exact ⟨hl.circumstances, hhooks, hgraph, hm.settled.isOver_of_mem hm.reachable hnone⟩

/-- Graphs whose loads failed are alike, since they hold nothing. -/
theorem level_of_failed (fuel fuel' : Nat) {m' : Engine} {err : WorkflowError} (he : Served e)
    (he' : Served e') (hsame : e.circumstances = e'.circumstances)
    (h : call fuel (.load c) e = .returned (.error err) m)
    (h' : call fuel' (.load c) e' = .returned (.error err) m') : ∃ v v', Level v v' m m' := by
  obtain ⟨hkept, hhooks, hgraph, hpast⟩ := he.bare_of_failed h
  obtain ⟨hkept', hhooks', hgraph', hpast'⟩ := he'.bare_of_failed h'
  have hcircumstances : m.circumstances = m'.circumstances :=
    hkept.trans (hsame.trans hkept'.symm)
  have hreach : ∀ {b : Engine} g, b.hooks = none → b.reaches g = true := by
    intro b g hb
    rw [reaches, hb]
  have halike := alike_of_nodes hcircumstances (List.forall_mem_nil _) (hreach m.live hhooks)
    (hreach m'.live hhooks') hgraph hgraph'
  exact ⟨_, _, halike, rfl, rfl, hhooks, hhooks', hpast, hpast'⟩

/-- **In the same circumstances a graph is loaded with the same result, and what is live then is
alike**, whatever was live before, and whatever fuel either load is given, if the graph is stored in
both or in neither. -/
theorem loads_level (fuel fuel' : Nat) (he : Served e) (he' : Served e') (hu : Uniform e)
    (hu' : Uniform e') (hsame : e.circumstances = e'.circumstances)
    (hstore : e.store.writeError? = e'.store.writeError?) (c : Context) :
    ∃ r m m', call (fuel + 1) (.load c) e = .returned r m ∧
      call (fuel' + 1) (.load c) e' = .returned r m' ∧ ∃ v v', Level v v' m m' := by
  have hlt := he.reachable.placed.live_lt
  have hlt' := he'.reachable.placed.live_lt
  -- both old graphs are taken down, and leave circumstances that are the same again
  obtain ⟨m, lines, hreplace, hm⟩ :=
    Uniform.replace_returns fuel (e := announce c e) ⟨hu.registry, hu.nodes⟩ hlt {}
  obtain ⟨m', lines', hreplace', hm'⟩ :=
    Uniform.replace_returns fuel' (e := announce c e') ⟨hu'.registry, hu'.nodes⟩ hlt' {}
  have hr : (vacated c e m lines).registry.Uniform := by
    rw [registry_vacated lines hm]
    exact hu.registry
  have hvacated : (vacated c e m lines).circumstances = (vacated c e' m' lines').circumstances :=
    (circumstances_vacated lines hm).trans (hsame.trans (circumstances_vacated lines' hm').symm)
  obtain ⟨r, b, b', hb, hb', hlevel⟩ := build_alike (c := c) fuel fuel'
    (e.generation + 1) (e'.generation + 1) hvacated hr (live_lt_vacated lines hm.moves)
    (live_lt_vacated lines' hm'.moves) (he.settled.isOver_vacated lines hm he.reachable)
    (he'.settled.isOver_vacated lines' hm' he'.reachable)
  have hload := load_eq fuel he.settled.hooks hm hreplace
  have hload' := load_eq fuel' he'.settled.hooks hm' hreplace'
  rw [hb] at hload
  rw [hb', ← hstore] at hload'
  have hfailed : ∀ {err n n'}, load (exec (call fuel)) c e = .returned (.error err) n →
      load (exec (call fuel')) c e' = .returned (.error err) n' → ∃ v v', Level v v' n n' :=
    fun hn hn' => level_of_failed (fuel + 1) (fuel' + 1) he he' hsame hn hn'
  cases hw : e.store.writeError? with
  | some err =>
    rw [hw] at hload hload'
    exact ⟨_, _, _, hload, hload', hfailed hload hload'⟩
  | none =>
    rw [hw] at hload hload'
    cases r with
    | error err => exact ⟨_, b, b', hload, hload', hfailed hload hload'⟩
    | ok _ =>
      obtain ⟨v, v', hl⟩ := hlevel rfl
      refine ⟨_, _, _, hload, hload', v, v', ?_⟩
      -- what is reported of a load is all that comes after
      rw [logAll_eq, logAll_eq]
      exact hl.withJournal _ _

end Engine

end Flowgraph
