import Flowgraph.Proofs.Graph.Stored
import Flowgraph.Proofs.Task.Lifetime

/-!
# A failed load leaves nothing behind

A load fails if its graph cannot be stored, and then nothing is built. Otherwise it may fail at any
point of the building: while the nodes are wired, which runs no program, or at any node's
initialisation, after the nodes before it have made listeners and tasks as they liked. What is left
is the same in all cases, and `Emptied` lists it; only what the store gives back depends on the
write.

* The graph that stood in for the old one is live. No program could reach it while nodes were
  running theirs, so it is as empty as it was made, with the number and the context of the load.
* The old graph was released before the new one was built, and the new one after it had failed. So
  neither has listeners or tasks, nor will they have any.
* Every task that was made in between was made for one of these two or for a graph that had been
  dropped before, and so it is over.
-/

namespace Flowgraph.Engine

variable {c : Context} {e e' m : Engine}

/-- What a failed load leaves. -/
structure Emptied (c : Context) (e e' : Engine) : Prop where
  nodes : e'.nodeIds = []
  tasks : e'.taskCount = 0
  generation : e'.generation = e.generation + 1
  context : e'.context = c
  store : e'.store = e.store.writeContext c
  stored : e.store.writeError? = none → e'.store.readContext = .ok c
  /-- An event finds no listener. -/
  fire : ∀ fuel event before, call (fuel + 1) (.fire event before) e' = .returned 0 e'
  /-- Neither the old graph nor the new one has a listener from now on. -/
  silent : ∀ e'', Evolves e' e'' → ∀ g, g = e.live ∨ e'.live < g ∧ g < e'.graphs.length →
    ∀ key, (e''.graph g).bus.listeners key = []
  /-- A task that was made by the load is never started, neither while it lasts nor later. -/
  unstarted : ∀ e'', Evolves e' e'' →
    StartsOnly (fun task => task ≤ e.scheduler.tasks.length ∨ e'.scheduler.tasks.length < task)
      e e''

/-! ### The graph that stands in -/

/-- While the nodes of the old graph run, the graph that stands in stays as it was made. -/
theorem graph_standIn {empty : Graph} (hlt : e.live < e.graphs.length)
    (hm : Moves (e.retire empty) m) : m.graph e.graphs.length = empty := by
  -- until the nodes have been unloaded, the live graph can be reached by no program
  have hun : (e.retire empty).reaches e.graphs.length = false := by
    have hne : e.graphs.length ≠ e.live := Nat.ne_of_gt hlt
    show (decide (e.graphs.length = e.live) || decide (e.graphs.length ≠ e.graphs.length)) = false
    rw [decide_eq_false hne, decide_eq_false fun h => h rfl]
    rfl
  rw [hm.frame.unreached _ hun]
  exact graph_addGraph_self e empty

section Vacated

variable (lines : List LogLine) (hm : Moves ((announce c e).retire {}) m)
include hm

theorem live_vacated : (vacated c e m lines).live = e.graphs.length := by
  show ((m.release e.live).logAll lines).live = _
  rw [logAll_eq]
  exact hm.frame.live

theorem length_vacated : (vacated c e m lines).graphs.length = e.graphs.length + 1 := by
  show ((((m.release e.live).logAll lines).modifyGraph _ _).graphs).length = _
  rw [length_modifyGraph, logAll_eq]
  show (m.release e.live).graphs.length = _
  rw [release, drop, length_modifyGraph]
  exact hm.frame.length.trans List.length_append

theorem live_lt_vacated : (vacated c e m lines).live < (vacated c e m lines).graphs.length := by
  rw [live_vacated lines hm, length_vacated lines hm]
  exact Nat.lt_succ_self _

/-- The nodes of the old graph leave the store alone. -/
theorem store_released : ((m.release e.live).logAll lines).store = e.store := by
  rw [(Frame.logAll _ lines).store]
  exact hm.frame.store

theorem store_vacated : (vacated c e m lines).store = e.store.writeContext c :=
  congrArg (Store.writeContext · c) (store_released lines hm)

/-- The graph that stands in is empty but for the number and the context of the load. -/
theorem graph_vacated (hlt : e.live < e.graphs.length) :
    (vacated c e m lines).graph e.graphs.length =
      { generation := e.generation + 1, context := c } := by
  have hlive : ((m.release e.live).logAll lines).live = e.graphs.length :=
    live_vacated lines hm
  have hlen : ((m.release e.live).logAll lines).graphs.length = e.graphs.length + 1 := by
    rw [← length_vacated lines hm, vacated, entitle]
    exact (length_modifyGraph ..).symm
  -- the stand-in that took the old graph's place is empty
  have hstand : m.graph e.graphs.length = {} := graph_standIn (e := announce c e) hlt hm
  show (((m.release e.live).logAll lines).modifyGraph ((m.release e.live).logAll lines).live
    ({ · with generation := e.generation + 1, context := c })).graph e.graphs.length = _
  rw [hlive, graph_modifyGraph, if_pos ⟨rfl, hlen ▸ Nat.lt_succ_self _⟩, graph_logAll,
    graph_release, if_neg fun h => Nat.ne_of_lt hlt h.1, hstand]

end Vacated

/-- While the nodes of a graph are initialised, the live graph stays as it is. -/
theorem graph_live_of_raise {v : Engine} {graph : Graph} (hlive : v.live < v.graphs.length)
    (hm : Moves (v.raise graph) m) : m.graph v.live = v.graph v.live := by
  -- the live graph is out of reach while the nodes of another run
  have hun : (v.raise graph).reaches v.live = false := by
    show (decide (v.live = v.graphs.length) || decide (v.live ≠ v.live)) = false
    rw [decide_eq_false (Nat.ne_of_lt hlive), decide_eq_false fun h => h rfl]
    rfl
  rw [hm.frame.unreached _ hun]
  exact graph_addGraph_of_lt _ hlive

/-- What a building that fails keeps, and what it leaves of the new graph. -/
theorem Built.failure {generation : Nat} {v : Engine} {err : WorkflowError}
    (hfree : v.hooks = none) (hlive : v.live < v.graphs.length)
    (h : Built c generation v (.error err) e') :
    e'.live = v.live ∧ e'.hooks = none ∧ e'.store = v.store ∧ e'.graph v.live = v.graph v.live ∧
      ∀ g, v.graphs.length ≤ g → (e'.graph g).Closed := by
  cases h with
  | refused _ =>
    -- no graph was made
    refine ⟨rfl, hfree, rfl, rfl, fun g hg => ?_⟩
    rw [graph_of_le hg]
    exact Graph.closed_absent
  | @failed nodes err _ m _ ht _ =>
    have hm := ht.moves rfl
    have hframe := hm.frame
    have hlen : m.graphs.length = v.graphs.length + 1 := hframe.length.trans List.length_append
    refine ⟨hframe.live, rfl, hframe.store, ?_, fun g hg => ?_⟩
    · rw [graph_release, if_neg fun h => Nat.ne_of_gt hlive h.1]
      exact graph_live_of_raise hlive hm
    · -- the graph that failed is the only new one
      rcases Nat.lt_or_eq_of_le hg with hgt | rfl
      · rw [graph_of_le]
        · exact Graph.closed_absent
        · rw [release, drop, length_modifyGraph]
          exact hlen ▸ hgt
      · exact closed_release (hlen ▸ Nat.lt_succ_self _)

/-! ### Tasks of a load -/

/-- No task is started while graphs are brought up. -/
theorem Built.startsOnly {generation : Nat} {v : Engine} {r : Except WorkflowError Unit}
    {S : TaskId → Prop} (h : Built c generation v r e') : StartsOnly S v e' := by
  have hraise : ∀ graph, StartsOnly S v (v.raise graph) := fun _ => .of_eq rfl
  cases h with
  | refused _ => exact .of_eq rfl
  | failed _ ht _ => exact ((hraise _).trans (ht.moves rfl).startsOnly).trans (.of_eq rfl)
  | live _ ht _ => exact ((hraise _).trans (ht.moves rfl).startsOnly).trans (.of_eq rfl)

/-- No task is started while a graph is loaded. -/
theorem Loaded.startsOnly {r : Except WorkflowError Unit} {S : TaskId → Prop}
    (h : Loaded c e r e') : StartsOnly S e e' := by
  -- until the old graph is gone only its nodes have been run, and they start nothing
  have hvac : ∀ {m : Engine} {lines : List LogLine}, Unloaded {} (announce c e) m →
      StartsOnly S e (vacated c e m lines) := by
    intro m lines hm
    have hretire : StartsOnly S e ((announce c e).retire {}) := .of_record rfl nofun
    have hrelease : StartsOnly S m (m.release e.live) := .of_eq rfl
    have hlog := (moves_logAll (m.release e.live) lines).startsOnly (S := S)
    exact (((hretire.trans hm.moves.startsOnly).trans hrelease).trans hlog).trans (.of_eq rfl)
  cases h with
  | unstored hm _ => exact hvac hm
  | failed hm _ hb => exact (hvac hm).trans hb.startsOnly
  | @done m e' lines lines' hm _ hb =>
    exact ((hvac hm).trans hb.startsOnly).trans (moves_logAll e' lines').startsOnly

/-- What a failed load leaves of the graphs: only the one that stood in is alive, and all that were
made since are closed. -/
theorem Loaded.failure {err : WorkflowError} (hlt : e.live < e.graphs.length)
    (h : Loaded c e (.error err) e') :
    e'.live = e.graphs.length ∧ e'.hooks = none ∧ e'.store = e.store.writeContext c ∧
      e'.graph e.graphs.length = { generation := e.generation + 1, context := c } ∧
      ∀ g, e.graphs.length < g → (e'.graph g).Closed := by
  cases h with
  | @unstored m lines _ hm _ =>
    -- no graph was made but the one that stands in
    refine ⟨live_vacated lines hm.moves, hooks_vacated c e m lines, store_vacated lines hm.moves,
      graph_vacated lines hm.moves hlt, fun g hg => ?_⟩
    rw [graph_of_le (length_vacated lines hm.moves ▸ hg)]
    exact Graph.closed_absent
  | @failed m _ lines _ hm _ hb =>
    -- the graph is built in the vacated engine, where the stand-in is live
    have hlive := live_vacated lines hm.moves
    have hlen := length_vacated lines hm.moves
    have hstore := store_vacated lines hm.moves
    have hgraph := graph_vacated lines hm.moves hlt
    obtain ⟨hlive', hhooks, hstore', hgraph', hclosed⟩ :=
      hb.failure (hooks_vacated c e m lines) (live_lt_vacated lines hm.moves)
    rw [hlive] at hlive' hgraph'
    rw [hlen] at hclosed
    exact ⟨hlive', hhooks, hstore'.trans hstore, hgraph'.trans hgraph, hclosed⟩

theorem loaded_of_call {fuel : Nat} {r : Except WorkflowError Unit}
    (h : call fuel (.load c) e = .returned r e') : e.hooks = none ∧ Loaded c e r e' := by
  cases fuel with
  | zero => cases h
  | succ fuel => exact loaded_of_load fuel h

section Failed

variable (he : Reachable e) {fuel : Nat} {err : WorkflowError}
  (h : call fuel (.load c) e = .returned (.error err) e')
include he h

/-- **Every task that was made by a load that failed is over.** -/
theorem isOver_of_failed {id : TaskId} {t : Task (Nat → Program)}
    (hid : e.scheduler.tasks.length < id) (ht : e'.scheduler.task? id = some t) :
    t.isOver = true := by
  obtain ⟨hfree, hl⟩ := loaded_of_call h
  obtain ⟨-, -, -, hstand, hclosed⟩ := hl.failure he.placed.live_lt
  have hs := (hl.deeds hfree).evolves
  obtain ⟨g, ho⟩ := hs.keeps.owned id t ht hid
  refine Bool.of_not_eq_false fun hover => ?_
  have hmem := (hs.accounted he.accounted).tracked id t g ht hover ho
  -- a registry that still holds tasks held them before the load
  rcases Nat.lt_trichotomy g e.graphs.length with hg | rfl | hg
  · by_cases hlive : g = e.live
    · rw [hlive, (closed_of_replaces (c := .load c) he.placed trivial h).2.tracked] at hmem
      cases hmem
    · have hd := he.placed.dropped hlive (by rw [hfree]; exact nofun)
      have hmem' := (hs.shrinks hg hd).2.tracked hmem
      exact Nat.not_lt.mpr (he.accounted.known g id hmem') hid
  · rw [hstand] at hmem
    cases hmem
  · rw [(hclosed g hg).tracked] at hmem
    cases hmem

/-- No task that was made by a load that failed is started. -/
theorem startsOnly_of_failed {e'' : Engine} (hs : Evolves e' e'') :
    StartsOnly (fun task => task ≤ e.scheduler.tasks.length ∨ e'.scheduler.tasks.length < task)
      e e'' := by
  have hduring := (loaded_of_call h).2.startsOnly (S := fun task =>
    task ≤ e.scheduler.tasks.length ∨ e'.scheduler.tasks.length < task)
  refine hduring.trans (hs.startsOnly fun m hm _ task t ht hover => ?_)
  -- a task that was made by the load was over when it failed, and is so whenever it may be started
  refine Decidable.or_iff_not_imp_left.mpr fun hnew => Nat.lt_of_not_le fun hle => ?_
  obtain ⟨t', ht', hover', -⟩ := hm.keeps.not_isOver_before ht hover hle
  rw [isOver_of_failed he h (Nat.lt_of_not_le hnew) ht'] at hover'
  cases hover'

/-- Neither the old graph nor the new one has a listener after a load that failed. -/
theorem listeners_of_failed {e'' : Engine} (hs : Evolves e' e'') {g : GraphId}
    (hg : g = e.live ∨ e'.live < g ∧ g < e'.graphs.length) (key : EventKey) :
    (e''.graph g).bus.listeners key = [] := by
  obtain ⟨hlive, -, -, -, hclosed⟩ := (loaded_of_call h).2.failure he.placed.live_lt
  rcases hg with rfl | ⟨hgt, hlt⟩
  -- both graphs are closed, the old one since before the new one was built
  · obtain ⟨hlt, hc⟩ := closed_of_replaces (c := .load c) he.placed trivial h
    exact (hs.closed hlt hc).listeners key
  · exact (hs.closed hlt (hclosed g (hlive ▸ hgt))).listeners key

/-- An event after a load that failed is delivered to no listener. -/
theorem fire_of_failed (fuel : Nat) (event : Event) (before : Bool) :
    call (fuel + 1) (.fire event before) e' = .returned 0 e' := by
  obtain ⟨hlive, hhooks, -, hstand, -⟩ := (loaded_of_call h).2.failure he.placed.live_lt
  rw [call, fire, hhooks, liveGraph, hlive, hstand]
  rfl

/-- **A failed load leaves nothing behind**, from whatever state it was started and at whatever
point it failed. -/
theorem emptied_of_failed : Emptied c e e' := by
  obtain ⟨hlive, -, hstore, hstand, -⟩ := (loaded_of_call h).2.failure he.placed.live_lt
  -- the stand-in is live, under the number and the description of the graph that failed
  have hgraph : e'.liveGraph = { generation := e.generation + 1, context := c } := by
    rw [liveGraph, hlive, hstand]
  exact {
    nodes := by rw [nodeIds, hgraph]; rfl
    tasks := by rw [taskCount, hgraph]; rfl
    generation := by rw [Engine.generation, hgraph]
    context := by rw [Engine.context, hgraph]
    store := hstore
    stored := fun hw => hstore ▸ Store.readContext_writeContext hw c
    fire := fire_of_failed he h
    silent := fun e'' hs g hg => listeners_of_failed he h hs hg
    unstarted := fun e'' hs => startsOnly_of_failed he h hs }

end Failed

/-- What a node of the type `fragile` does when it is initialised. -/
def fragileInit (n : NodeInstance) (s : Setting) : Program :=
  .schedule s.graph (.once (.ofMillis 5)) (fun _ => .done) fun _ =>
    .subscribe s.graph (.ofType "Chat") ⟨some n.id, 0⟩ (fun _ _ => .done) fun _ =>
      .fail (.failed "broken")

/-- A node type whose nodes make a task and a listener when they are initialised, and then fail. -/
def fragile : NodeType Behaviour where
  metadata := { name := "fragile", group := .control, color := .rose }
  behaviour := some { init := fragileInit }

/-- The first node of a graph fails after it has made a task and a listener. -/
theorem emptied_of_fragile : ∃ e e' : Engine, Reachable e ∧
    call 2 (.load ⟨[{ id := "vase", name := "fragile" }]⟩) e =
      .returned (.error (.failed "broken")) e' ∧
    e'.scheduler.tasks.length = 1 ∧ Emptied ⟨[{ id := "vase", name := "fragile" }]⟩ e e' := by
  let registry : Registry Behaviour := (∅ : StringMap _).insert "fragile" fragile
  have he := reachable_newborn registry
  obtain ⟨e', h, hlen⟩ : ∃ e', call 2 (.load ⟨[{ id := "vase", name := "fragile" }]⟩)
      (newborn registry) = .returned (.error (.failed "broken")) e' ∧
        e'.scheduler.tasks.length = 1 :=
    ⟨_, rfl, rfl⟩
  exact ⟨_, e', he, h, hlen, emptied_of_failed he h⟩

end Flowgraph.Engine
