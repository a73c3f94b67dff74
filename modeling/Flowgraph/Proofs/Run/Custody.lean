import Flowgraph.Proofs.Run.Evolution
import Flowgraph.Proofs.Task.Over

/-!
# Who holds tasks and listeners

Two invariants of reachable engines, and what they say about the tasks that are started.

* `Placed` — a graph has not been dropped exactly if it is the live one or the one whose nodes are
  running programs, and these two are never the same.
* `Accounted` — a task that is not over is held by the registry of the graph it was made for.
* `Evolves.shrinks` — a graph that was dropped gains neither listeners nor tasks.
* `Move.edits`, `Change.reschedules` — what may happen to an engine's scheduler.
* `Evolves.keeps` — no task is forgotten, and one that is over stays over.
* `Evolves.startsOnly` — whatever is started was not over when it was started.
-/

namespace Flowgraph

/-- A graph that holds nothing, and to which nothing is given any more. -/
structure Graph.Closed (graph : Graph) : Prop where
  dropped : graph.dropped = true
  tracked : graph.tasks.tracked = []
  listeners : ∀ key, graph.bus.listeners key = []

/-- What may become of a graph that was dropped: it loses tasks and listeners and gains none. -/
structure Graph.Shrinks (graph graph' : Graph) : Prop where
  dropped : graph'.dropped = true
  tracked : graph'.tasks.tracked ⊆ graph.tasks.tracked
  listeners : ∀ key, graph.bus.listeners key = [] → graph'.bus.listeners key = []

theorem Graph.Shrinks.refl {graph : Graph} (h : graph.dropped = true) : graph.Shrinks graph :=
  ⟨h, List.Subset.refl _, fun _ h => h⟩

/-- What a graph has lost it does not get back. -/
theorem Graph.Shrinks.trans {graph graph' graph'' : Graph} (h : graph.Shrinks graph')
    (h' : graph'.Shrinks graph'') : graph.Shrinks graph'' :=
  ⟨h'.dropped, List.Subset.trans h'.tracked h.tracked,
    fun key hk => h'.listeners key (h.listeners key hk)⟩

/-- A graph that shrinks stays closed. -/
theorem Graph.Closed.shrinks {graph graph' : Graph} (hc : graph.Closed) (h : graph.Shrinks graph') :
    graph'.Closed :=
  ⟨h.dropped, List.subset_nil.mp (hc.tracked ▸ h.tracked),
    fun key => h.listeners key (hc.listeners key)⟩

/-- A number without a graph stands for one that is closed. -/
theorem Graph.closed_absent : Graph.absent.Closed := ⟨rfl, rfl, fun _ => rfl⟩

namespace Engine

variable {e e' : Engine}

/-- Beyond the last graph none is there. -/
theorem graph_of_le {g : GraphId} (h : e.graphs.length ≤ g) : e.graph g = Graph.absent := by
  rw [graph, List.getElem?_eq_none h]; rfl

/-- A graph that was not dropped is there. -/
theorem lt_of_not_dropped {g : GraphId} (h : (e.graph g).dropped = false) :
    g < e.graphs.length := by
  refine Nat.lt_of_not_le fun hle => ?_
  rw [graph_of_le hle] at h
  cases h

/-- The graphs after one was added. -/
theorem graph_addGraph (e : Engine) (graph : Graph) (g : GraphId) :
    (e.addGraph graph).2.graph g = if g = e.graphs.length then graph else e.graph g := by
  rcases Nat.lt_trichotomy g e.graphs.length with h | rfl | h
  · rw [if_neg (Nat.ne_of_lt h), graph_addGraph_of_lt graph h]
  · rw [if_pos rfl]
    exact graph_addGraph_self e graph
  · -- beyond the new graph there is none, before as after
    rw [if_neg (Nat.ne_of_gt h), graph_of_le (Nat.le_of_lt h), graph_of_le]
    show (e.graphs ++ [graph]).length ≤ g
    rw [List.length_append]
    exact h

/-- The graphs after one was released. -/
theorem graph_release (e : Engine) (g g' : GraphId) :
    (e.release g).graph g' =
      if g = g' ∧ g < e.graphs.length then
        { e.graph g' with bus := {}, tasks := { tracked := [], closed := true }, dropped := true }
      else e.graph g' := by
  have h := graph_modifyGraph e g g'
    ({ · with bus := {}, tasks := ⟨[], true⟩, dropped := true })
  exact h

/-- The graphs after one was given up. Its tasks stay tracked. -/
theorem graph_abandon (e : Engine) (g g' : GraphId) :
    (abandon g e).graph g' =
      if g = g' ∧ g < e.graphs.length then { e.graph g' with bus := {}, dropped := true }
      else e.graph g' := by
  have h := graph_modifyGraph e g g' ({ · with bus := {}, dropped := true })
  exact h

/-- Logging changes no graph. -/
theorem graph_logAll (e : Engine) (lines : List LogLine) (g : GraphId) :
    (e.logAll lines).graph g = e.graph g := by
  rw [logAll_eq]; rfl

/-! ### Graphs -/

/-- **A graph is either live, or its nodes are running programs, or it was dropped.** -/
structure Placed (e : Engine) : Prop where
  alive : ∀ g, (e.graph g).dropped = false ↔ g = e.live ∨ e.hooks = some g
  apart : e.hooks ≠ some e.live

/-- The live graph is there. -/
theorem Placed.live_lt (h : Placed e) : e.live < e.graphs.length :=
  lt_of_not_dropped ((h.alive e.live).mpr (.inl rfl))

/-- The graph whose nodes run is there. -/
theorem Placed.hooks_lt (h : Placed e) {g : GraphId} (hg : e.hooks = some g) :
    g < e.graphs.length :=
  lt_of_not_dropped ((h.alive g).mpr (.inr hg))

/-- Any other graph has been dropped. -/
theorem Placed.dropped (h : Placed e) {g : GraphId} (hlive : g ≠ e.live) (hg : e.hooks ≠ some g) :
    (e.graph g).dropped = true := by
  rw [← Bool.not_eq_false, h.alive]
  exact not_or.mpr ⟨hlive, hg⟩

/-- Where the same graphs are alive they are in the same places. -/
theorem Placed.of_kept (h : Placed e) (hhooks : e'.hooks = e.hooks) (hlive : e'.live = e.live)
    (hd : ∀ g, (e'.graph g).dropped = (e.graph g).dropped) : Placed e' where
  alive g := by rw [hd, hlive, hhooks]; exact h.alive g
  apart := by rw [hlive, hhooks]; exact h.apart

/-- The graph whose nodes were running programs is dropped. -/
theorem Placed.unhook (h : Placed e) {g : GraphId} (hg : e.hooks = some g)
    (hhooks : e'.hooks = none) (hlive : e'.live = e.live) (hd : (e'.graph g).dropped = true)
    (hother : ∀ g', g ≠ g' → e'.graph g' = e.graph g') : Placed e' where
  alive g' := by
    rw [hhooks, hlive]
    by_cases hne : g = g'
    · subst hne
      -- the live graph is another one, so dropping this one leaves nothing out
      have hgl : g ≠ e.live := fun heq => h.apart (heq ▸ hg)
      simp [hd, hgl]
    · rw [hother g' hne, h.alive, hg]
      simp [hne]
  apart := by rw [hhooks]; exact (Option.some_ne_none _).symm

/-- The graph that stands in is live then, and the old one's nodes run. -/
theorem Placed.retire (h : Placed e) {empty : Graph} (hfree : e.hooks = none)
    (hempty : empty.Fresh) : Placed (e.retire empty) where
  alive g := by
    show ((e.addGraph empty).2.graph g).dropped = false ↔
      g = e.graphs.length ∨ some e.live = some g
    -- the graph that was live is still alive, as the one whose nodes are unloaded
    rw [graph_addGraph]
    split
    · next hg => simp [hempty.dropped, hg]
    · next hg =>
      rw [h.alive, hfree]
      simp [hg, eq_comm]
  apart heq := Nat.ne_of_lt h.live_lt (Option.some.inj heq)

/-- The nodes of the new graph run then. -/
theorem Placed.raise (h : Placed e) {graph : Graph} (hfree : e.hooks = none)
    (hgraph : graph.Fresh) : Placed (e.raise graph) where
  alive g := by
    show ((e.addGraph graph).2.graph g).dropped = false ↔ g = e.live ∨ some e.graphs.length = some g
    rw [graph_addGraph]
    split
    · next hg => simp [hgraph.dropped, hg]
    · next hg =>
      rw [h.alive, hfree]
      simp [Ne.symm hg]
  apart heq := Nat.ne_of_gt h.live_lt (Option.some.inj heq)

/-- The new graph is live then, and the one that stood in for it is dropped. -/
theorem Placed.promote (h : Placed e) {g : GraphId} (hg : e.hooks = some g) :
    Placed (e.promote g) where
  alive g' := by
    have hgl : e.live ≠ g := fun heq => h.apart (heq ▸ hg)
    -- the graph that stood in is dropped in the same turn in which it ceases to be live
    show (({ e with hooks := none }.modifyGraph e.live
      ({ · with dropped := true })).graph g').dropped = false ↔ g' = g ∨ none = some g'
    rw [graph_modifyGraph]
    by_cases hne : e.live = g'
    · subst hne
      rw [if_pos ⟨rfl, h.live_lt⟩]
      simp [hgl]
    · rw [if_neg fun hc => hne hc.1]
      show (e.graph g').dropped = false ↔ _
      rw [h.alive, hg]
      simp [Ne.symm hne, eq_comm]
  apart := nofun

/-- Which graphs were dropped does not change with what else does. -/
theorem dropped_modifyGraph (e : Engine) (g g' : GraphId) {f : Graph → Graph}
    (hf : ∀ graph, (f graph).dropped = graph.dropped) :
    ((e.modifyGraph g f).graph g').dropped = (e.graph g').dropped := by
  rw [graph_modifyGraph]
  split
  · exact hf _
  · rfl

/-- What changes no graph leaves all in their places. -/
theorem Placed.same (h : Placed e) (hs : SameGraphs e e') : Placed e' :=
  h.of_kept hs.hooks hs.live fun g => by rw [hs.graph_eq]

/-- No deed leaves a graph out of its place. -/
theorem Deed.placed (hd : Deed e e') (h : Placed e) : Placed e' := by
  cases hd with
  | move hm => exact h.of_kept hm.frame.hooks hm.frame.live fun g => (hm.frame.graph g).dropped
  | retire empty hfree hempty _ => exact h.retire hfree hempty
  | release g hg =>
    refine h.unhook hg rfl rfl ?_ fun g' hne => ?_
    · rw [graph_release, if_pos ⟨rfl, h.hooks_lt hg⟩]
    · rw [graph_release, if_neg fun hc => hne hc.1]
  | abandon g hg =>
    refine h.unhook hg rfl rfl ?_ fun g' hne => ?_
    · rw [graph_abandon, if_pos ⟨rfl, h.hooks_lt hg⟩]
    · rw [graph_abandon, if_neg fun hc => hne hc.1]
  | entitle generation c hfree =>
    exact h.of_kept rfl rfl fun g => dropped_modifyGraph e e.live g fun _ => rfl
  | raise graph hfree hgraph => exact h.raise hfree hgraph
  | promote g hg => exact h.promote hg

/-- Nothing that happens leaves a graph out of its place. -/
theorem Change.placed (hc : Change e e') (h : Placed e) : Placed e' := by
  cases hc with
  | deed hd => exact hd.placed h
  | pulse hp => exact h.same hp.sameGraphs
  | supply hs => exact h.same hs.sameGraphs

/-! ### Graphs that were dropped -/

/-- A change of a graph makes none. -/
theorem length_modifyGraph (e : Engine) (g : GraphId) (f : Graph → Graph) :
    (e.modifyGraph g f).graphs.length = e.graphs.length := List.length_modify ..

/-- Where a change lets dropped graphs shrink, they do so. -/
theorem shrinks_modifyGraph (e : Engine) (g g' : GraphId) {f : Graph → Graph}
    (hf : ∀ graph : Graph, graph.dropped = true → graph.Shrinks (f graph))
    (h : (e.graph g').dropped = true) : (e.graph g').Shrinks ((e.modifyGraph g f).graph g') := by
  rw [graph_modifyGraph]
  split
  · exact hf _ h
  · exact .refl h

/-- A new graph leaves dropped ones as they are. -/
theorem shrinks_addGraph {graph : Graph} {g : GraphId} (hlt : g < e.graphs.length)
    (h : (e.graph g).dropped = true) :
    g < (e.addGraph graph).2.graphs.length ∧
      (e.graph g).Shrinks ((e.addGraph graph).2.graph g) := by
  refine ⟨?_, ?_⟩
  · show g < (e.graphs ++ [graph]).length
    rw [List.length_append]
    exact Nat.lt_add_right _ hlt
  · rw [graph_addGraph_of_lt graph hlt]
    exact .refl h

/-- A move lets dropped graphs shrink. -/
theorem Move.shrinks (hm : Move e e') {g : GraphId} (h : (e.graph g).dropped = true) :
    (e.graph g).Shrinks (e'.graph g) := by
  have hf := hm.frame.graph g
  exact ⟨hf.dropped.trans h, hf.tasks h ▸ List.Subset.refl _, hf.listeners h⟩

/-- A deed lets dropped graphs shrink. -/
theorem Deed.shrinks (hd : Deed e e') {g : GraphId} (hlt : g < e.graphs.length)
    (h : (e.graph g).dropped = true) :
    g < e'.graphs.length ∧ (e.graph g).Shrinks (e'.graph g) := by
  cases hd with
  | move hm => exact ⟨hm.frame.length ▸ hlt, hm.shrinks h⟩
  | retire empty _ _ _ => exact shrinks_addGraph hlt h
  | release g' _ =>
    refine ⟨(length_modifyGraph e g' _).symm ▸ hlt, ?_⟩
    rw [graph_release]
    split
    · -- a graph that is dropped a second time loses its tasks as well
      exact ⟨rfl, List.nil_subset _, fun _ _ => rfl⟩
    · exact .refl h
  | abandon g' _ =>
    refine ⟨(length_modifyGraph e g' _).symm ▸ hlt, ?_⟩
    rw [graph_abandon]
    split
    · -- giving a graph up forgets its listeners only
      exact ⟨rfl, List.Subset.refl _, fun _ _ => rfl⟩
    · exact .refl h
  | entitle generation c _ =>
    refine ⟨(length_modifyGraph e e.live _).symm ▸ hlt, ?_⟩
    exact shrinks_modifyGraph e e.live g (fun _ h => ⟨h, List.Subset.refl _, fun _ h => h⟩) h
  | raise graph _ _ => exact shrinks_addGraph hlt h
  | promote g' _ =>
    refine ⟨(length_modifyGraph e e.live _).symm ▸ hlt, ?_⟩
    exact shrinks_modifyGraph e e.live g (fun _ _ => ⟨rfl, List.Subset.refl _, fun _ h => h⟩) h

/-- Whatever happens lets dropped graphs shrink. -/
theorem Change.shrinks (hc : Change e e') {g : GraphId} (hlt : g < e.graphs.length)
    (h : (e.graph g).dropped = true) :
    g < e'.graphs.length ∧ (e.graph g).Shrinks (e'.graph g) := by
  have hsame : SameGraphs e e' → g < e'.graphs.length ∧ (e.graph g).Shrinks (e'.graph g) := by
    intro hs
    rw [hs.graphs, hs.graph_eq]
    exact ⟨hlt, .refl h⟩
  cases hc with
  | deed hd => exact hd.shrinks hlt h
  | pulse hp => exact hsame hp.sameGraphs
  | supply hs => exact hsame hs.sameGraphs

/-- **A graph that was dropped gains neither listeners nor tasks.** -/
theorem Evolves.shrinks (hs : Evolves e e') {g : GraphId} (hlt : g < e.graphs.length)
    (h : (e.graph g).dropped = true) :
    g < e'.graphs.length ∧ (e.graph g).Shrinks (e'.graph g) := by
  induction hs with
  | refl => exact ⟨hlt, .refl h⟩
  | tail _ hc ih =>
    obtain ⟨hlt', hshrinks⟩ := hc.shrinks ih.1 ih.2.dropped
    exact ⟨hlt', ih.2.trans hshrinks⟩

/-- A graph that was dropped with its tasks stays as empty as it is. -/
theorem Evolves.closed (hs : Evolves e e') {g : GraphId} (hlt : g < e.graphs.length)
    (h : (e.graph g).Closed) : (e'.graph g).Closed :=
  h.shrinks (hs.shrinks hlt h.dropped).2

/-- A graph is closed once it is released. -/
theorem closed_release {g : GraphId} (hlt : g < e.graphs.length) :
    ((e.release g).graph g).Closed := by
  rw [graph_release, if_pos ⟨rfl, hlt⟩]
  exact ⟨rfl, rfl, fun _ => rfl⟩

/-! ### Tasks -/

/-- A task that is not tracked is cancelled. -/
theorem scheduler_track (e : Engine) (g : GraphId) (task : TaskId) :
    (e.track g task).scheduler = e.scheduler.cancel task ∨
      (e.track g task).scheduler = e.scheduler := by
  obtain ⟨s, _, _, hs, -, htrack⟩ := track_eq e g task
  rw [htrack]
  exact hs

/-- Programs make tasks and cancel them, and do nothing else to the scheduler. -/
theorem Move.edits (hm : Move e e') : Scheduler.Edits e.scheduler e'.scheduler := by
  cases hm with
  | cancel task => exact .single (.cancel _ task)
  | schedule g timing body task s _ hs =>
    have hmade : Scheduler.Edits e.scheduler s := .single (.schedule hs)
    -- a graph that takes no task any more has the new one cancelled at once
    rcases scheduler_track { e with scheduler := s } g task with ht | ht
    · rw [ht]
      exact hmade.tail (.cancel s task)
    · rw [ht]
      exact hmade
  | record entry _ => exact .refl
  | draw => exact .refl
  | remove g key l _ => exact .refl
  | withdraw g l _ => exact .refl
  | subscribe g key l _ => exact .refl
  | submit job pool _ => exact .refl

/-- Deeds only make and cancel tasks. -/
theorem Deed.edits (hd : Deed e e') : Scheduler.Edits e.scheduler e'.scheduler := by
  cases hd with
  | move hm => exact hm.edits
  | release g _ => exact Scheduler.edits_foldl_cancel _ _
  | retire empty _ _ _ => exact .refl
  | abandon g _ => exact .refl
  | entitle generation c _ => exact .refl
  | raise graph _ _ => exact .refl
  | promote g _ => exact .refl

/-- What the clock does to the scheduler. -/
theorem Pulse.reschedules (hp : Pulse e e') : Scheduler.Changes e.scheduler e'.scheduler := by
  cases hp with
  | settle => exact .single (.settle _)
  | start limit task due _ => exact .single (.start _ task due)
  | complete task => exact .single (.complete _ task)
  | tick time => exact .single (.tick _ _)
  -- the workers have nothing to do with the clock
  | job number => exact .refl
  | pool pool => exact .refl

/-- What anything does to the scheduler. -/
theorem Change.reschedules (hc : Change e e') : Scheduler.Changes e.scheduler e'.scheduler := by
  cases hc with
  | deed hd => exact hd.edits.changes
  | pulse hp => exact hp.reschedules
  | supply hs => rw [hs.scheduler]

theorem Evolves.reschedules (hs : Evolves e e') : Scheduler.Changes e.scheduler e'.scheduler := by
  induction hs with
  | refl => exact .refl
  | tail _ hc ih => exact ih.trans hc.reschedules

/-- **No task is forgotten**: it keeps its number and its owner, and once it is over it stays so. -/
theorem Evolves.keeps (hs : Evolves e e') : e.scheduler.Keeps e'.scheduler := hs.reschedules.keeps

/-- **A task that is not over is held by the registry of the graph it was made for**, whether or not
that graph was dropped. -/
structure Accounted (e : Engine) : Prop where
  tracked : ∀ id t g, e.scheduler.task? id = some t → t.isOver = false → t.owner = some g →
    id ∈ (e.graph g).tasks.tracked
  known : ∀ g, ∀ id ∈ (e.graph g).tasks.tracked, id ≤ e.scheduler.tasks.length

/-- A change that neither makes a task nor touches a registry. -/
theorem Accounted.of_kept (h : Accounted e) (hs : e.scheduler.Keeps e'.scheduler)
    (hlen : e'.scheduler.tasks.length = e.scheduler.tasks.length)
    (ht : ∀ g, (e'.graph g).tasks.tracked = (e.graph g).tasks.tracked) : Accounted e' where
  tracked id t' g ht' hover howner := by
    have hle := hlen ▸ Scheduler.le_length_of_task? ht'
    obtain ⟨t, hid, hover, ho⟩ := hs.not_isOver_before ht' hover hle
    rw [ht]
    exact h.tracked id t g hid hover (ho.symm.trans howner)
  known g id hid := by
    rw [ht] at hid
    rw [hlen]
    exact h.known g id hid

/-- Which tasks are tracked does not change with what else does. -/
theorem tracked_modifyGraph (e : Engine) (g g' : GraphId) {f : Graph → Graph}
    (hf : ∀ graph : Graph, (f graph).tasks = graph.tasks) :
    ((e.modifyGraph g f).graph g').tasks.tracked = (e.graph g').tasks.tracked := by
  rw [graph_modifyGraph]
  split
  · rw [hf]
  · rfl

/-- A fresh graph tracks no task. -/
theorem tracked_addGraph (e : Engine) {graph : Graph} (h : graph.Fresh) (g : GraphId) :
    ((e.addGraph graph).2.graph g).tasks.tracked = (e.graph g).tasks.tracked := by
  rw [graph_addGraph]
  split
  · next hg =>
    rw [h.tasks, graph_of_le (Nat.le_of_eq hg.symm)]
    rfl
  · rfl

/-- The tasks of a graph that is released are cancelled, so none of them has to be held. -/
theorem Accounted.release (h : Accounted e) (g : GraphId) : Accounted (e.release g) := by
  have hs : e.scheduler.Keeps (e.release g).scheduler := Scheduler.keeps_foldl_cancel _ _
  have hlen : (e.release g).scheduler.tasks.length = e.scheduler.tasks.length :=
    Scheduler.length_foldl_cancel _ _
  refine ⟨fun id t' g' ht' hover' howner => ?_, fun g' id hid => ?_⟩
  · have hle := hlen ▸ Scheduler.le_length_of_task? ht'
    obtain ⟨t, hid, hover, ho⟩ := hs.not_isOver_before ht' hover' hle
    have hmem := h.tracked id t g' hid hover (ho.symm.trans howner)
    rw [graph_release]
    split
    · next hg =>
      -- it was held by the graph that is released, so it has been cancelled
      rw [← hg.1] at hmem
      exact absurd (Scheduler.isOver_of_mem_foldl_cancel hmem ht') (Bool.eq_false_iff.mp hover')
    · exact hmem
  · rw [graph_release] at hid
    rw [hlen]
    split at hid
    · cases hid
    · exact h.known g' id hid

section Schedule

variable {g : GraphId} {timing : Timing} {body : Nat → Program} {task : TaskId}
  {s : Scheduler (Nat → Program)}

/-- After a task was made, what is not over is that task or was held before. -/
theorem Accounted.held (h : Accounted e)
    (hs : e.scheduler.schedule (some g) timing body = .ok (task, s)) {id : TaskId}
    {t : Task (Nat → Program)} {g' : GraphId} (ht : s.task? id = some t) (hover : t.isOver = false)
    (ho : t.owner = some g') : id = task ∧ g' = g ∨ id ∈ (e.graph g').tasks.tracked := by
  obtain ⟨hkeeps, htask, hlen, tnew, hnew, howner⟩ := Scheduler.keeps_schedule hs
  by_cases hid : id = task
  · rw [hid, hnew] at ht
    cases ht
    exact .inl ⟨hid, Option.some.inj (ho.symm.trans howner)⟩
  · -- only one number is new
    have hlt : id < e.scheduler.tasks.length + 1 :=
      htask ▸ Nat.lt_of_le_of_ne (hlen ▸ Scheduler.le_length_of_task? ht) hid
    obtain ⟨t₀, ht₀, hover, ho'⟩ := hkeeps.not_isOver_before ht hover (Nat.le_of_lt_succ hlt)
    exact .inr (h.tracked id t₀ g' ht₀ hover (ho'.symm.trans ho))

/-- The tasks that are tracked were made before a new one is. -/
theorem Accounted.known_of_schedule (h : Accounted e)
    (hs : e.scheduler.schedule (some g) timing body = .ok (task, s)) (g' : GraphId) :
    ∀ id ∈ (e.graph g').tasks.tracked, id ≤ s.tasks.length := fun id hid =>
  Nat.le_trans (h.known g' id hid) (Scheduler.keeps_schedule hs).1.length

/-- A new task that is cancelled at once need not be held. -/
theorem Accounted.schedule_cancel (h : Accounted e)
    (hs : e.scheduler.schedule (some g) timing body = .ok (task, s)) :
    Accounted { e with scheduler := s.cancel task } where
  tracked id t' g' ht' hover howner := by
    have hle := Scheduler.length_modify s task _ ▸ Scheduler.le_length_of_task? ht'
    obtain ⟨t, ht, hover', ho⟩ := (Scheduler.keeps_cancel s task).not_isOver_before ht' hover hle
    refine (h.held hs ht hover' (ho.symm.trans howner)).resolve_left fun hid => ?_
    exact Bool.eq_false_iff.mp hover (Scheduler.isOver_of_cancel (hid.1 ▸ ht'))
  known g' id hid := by
    show id ≤ (s.cancel task).tasks.length
    rw [Scheduler.cancel, Scheduler.length_modify]
    exact h.known_of_schedule hs g' id hid

/-- An open registry holds a new task, and what it lets go of has ended. -/
theorem Accounted.schedule_hold (h : Accounted e)
    (hs : e.scheduler.schedule (some g) timing body = .ok (task, s))
    (hd : ¬ (e.graph g).dropped = true) :
    Accounted ({ e with scheduler := s }.modifyGraph g ({ · with tasks := { (e.graph g).tasks with
      tracked := (e.graph g).tasks.tracked.filter (!s.isEnded ·) ++ [task] } })) := by
  have hlt : g < e.graphs.length := lt_of_not_dropped (Bool.eq_false_iff.mpr hd)
  refine ⟨fun id t g' ht hover ho => ?_, fun g' id hid => ?_⟩
  · rw [graph_modifyGraph]
    rcases h.held hs ht hover ho with ⟨rfl, rfl⟩ | hmem
    · rw [if_pos ⟨rfl, hlt⟩]
      exact List.mem_append_right _ List.mem_cons_self
    split
    · next hg =>
      -- the registry lets go of tasks that have ended, and this one is not over
      have hend : s.isEnded id = false := by
        rw [Scheduler.isEnded, show s.task? id = some t from ht]
        exact Bool.eq_false_iff.mpr fun hc => Bool.eq_false_iff.mp hover (Task.isOver_of_ended hc)
      rw [← hg.1] at hmem
      exact List.mem_append_left _ (List.mem_filter.mpr ⟨hmem, by rw [hend]; rfl⟩)
    · exact hmem
  · rw [graph_modifyGraph] at hid
    split at hid
    · rcases List.mem_append.mp hid with hmem | hmem
      · exact h.known_of_schedule hs g id (List.mem_filter.mp hmem).1
      · obtain ⟨-, -, hlen, -⟩ := Scheduler.keeps_schedule hs
        rw [List.mem_singleton.mp hmem, ← hlen]
        exact Nat.le_refl _
    · exact h.known_of_schedule hs g' id hid

/-- **A new task is accounted for wherever it is put**: a registry that is open holds it, and
otherwise it is cancelled. -/
theorem Accounted.schedule (h : Accounted e)
    (hs : e.scheduler.schedule (some g) timing body = .ok (task, s)) :
    Accounted ({ e with scheduler := s }.track g task) := by
  by_cases hd : (e.graph g).dropped = true
  · -- a dropped graph tracks nothing: the task is cancelled at once
    rw [track_of_dropped (e := { e with scheduler := s }) task hd]
    exact (h.schedule_cancel hs).of_kept (.refl _) rfl fun _ => rfl
  by_cases hc : (e.graph g).tasks.closed = true
  · -- a closed registry cancels it too, and is written back as it was
    rw [track_of_closed (e := { e with scheduler := s }) task hd hc]
    refine (h.schedule_cancel hs).of_kept (.refl _) rfl fun g' => ?_
    show ((e.modifyGraph g ({ · with tasks := (e.graph g).tasks })).graph g').tasks.tracked = _
    rw [graph_modifyGraph]
    split
    · next hg =>
      rw [hg.1]
      rfl
    · rfl
  · rw [track_of_open (e := { e with scheduler := s }) task hd hc]
    exact h.schedule_hold hs hd

end Schedule

/-- A move loses track of no task that is not over. -/
theorem Move.accounted (hm : Move e e') (h : Accounted e) : Accounted e' := by
  cases hm with
  | schedule g timing body task s _ hs => exact h.schedule hs
  | cancel task =>
    exact h.of_kept (Scheduler.keeps_cancel _ task) (Scheduler.length_modify ..) fun _ => rfl
  | remove g key l _ =>
    exact h.of_kept (.refl _) rfl fun g' => tracked_modifyGraph e g g' fun _ => rfl
  | withdraw g l _ =>
    exact h.of_kept (.refl _) rfl fun g' => tracked_modifyGraph e g g' fun _ => rfl
  | subscribe g key l _ =>
    refine h.of_kept (.refl _) rfl fun g' => tracked_modifyGraph e g g' fun graph => ?_
    split <;> rfl
  | record entry _ => exact h.of_kept (.refl _) rfl fun _ => rfl
  | draw => exact h.of_kept (.refl _) rfl fun _ => rfl
  | submit job pool _ => exact h.of_kept (.refl _) rfl fun _ => rfl

/-- A deed loses track of no task that is not over. -/
theorem Deed.accounted (hd : Deed e e') (h : Accounted e) : Accounted e' := by
  -- the tasks are kept by all of them, so only what a graph tracks is at stake
  have hkeeps := hd.edits.changes.keeps
  cases hd with
  | move hm => exact hm.accounted h
  | release g _ => exact h.release g
  | retire empty _ hempty _ => exact h.of_kept hkeeps rfl (tracked_addGraph e hempty)
  | raise graph _ hgraph => exact h.of_kept hkeeps rfl (tracked_addGraph e hgraph)
  | abandon g _ => exact h.of_kept hkeeps rfl fun g' => tracked_modifyGraph e g g' fun _ => rfl
  | entitle generation c _ =>
    exact h.of_kept hkeeps rfl fun g' => tracked_modifyGraph e e.live g' fun _ => rfl
  | promote g _ => exact h.of_kept hkeeps rfl fun g' => tracked_modifyGraph e e.live g' fun _ => rfl

/-- The clock makes no task. -/
theorem Pulse.length_tasks (hp : Pulse e e') :
    e'.scheduler.tasks.length = e.scheduler.tasks.length := by
  cases hp with
  | settle => exact List.length_map _
  | start limit task due _ => exact Scheduler.length_modify ..
  | complete task => exact Scheduler.length_modify ..
  | tick time => rfl
  | job number => rfl
  | pool pool => rfl

/-- Nothing that happens loses track of a task that is not over. -/
theorem Change.accounted (hc : Change e e') (h : Accounted e) : Accounted e' := by
  have hkeeps := hc.reschedules.keeps
  have hsame : SameGraphs e e' → ∀ g, (e'.graph g).tasks.tracked = (e.graph g).tasks.tracked :=
    fun hs g => by rw [hs.graph_eq]
  cases hc with
  | deed hd => exact hd.accounted h
  | pulse hp => exact h.of_kept hkeeps hp.length_tasks (hsame hp.sameGraphs)
  | supply hs =>
    exact h.of_kept hkeeps (congrArg (·.tasks.length) hs.scheduler) (hsame hs.sameGraphs)

/-! ### Reachable engines -/

/-- A created engine has one graph, which is empty, and the scheduler that it was given. -/
theorem of_create {config : Config} {registry : Registry Behaviour} {catalog : Catalog}
    {store : Store} {s : Scheduler (Nat → Program)} {pool : Option (Pool Program)}
    {dice : Nat → Float → Float → Float}
    (h : create config registry catalog store (some s) pool dice = .ok e) :
    e.graphs = [{}] ∧ e.live = 0 ∧ e.hooks = none ∧ e.scheduler = s := by
  cases pool <;>
  · cases h
    rw [logAll_eq]
    exact ⟨rfl, rfl, rfl, rfl⟩

/-- A new engine has the types that it was given. -/
theorem registry_of_create {config : Config} {registry : Registry Behaviour} {catalog : Catalog}
    {store : Store} {s : Scheduler (Nat → Program)} {pool : Option (Pool Program)}
    {dice : Nat → Float → Float → Float}
    (h : create config registry catalog store (some s) pool dice = .ok e) :
    e.registry = registry := by
  cases pool <;>
  · cases h
    rw [logAll_eq]
    rfl

/-- A new engine has the store that it was given. -/
theorem store_of_create {config : Config} {registry : Registry Behaviour} {catalog : Catalog}
    {store : Store} {s : Scheduler (Nat → Program)} {pool : Option (Pool Program)}
    {dice : Nat → Float → Float → Float}
    (h : create config registry catalog store (some s) pool dice = .ok e) : e.store = store := by
  cases pool <;>
  · cases h
    rw [logAll_eq]
    rfl

/-- In an engine that has come to be, all graphs are in their places. -/
theorem Reachable.placed (h : Reachable e) : Placed e := by
  induction h with
  | created h _ =>
    obtain ⟨hgraphs, hlive, hhooks, -⟩ := of_create h
    refine ⟨fun g => ?_, ?_⟩
    · rw [hlive, hhooks, graph, hgraphs]
      cases g with
      | zero => exact ⟨fun _ => .inl rfl, fun _ => rfl⟩
      | succ g =>
        -- there is no other graph yet
        constructor
        · intro hd
          cases hd
        · intro hg
          rcases hg with hg | hg <;> cases hg
    · rw [hhooks]
      exact (Option.some_ne_none _).symm
  | change _ hc ih => exact hc.placed ih

/-- In an engine that has come to be, all tasks are accounted for. -/
theorem Reachable.accounted (h : Reachable e) : Accounted e := by
  induction h with
  | created h hs =>
    obtain ⟨hgraphs, -, -, hsched⟩ := of_create h
    refine ⟨fun id t g ht _ ho => ?_, fun g id hid => ?_⟩
    · -- what the scheduler held before belongs to no graph
      rw [hsched] at ht
      have hmem : t ∈ _ := Scheduler.mem_of_task? ht
      rw [hs t hmem] at ho
      cases ho
    · rw [graph, hgraphs] at hid
      cases g <;> cases hid
  | change _ hc ih => exact hc.accounted ih

theorem Evolves.placed (hs : Evolves e e') (h : Placed e) : Placed e' := by
  induction hs with
  | refl => exact h
  | tail _ hc ih => exact hc.placed ih

theorem Evolves.accounted (hs : Evolves e e') (h : Accounted e) : Accounted e' := by
  induction hs with
  | refl => exact h
  | tail _ hc ih => exact hc.accounted ih

/-! ### What is started -/

/-- The journal has grown, and only tasks with the property have been started meanwhile. -/
def StartsOnly (S : TaskId → Prop) (e e' : Engine) : Prop :=
  ∃ new, e'.journal = new ++ e.journal ∧ ∀ entry ∈ new, ∀ task, entry.task? = some task → S task

section StartsOnly

variable {S : TaskId → Prop}

theorem StartsOnly.of_eq (h : e'.journal = e.journal) : StartsOnly S e e' := ⟨[], h, nofun⟩

/-- An entry starts at most the task that it tells of. -/
theorem StartsOnly.of_record {entry : Entry} (h : e'.journal = entry :: e.journal)
    (hS : ∀ task, entry.task? = some task → S task) : StartsOnly S e e' := by
  refine ⟨[entry], h, fun entry' hmem => ?_⟩
  rw [List.mem_singleton.mp hmem]
  exact hS

/-- Where no start is noted, none has been. -/
theorem StartsOnly.not_started {entry : Entry} {task : TaskId}
    (h : StartsOnly (fun _ => False) e e') (he : e'.journal = entry :: e.journal) :
    entry.task? ≠ some task := by
  obtain ⟨new, hnew, hnone⟩ := h
  have happend : new ++ e.journal = [entry] ++ e.journal := hnew.symm.trans he
  have heq : new = [entry] := List.append_cancel_right happend
  exact fun htask => hnone entry (heq ▸ List.mem_singleton_self entry) task htask

/-- What starts on the way starts in one of its parts. -/
theorem StartsOnly.trans {e'' : Engine} (h : StartsOnly S e e') (h' : StartsOnly S e' e'') :
    StartsOnly S e e'' := by
  obtain ⟨new, hnew, hS⟩ := h
  obtain ⟨new', hnew', hS'⟩ := h'
  refine ⟨new' ++ new, by rw [hnew', hnew, List.append_assoc], fun entry hmem => ?_⟩
  rcases List.mem_append.mp hmem with hmem | hmem
  · exact hS' entry hmem
  · exact hS entry hmem

/-- Programs start no task. -/
theorem Move.startsOnly (hm : Move e e') : StartsOnly S e e' := by
  cases hm with
  | record entry h =>
    refine .of_record rfl fun task ht => ?_
    rw [Entry.task?_of_not_starts h] at ht
    cases ht
  | schedule g timing body task s _ _ =>
    -- a graph that takes no task any more cancels the new one, which starts nothing
    by_cases hd : (e.graph g).dropped = true
    · rw [track_of_dropped (e := { e with scheduler := s }) task hd]
      exact .of_record rfl nofun
    by_cases hc : (e.graph g).tasks.closed = true
    · rw [track_of_closed (e := { e with scheduler := s }) task hd hc]
      exact .of_record rfl nofun
    · rw [track_of_open (e := { e with scheduler := s }) task hd hc]
      exact .of_eq rfl
  | draw => exact .of_eq rfl
  | cancel task => exact .of_eq rfl
  | remove g key l _ => exact .of_eq rfl
  | withdraw g l _ => exact .of_eq rfl
  | subscribe g key l _ => exact .of_eq rfl
  | submit job pool _ => exact .of_eq rfl

/-- Programs start no task. -/
theorem Moves.startsOnly (hm : Moves e e') : StartsOnly S e e' := by
  induction hm with
  | refl => exact .of_eq rfl
  | tail _ hm ih => exact ih.trans hm.startsOnly

/-- Deeds start no task. -/
theorem Deed.startsOnly (hd : Deed e e') : StartsOnly S e e' := by
  cases hd with
  | move hm => exact hm.startsOnly
  | retire empty _ _ _ => exact .of_eq rfl
  | release g _ => exact .of_eq rfl
  | abandon g _ => exact .of_eq rfl
  | entitle generation c _ => exact .of_eq rfl
  | raise graph _ _ => exact .of_eq rfl
  | promote g _ => exact .of_eq rfl

/-- Only tasks that are not over are started. -/
theorem Pulse.startsOnly (hp : Pulse e e')
    (hS : ∀ task t, e.scheduler.task? task = some t → t.isOver = false → S task) :
    StartsOnly S e e' := by
  cases hp with
  | start limit task due h =>
    -- what starts is not over yet, which is all that the property asks for
    obtain ⟨t, ht, hover⟩ := Scheduler.not_isOver_of_next? h
    refine .of_record rfl fun task' h' => ?_
    cases h'
    exact hS task t ht hover
  | job number => exact .of_record rfl nofun
  | settle => exact .of_eq rfl
  | complete task => exact .of_eq rfl
  | tick time => exact .of_eq rfl
  | pool pool => exact .of_eq rfl

/-- A task that is over is not started. -/
theorem Change.startsOnly (hc : Change e e')
    (hS : ∀ task t, e.scheduler.task? task = some t → t.isOver = false → S task) :
    StartsOnly S e e' := by
  cases hc with
  | deed hd => exact hd.startsOnly
  | pulse hp => exact hp.startsOnly hS
  | supply hs => exact .of_eq hs.journal

/-- **Whatever is started has the property, if everything has it that is not over at some point in
between.** -/
theorem Evolves.startsOnly (hs : Evolves e e')
    (hS : ∀ m, Evolves e m → Evolves m e' → ∀ task t, m.scheduler.task? task = some t →
      t.isOver = false → S task) : StartsOnly S e e' := by
  -- from the front, so that what is asked of later engines stays as it is
  induction hs using Relation.ReflTransGen.head_induction_on with
  | refl => exact .of_eq rfl
  | head hc hs ih =>
    have hfirst := hc.startsOnly (hS _ .refl (.head hc hs))
    exact hfirst.trans (ih fun m hm => hS m (.head hc hm))

end StartsOnly

end Engine

end Flowgraph
